import Foreman.Proofs.Run.Inflow
import Foreman.Proofs.Workshop.Snapshot
/-!
# What flows through a run

The executors that work on a step are all handed the same inputs, attempt after attempt, and the
record of the step shows these inputs. They are the input of the run, overlaid with what the step
declares and the steps before it have put out.

What executors were handed is told by a run in which every exchange is written down, step by step.
It is the same run but for what is written down.

## Main definitions

* `Foreman.Workshop.carryOutWatched`: a run in which the exchanges of each step are written down.
* `Foreman.Fed`: what went into a step.
* `Foreman.Flows`: what went into the steps of a run, one after another.

## Main results

* `Foreman.Workshop.carryOutWatched_snd`: writing the exchanges down changes nothing.
* `Foreman.Workshop.runStepsWatched_flows`: what goes into the steps of a run that are left.
* `Foreman.Workshop.inputs_flow_through`: every executor that works on a step is handed what the
  record shows, and what that is.
-/

namespace Foreman

open Engine (Exchange)

namespace Workshop

variable (attendant : Attendant)

/-! ### Runs in which the exchanges are written down -/

/-- A step is got done, and the exchanges with executors are written down. -/
def executeStepWatched (attendant : Attendant) (step method : String) (inputs : Bindings)
    (w : Workshop) : List (Exchange ℕ) × Option (Except Failure StepResult) × Workshop :=
  let (result, s, xs) :=
    Engine.run (crew attendant).watched w.policy step method inputs ({ shop := w }, [])
  (xs, if s.dropped then none else some result, s.shop)

/-- A step is given its resources and got done. The exchanges with executors are written down, if it
was given its resources. -/
def allocateAndExecuteWatched (attendant : Attendant) (run : RunRecord) (id : String) (s : Step)
    (w : Workshop) : Option (List (Exchange ℕ)) × RunRecord × Option (Option Failure) × Workshop :=
  match w.allocate id s.requirements with
  | (.error failure, w) => (none, run, some (some failure), w)
  | (.ok given, w) =>
    let inputs := run.inputsFor s
    let run := run.supply given inputs
    match executeStepWatched attendant s.name s.method inputs (w.publish run) with
    | (xs, some (.error failure), w) => (some xs, run, some (some failure), w)
    | (xs, some (.ok result), w) => (some xs, run.deliver result, some none, w)
    | (xs, none, w) => (some xs, run, none, w)

/-- One step of a run, whose exchanges are written down. -/
def runStepWatched (attendant : Attendant) (run : RunRecord) (s : Step) (w : Workshop) :
    Option (List (Exchange ℕ)) × RunRecord × Option (Option Failure) × Workshop :=
  let (id, run, w) := beginStep run s w
  match allocateAndExecuteWatched attendant run id s w with
  | (xs, run, none, w) => (xs, run, none, w)
  | (xs, run, some failure, w) =>
    let (run, w) := endStep run id failure w
    (xs, run, some failure, w)

/-- The steps of a run that are left. The exchanges of each that begins are written down. -/
def runStepsWatched (attendant : Attendant) (run : RunRecord) :
    List Step → Workshop →
      List (Option (List (Exchange ℕ))) × RunRecord × Option (Option Failure) × Workshop
  | [], w => ([], runSteps attendant run [] w)
  | s :: rest, w =>
    if w.ledger.closed then ([], run, some (some .shutDown), w.abandon run)
    else
      match runStepWatched attendant run s w with
      | (xs, run, none, w) => ([xs], run, none, w)
      | (xs, run, some none, w) =>
        let (log, result) := runStepsWatched attendant run rest w
        (xs :: log, result)
      | (xs, run, some (some failure), w) =>
        if w.ledger.closed then ([xs], run, some (some .shutDown), w.abandon run)
        else
          let w := w.note (.runFailed run.id s.name failure.message)
          let (run, w) := w.conclude run .failed (some failure.message)
          ([xs], run, some (some failure), w)

/-- A run of a playbook, in which the exchanges of each step that begins are written down. -/
def carryOutWatched (attendant : Attendant) (playbook : Playbook) (input : Bindings)
    (w : Workshop) :
    List (Option (List (Exchange ℕ))) × RunRecord × Option (Option Failure) × Workshop :=
  let (run, w) := w.beginRun playbook input
  runStepsWatched attendant run playbook.steps w

theorem executeStepWatched_snd (step method : String) (inputs : Bindings) (w : Workshop) :
    (executeStepWatched attendant step method inputs w).2 =
      executeStep attendant step method inputs w := by
  obtain ⟨hresult, hafter⟩ :=
    Engine.run_watched (crew attendant) w.policy step method inputs { shop := w } []
  simp only [executeStepWatched, executeStep, hresult, hafter]

theorem allocateAndExecuteWatched_snd (run : RunRecord) (id : String) (s : Step) (w : Workshop) :
    (allocateAndExecuteWatched attendant run id s w).2 =
      allocateAndExecute attendant run id s w := by
  unfold allocateAndExecuteWatched allocateAndExecute
  rcases w.allocate id s.requirements with ⟨f | given, v⟩
  · rfl
  · have hsame := executeStepWatched_snd attendant s.name s.method (run.inputsFor s)
      (v.publish (run.supply given (run.inputsFor s)))
    dsimp only
    rw [← hsame]
    rcases executeStepWatched attendant s.name s.method (run.inputsFor s)
      (v.publish (run.supply given (run.inputsFor s))) with ⟨xs, _ | _ | _, v'⟩ <;> rfl

theorem runStepWatched_snd (run : RunRecord) (s : Step) (w : Workshop) :
    (runStepWatched attendant run s w).2 = runStep attendant run s w := by
  have hsame := allocateAndExecuteWatched_snd attendant (beginStep run s w).2.1
    (beginStep run s w).1 s (beginStep run s w).2.2
  unfold runStepWatched runStep
  dsimp only
  rw [← hsame]
  rcases allocateAndExecuteWatched attendant (beginStep run s w).2.1 (beginStep run s w).1 s
    (beginStep run s w).2.2 with ⟨xs, run', _ | failure, v⟩ <;> rfl

theorem runStepsWatched_snd (run : RunRecord) (left : List Step) (w : Workshop) :
    (runStepsWatched attendant run left w).2 = runSteps attendant run left w := by
  induction left generalizing run w with
  | nil => rfl
  | cons s rest ih =>
    have hstep := runStepWatched_snd attendant run s w
    unfold runStepsWatched runSteps
    split
    · rfl
    · rw [← hstep]
      rcases runStepWatched attendant run s w with ⟨xs, run', _ | _ | f, w'⟩
      · rfl
      · exact ih run' w'
      · dsimp only
        split <;> rfl

/-- Writing the exchanges down changes nothing about a run. -/
theorem carryOutWatched_snd (playbook : Playbook) (input : Bindings) (w : Workshop) :
    (carryOutWatched attendant playbook input w).2 = carryOut attendant playbook input w :=
  runStepsWatched_snd attendant _ _ _

/-! ### What went into the steps -/

end Workshop

/-- What went into a step of a run that had an input, after some earlier steps: the record shows it,
and so does every exchange with an executor. -/
structure Fed (input : Bindings) (earlier : List StepRecord) (s : Step) (t : StepRecord)
    (xs : List (Exchange ℕ)) : Prop where
  /-- The record is that of the step. -/
  name : t.name = s.name
  /-- It shows the input of the run, overlaid with what is declared and earlier steps put out. -/
  inputs : Overlaid earlier input s.inputs t.inputs
  /-- Whoever was handed the step was handed just this. -/
  requests : ∀ x ∈ xs, x.request.step = s.name ∧ x.request.method = s.method ∧
    x.request.inputs = t.inputs

/-- What went into some steps of a run, after those that are done. A step that was not given its
resources was not handed to anybody, and nothing went in. -/
inductive Flows (input : Bindings) :
    List StepRecord → List Step → List StepRecord → List (Option (List (Exchange ℕ))) → Prop
  | stopped {earlier : List StepRecord} {left : List Step} : Flows input earlier left [] []
  | refused {earlier : List StepRecord} {s : Step} {rest : List Step} {t : StepRecord}
      (hname : t.name = s.name) (hinputs : t.inputs = .empty) :
      Flows input earlier (s :: rest) [t] [none]
  | worked {earlier : List StepRecord} {s : Step} {rest : List Step} {t : StepRecord}
      {xs : List (Exchange ℕ)} {records : List StepRecord}
      {log : List (Option (List (Exchange ℕ)))} (hfed : Fed input earlier s t xs)
      (hrest : Flows input (earlier ++ [t]) rest records log) :
      Flows input earlier (s :: rest) (t :: records) (some xs :: log)

namespace Flows

variable {input : Bindings} {earlier records : List StepRecord} {left : List Step}
  {log : List (Option (List (Exchange ℕ)))}

/-- There is something to say about each step that has begun. -/
theorem length_eq (h : Flows input earlier left records log) : log.length = records.length := by
  induction h with
  | stopped => rfl
  | refused _ _ => rfl
  | worked _ _ ih => simp [ih]

/-- What went into a step that executors worked on. -/
theorem fed (h : Flows input earlier left records log) {k : ℕ} {xs : List (Exchange ℕ)}
    (hk : log[k]? = some (some xs)) :
    ∃ s t, left[k]? = some s ∧ records[k]? = some t ∧
      Fed input (earlier ++ records.take k) s t xs := by
  induction h generalizing k with
  | stopped => simp at hk
  | refused _ _ => cases k <;> simp at hk
  | @worked earlier s rest t xs' records log hfed _ ih =>
    cases k with
    | zero =>
      obtain rfl : xs' = xs := by simpa using hk
      exact ⟨s, t, rfl, rfl, by simpa using hfed⟩
    | succ k =>
      obtain ⟨s', t', hs', ht', hfed'⟩ := ih (by simpa using hk)
      exact ⟨s', t', by simpa using hs', by simpa using ht', by simpa using hfed'⟩

end Flows

namespace Workshop

variable (attendant : Attendant)

/-- Whoever is handed a step while it is got done is handed what goes in. -/
theorem requests_of_executeStepWatched {step method : String} {inputs : Bindings} {w u : Workshop}
    {result : Option (Except Failure StepResult)} {xs : List (Exchange ℕ)}
    (h : executeStepWatched attendant step method inputs w = (xs, result, u)) :
    ∀ x ∈ xs, x.request.step = step ∧ x.request.method = method ∧ x.request.inputs = inputs := by
  intro x hx
  obtain rfl : exchanges attendant step method inputs w = xs := congrArg Prod.fst h
  rw [request_of_mem_exchanges hx]
  exact ⟨rfl, rfl, rfl⟩

/-- What a step of a run came to, after those that are done: its record, which shows it as completed
unless it failed or was dropped, and what went in. -/
structure StepFlows (base : Bindings) (earlier : List StepRecord) (s : Step)
    (x : Option (List (Exchange ℕ)) × RunRecord × Option (Option Failure) × Workshop) : Prop where
  /-- The input of the run is the same. -/
  input : x.2.1.input = base
  /-- One more step is on record. -/
  steps : ∃ t, x.2.1.steps = earlier ++ [t] ∧ (x.2.2.1 = some none → t.status = .completed) ∧
    match x.1 with
    | none => t.name = s.name ∧ t.inputs = .empty ∧ ∃ f, x.2.2.1 = some (some f)
    | some xs => Fed base earlier s t xs

theorem runStepWatched_flows (run : RunRecord) (s : Step) (w : Workshop)
    (hdone : ∀ t ∈ run.steps, t.status = .completed) :
    StepFlows run.input run.steps s (runStepWatched attendant run s w) := by
  unfold runStepWatched allocateAndExecuteWatched
  rcases hbegun : beginStep run s w with ⟨id, run', v⟩
  obtain ⟨t, hsteps, hname, hstatus, hinputs, hinput⟩ : ∃ t, run'.steps = run.steps ++ [t] ∧
      t.name = s.name ∧ t.status = .running ∧ t.inputs = .empty ∧ run'.input = run.input := by
    simp only [beginStep, Prod.mk.injEq] at hbegun
    obtain ⟨-, rfl, -⟩ := hbegun
    exact ⟨_, rfl, rfl, rfl, rfl, rfl⟩
  dsimp only
  rcases v.allocate id s.requirements with ⟨f | given, v'⟩
  · exact ⟨hinput, _, RunRecord.steps_modifyLast hsteps _, nofun, hname, hinputs, f, rfl⟩
  · -- nothing is taken from the step itself, which is not done
    have hoverlaid : Overlaid run.steps run.input s.inputs (run'.inputsFor s) := by
      rw [← hinput]
      exact RunRecord.overlaid_inputsFor hsteps hdone (by simp [hstatus]) s
    have hsupplied : (run'.supply given (run'.inputsFor s)).steps = run.steps ++ _ :=
      RunRecord.steps_modifyLast hsteps _
    dsimp only
    rcases hstep : executeStepWatched attendant s.name s.method (run'.inputsFor s)
      (v'.publish (run'.supply given (run'.inputsFor s))) with ⟨xs, _ | f | result, u⟩ <;>
      have hrequests := requests_of_executeStepWatched attendant hstep
    · exact ⟨hinput, _, hsupplied, nofun, hname, hoverlaid, hrequests⟩
    · exact ⟨hinput, _, RunRecord.steps_modifyLast hsupplied _, nofun, hname, hoverlaid, hrequests⟩
    · have hdelivered : ((run'.supply given (run'.inputsFor s)).deliver result).steps =
          run.steps ++ _ := RunRecord.steps_modifyLast hsupplied _
      exact ⟨hinput, _, RunRecord.steps_modifyLast hdelivered _, fun _ => rfl, hname, hoverlaid,
        hrequests⟩

/-- What goes into the steps of a run that are left, when those before are done. -/
theorem runStepsWatched_flows (run : RunRecord) (left : List Step) (w : Workshop)
    (hdone : ∀ t ∈ run.steps, t.status = .completed) :
    ∃ records, (runStepsWatched attendant run left w).2.1.steps = run.steps ++ records ∧
      Flows run.input run.steps left records (runStepsWatched attendant run left w).1 := by
  induction left generalizing run w with
  | nil =>
    refine ⟨[], ?_, .stopped⟩
    unfold runStepsWatched runSteps
    split <;> exact (List.append_nil _).symm
  | cons s rest ih =>
    obtain ⟨hinput, t, hsteps, hcompleted, hflows⟩ :=
      runStepWatched_flows attendant run s w hdone
    unfold runStepsWatched
    split
    · exact ⟨[], (List.append_nil _).symm, .stopped⟩
    · rcases hstep : runStepWatched attendant run s w with ⟨_ | xs, run', _ | _ | f, w'⟩ <;>
        rw [hstep] at hinput hsteps hcompleted hflows
      · obtain ⟨-, -, f, hf⟩ := hflows
        cases hf
      · obtain ⟨-, -, f, hf⟩ := hflows
        cases hf
      · obtain ⟨hname, hinputs, -⟩ := hflows
        refine ⟨[t], ?_, ?_⟩ <;> dsimp only <;> split <;>
          first | exact hsteps | exact .refused hname hinputs
      · exact ⟨[t], hsteps, .worked hflows .stopped⟩
      · -- the step is done, and the others go on from there
        have hdone' : ∀ u ∈ run'.steps, u.status = .completed := by
          rw [hsteps]
          exact List.forall_mem_append.2 ⟨hdone, List.forall_mem_singleton.2 (hcompleted rfl)⟩
        obtain ⟨records, hrecords, hrest⟩ := ih run' w' hdone'
        rw [hsteps, hinput] at hrest
        rw [hsteps, List.append_assoc] at hrecords
        exact ⟨t :: records, hrecords, .worked hflows hrest⟩
      · refine ⟨[t], ?_, ?_⟩ <;> dsimp only <;> split <;>
          first | exact hsteps | exact .worked hflows .stopped

/-- What goes into the steps of a run that flows through them: of every step that executors worked
on, its record shows what whoever worked on it was handed, attempt after attempt.

For every playbook, every input and whoever attends to executors: writing the exchanges down changes
nothing about the run, and there is something written down for each step that has begun. A step that
executors worked on is the one of the playbook at its place. All its exchanges were about the inputs
that its record shows, and these are the input of the run, overlaid, one declared input after
another, with the latest value that the steps before it have put out. So under each key stands what
the last declaration says that finds a value, or else the input of the run; and nothing else makes a
difference: whatever other records take the place of those before it, the same goes in if they agree
on what is declared. -/
theorem inputs_flow_through (attendant : Attendant) (playbook : Playbook) (input : Bindings)
    (w : Workshop) :
    (carryOutWatched attendant playbook input w).2 = carryOut attendant playbook input w ∧
    (carryOutWatched attendant playbook input w).1.length =
      (carryOut attendant playbook input w).1.steps.length ∧
    ∀ k xs, (carryOutWatched attendant playbook input w).1[k]? = some (some xs) →
      ∃ s t, playbook.steps[k]? = some s ∧
        (carryOut attendant playbook input w).1.steps[k]? = some t ∧
        let earlier := (carryOut attendant playbook input w).1.steps.take k
        Fed input earlier s t xs ∧
        (∀ key,
          (∃ before field after step value, s.inputs = before ++ field :: after ∧
            TakenFrom field.name step key ∧ PutOut step key earlier value ∧
            (∀ f ∈ after, ∀ step', TakenFrom f.name step' key →
              ∀ v, ¬ PutOut step' key earlier v) ∧
            t.inputs.get? key = some value) ∨
          ((∀ f ∈ s.inputs, ∀ step, TakenFrom f.name step key →
              ∀ v, ¬ PutOut step key earlier v) ∧
            t.inputs.get? key = input.get? key)) ∧
        ∀ others inputs, List.Forall₂ (AgreeOn s.inputs) earlier others →
          Overlaid others input s.inputs inputs → inputs = t.inputs := by
  obtain ⟨records, hrecords, hflows⟩ := runStepsWatched_flows attendant
    (w.beginRun playbook input).1 playbook.steps (w.beginRun playbook input).2
    fun t ht => absurd ht List.not_mem_nil
  have hsame := carryOutWatched_snd attendant playbook input w
  have hsteps : (carryOut attendant playbook input w).1.steps = records := by
    rw [← hsame]
    exact hrecords
  rw [hsteps]
  refine ⟨hsame, hflows.length_eq, fun k xs hk => ?_⟩
  obtain ⟨s, t, hs, ht, hfed⟩ := hflows.fed hk
  exact ⟨s, t, hs, ht, hfed, hfed.inputs.get?,
    fun others inputs hagree hothers => (hfed.inputs.eq_of_agreeOn hothers hagree).symm⟩

/-- A cook who mixes twice, shapes, fails to bake and bakes. -/
def cook : WorkerSpec Command where
  work := .script "cook"
    [.ok (.succeeded (.ofList [("dough", .text "rye"), ("salt", .int 5)])),
      .ok (.succeeded (.ofList [("dough", .text "wheat")])),
      .ok (.succeeded (.ofList [("dough", .text "loaf")])),
      .error (.failed "too cold"), .ok (.succeeded (.ofList [("dough", .text "bread")]))] 0
  interludes := []

/-- Two steps of the same name, and one that asks twice for something under the same key. -/
def baguette : Playbook where
  name := "baguette"
  steps :=
    [{ name := "mix" }, { name := "mix" }, { name := "shape" },
      { name := "bake"
        inputs := ["dough", "mix.dough", "mix.salt", "sugar"].map fun name =>
          .mk name "text" "" true [] }]

/-- A workshop with this cook. -/
def cookery : Workshop :=
  seat (new {} (.shelf .empty) .own) .algorithmic cook "cook"

/-- The input of the run. -/
def kitchenware : Bindings :=
  .ofList [("oven", .text "hot"), ("salt", .int 0)]

/-- What the cook bakes is the dough of the second mixing and the salt of the first; of the input of
the run it is the oven that is left. The cook is handed that twice. -/
theorem inputs_flow_through_cookery :
    ∃ xs t,
      (carryOutWatched (replies (perform 0)) baguette kitchenware cookery).1[3]? =
        some (some xs) ∧
      (carryOut (replies (perform 0)) baguette kitchenware cookery).1.steps[3]? = some t ∧
      xs.length = 2 ∧ (∀ x ∈ xs, x.request.inputs = t.inputs) ∧
      t.inputs = .ofList [("dough", .text "wheat"), ("oven", .text "hot"), ("salt", .int 5)] := by
  obtain ⟨-, -, hflow⟩ := inputs_flow_through (replies (perform 0)) baguette kitchenware cookery
  obtain ⟨xs, hxs, hlength⟩ : ∃ xs,
      (carryOutWatched (replies (perform 0)) baguette kitchenware cookery).1[3]? =
        some (some xs) ∧ xs.length = 2 := ⟨_, rfl, rfl⟩
  obtain ⟨s, t, -, ht, hfed, -, -⟩ := hflow 3 xs hxs
  have hinputs : ((carryOut (replies (perform 0)) baguette kitchenware cookery).1.steps[3]?).map
      StepRecord.inputs = some (.ofList [("dough", .text "wheat"), ("oven", .text "hot"),
        ("salt", .int 5)]) := rfl
  rw [ht] at hinputs
  exact ⟨xs, t, hxs, ht, hlength, fun x hx => (hfed.requests x hx).2.2, Option.some.inj hinputs⟩

end Workshop

end Foreman
