import Foreman.Proofs.Workshop.Labour
import Foreman.Workshop.Run
/-!
# Runs, turn by turn

A run that is under way takes turns: its next step begins, is given its resources or refused them,
is got done or fails, and gives back what it holds; in the end the run is over. In between anything
may happen: executors ask for things while they are at work, and among what they ask for may be
other runs. While executors are at work a run may also be dropped: it goes no further then. The
relation `Course` says how far a run can get when it is said what may happen in between, and `Call`
what becomes of a playbook that is run. Running a playbook is such a call whoever attends to the
executors.

## Main definitions

* `Foreman.Errand`: a run under way.
* `Foreman.Errand.Turn`, `Foreman.Errand.Returns`: what a run does by itself.
* `Foreman.Errand.Ends`: how a run ends, by itself or not.
* `Foreman.Errand.Course`, `Foreman.Workshop.Call`: the way of a run, among other things that
  happen.

## Main results

* `Foreman.Workshop.Attends.call`: running a playbook is a call, whoever attends to the executors.
-/

namespace Foreman

open Store (Deed)

/-- How far a run has come. -/
inductive Stage where
  /-- No step is under way, and none has failed. -/
  | due
  /-- A step has begun, under an id. -/
  | begun (s : Step) (id : String)
  /-- A step has its resources, and executors are at work on it. -/
  | atWork (s : Step) (id : String)
  /-- A step got done, or failed, and has yet to give back what it holds. -/
  | ending (s : Step) (id : String) (failure : Option Failure)
  /-- A step has failed, and given back what it held. -/
  | failed (s : Step) (failure : Failure)

namespace Stage

/-- The id of the step under way. -/
def current? : Stage → Option String
  | due | failed _ _ => none
  | begun _ id | atWork _ id | ending _ id _ => some id

/-- Where a run stands after a step. -/
def after (s : Step) : Option Failure → Stage
  | none => due
  | some f => failed s f

@[simp] theorem current?_after (s : Step) (failure : Option Failure) :
    (after s failure).current? = none := by
  cases failure <;> rfl

end Stage

/-- A run under way. -/
structure Errand where
  /-- Its record. -/
  run : RunRecord
  /-- The steps that have yet to begin. -/
  left : List Step
  /-- How far it has come. -/
  stage : Stage

namespace RunRecord

/-- The ids of the steps of a run, in order. -/
def ids (r : RunRecord) : List String :=
  r.steps.map StepRecord.id

theorem steps_modifyLast {r : RunRecord} {earlier : List StepRecord} {last : StepRecord}
    (h : r.steps = earlier ++ [last]) (f : StepRecord → StepRecord) :
    (r.modifyLast f).steps = earlier ++ [f last] := by
  have hmodify : ∀ steps : List StepRecord,
      (steps ++ [last]).modify steps.length f = steps ++ [f last] := by
    intro steps
    induction steps with
    | nil => rfl
    | cons s rest ih => simpa using ih
  simpa [modifyLast, h] using hmodify earlier

/-- What is recorded of the last step leaves the ids alone. -/
theorem ids_modifyLast (r : RunRecord) {f : StepRecord → StepRecord} (hf : ∀ s, (f s).id = s.id) :
    (r.modifyLast f).ids = r.ids := by
  rcases List.eq_nil_or_concat' r.steps with h | ⟨earlier, last, h⟩
  · simp [ids, modifyLast, h]
  · rw [ids, steps_modifyLast h, ids, h, List.map_append, List.map_append]
    simp [hf]

@[simp] theorem ids_begin (r : RunRecord) (s : Step) (id : String) (now : Timestamp) :
    (r.begin s id now).ids = r.ids ++ [id] := by
  simp [ids, begin]

@[simp] theorem ids_supply (r : RunRecord) (given : Allotment) (inputs : Bindings) :
    (r.supply given inputs).ids = r.ids :=
  ids_modifyLast r fun _ => rfl

@[simp] theorem ids_deliver (r : RunRecord) (result : StepResult) :
    (r.deliver result).ids = r.ids :=
  ids_modifyLast r fun _ => rfl

@[simp] theorem ids_settle (r : RunRecord) (failure : Option Failure) (now : Timestamp) :
    (r.settle failure now).ids = r.ids :=
  ids_modifyLast r fun _ => by cases failure <;> rfl

end RunRecord

namespace Errand

/-- A run that is about to begin with the first of its steps. -/
def ofRun (run : RunRecord) (steps : List Step) : Errand :=
  ⟨run, steps, .due⟩

/-- What a run does by itself, turn by turn, and the deeds done to the store in each turn. A step
begins only while nothing has been shut down. -/
inductive Turn : Errand → Workshop → List Deed → Errand → Workshop → Prop
  | begin {run s rest w} (hopen : w.ledger.closed = false) :
      Turn ⟨run, s :: rest, .due⟩ w []
        ⟨(Workshop.beginStep run s w).2.1, rest, .begun s (Workshop.beginStep run s w).1⟩
        (Workshop.beginStep run s w).2.2
  | supply {run left s id w given} (hgiven : (w.allocate id s.requirements).1 = .ok given) :
      Turn ⟨run, left, .begun s id⟩ w [.allocate id s.requirements]
        ⟨run.supply given (run.inputsFor s), left, .atWork s id⟩
        ((w.allocate id s.requirements).2.publish (run.supply given (run.inputsFor s)))
  | refuse {run left s id w f} (hrefused : (w.allocate id s.requirements).1 = .error f) :
      Turn ⟨run, left, .begun s id⟩ w [.allocate id s.requirements]
        ⟨run, left, .ending s id (some f)⟩ (w.allocate id s.requirements).2
  | deliver {run left s id w} (result : StepResult) :
      Turn ⟨run, left, .atWork s id⟩ w [] ⟨run.deliver result, left, .ending s id none⟩ w
  | giveUp {run left s id w} (f : Failure) :
      Turn ⟨run, left, .atWork s id⟩ w [] ⟨run, left, .ending s id (some f)⟩ w
  | settle {run left s id failure w} :
      Turn ⟨run, left, .ending s id failure⟩ w [.release id]
        ⟨(Workshop.endStep run id failure w).1, left, .after s failure⟩
        (Workshop.endStep run id failure w).2

/-- How a run ends, with its record and the failure, if it failed: everything was shut down, and the
run is given up between two steps; or all steps are done; or one has failed. -/
inductive Returns :
    Errand → Workshop → List Deed → RunRecord → Option Failure → Workshop → Prop
  | abandoned {e : Errand} {w} (hclosed : w.ledger.closed = true)
      (hidle : e.stage.current? = none) :
      Returns e w (e.run.ids.map .release) e.run (some .shutDown) (w.abandon e.run)
  | completed {run w} (hopen : w.ledger.closed = false) :
      Returns ⟨run, [], .due⟩ w [] (w.conclude run .completed none).1 none
        (w.conclude run .completed none).2
  | failed {run left s f w} (hopen : w.ledger.closed = false) :
      Returns ⟨run, left, .failed s f⟩ w []
        ((w.note (.runFailed run.id s.name f.message)).conclude run .failed (some f.message)).1
        (some f)
        ((w.note (.runFailed run.id s.name f.message)).conclude run .failed (some f.message)).2

/-- Executors are at work on a step of a run. -/
def AtWork (e : Errand) : Prop :=
  ∃ s id, e.stage = .atWork s id

/-- How a run ends: it returns, with its record and the failure, if it failed; or it is dropped with
the call in whose course it was begun, while executors are at work on it, and nothing is told. -/
inductive Ends (e : Errand) (w : Workshop) :
    List Deed → RunRecord → Option (Option Failure) → Workshop → Prop
  | returned {deeds run failure w'} (h : e.Returns w deeds run failure w') :
      Ends e w deeds run (some failure) w'
  | dropped (h : e.AtWork) : Ends e w [] e.run none w

/-! ### The store, turn by turn -/

/-- In a turn of a run the store undergoes the deeds of the turn. -/
theorem Turn.store {e e' : Errand} {w w' : Workshop} {deeds : List Deed}
    (h : e.Turn w deeds e' w') : w'.store = (w.store.performAll deeds).2 := by
  cases h with
  | begin hopen => rfl
  | supply hgiven => exact (Workshop.does_allocate _ _ w).store
  | refuse hrefused => exact (Workshop.does_allocate _ _ w).store
  | deliver result => rfl
  | giveUp f => rfl
  | settle => rfl

/-- When a run ends, the store undergoes the deeds of the end. -/
theorem Returns.store {e : Errand} {w w' : Workshop} {deeds : List Deed} {run : RunRecord}
    {failure : Option Failure} (h : e.Returns w deeds run failure w') :
    w'.store = (w.store.performAll deeds).2 := by
  cases h with
  | abandoned hclosed hidle =>
    have hnoted := Workshop.does_note (.runAbandoned e.run.id e.run.steps.length) w
    have hreleased := (hnoted.trans (Workshop.does_releaseAll e.run.ids _)).store
    rwa [RunRecord.ids, List.foldl_map] at hreleased
  | completed hopen => rfl
  | failed hopen => rfl

/-- All that a run does when it ends is to give things back. -/
theorem Returns.deeds_eq {e : Errand} {w w' : Workshop} {deeds : List Deed} {run : RunRecord}
    {failure : Option Failure} (h : e.Returns w deeds run failure w') :
    deeds = [] ∨ deeds = e.run.ids.map .release := by
  cases h with
  | abandoned hclosed hidle => exact .inr rfl
  | completed hopen => exact .inl rfl
  | failed hopen => exact .inl rfl

/-- No step is under way when a run ends. -/
theorem Returns.current?_eq_none {e : Errand} {w w' : Workshop} {deeds : List Deed}
    {run : RunRecord} {failure : Option Failure} (h : e.Returns w deeds run failure w') :
    e.stage.current? = none := by
  cases h with
  | abandoned hclosed hidle => exact hidle
  | completed hopen => rfl
  | failed hopen => rfl

/-- The steps of a run that has ended are those that have begun. -/
theorem Returns.ids_eq {e : Errand} {w w' : Workshop} {deeds : List Deed} {run : RunRecord}
    {failure : Option Failure} (h : e.Returns w deeds run failure w') : run.ids = e.run.ids := by
  cases h with
  | abandoned hclosed hidle => rfl
  | completed hopen => rfl
  | failed hopen => rfl

/-! ### The step under way -/

/-- The step under way is the last one on the record of its run. -/
def OnRecord (e : Errand) : Prop :=
  ∀ id, e.stage.current? = some id →
    ∃ earlier last, e.run.steps = earlier ++ [last] ∧ last.id = id

theorem onRecord_ofRun (run : RunRecord) (steps : List Step) : (ofRun run steps).OnRecord := by
  intro id h
  simp [ofRun, Stage.current?] at h

/-- A turn of a run keeps the step under way the last one on its record. -/
theorem Turn.onRecord {e e' : Errand} {w w' : Workshop} {deeds : List Deed}
    (h : e.Turn w deeds e' w') (he : e.OnRecord) : e'.OnRecord := by
  intro id hid
  cases h with
  | begin hopen => exact ⟨_, _, rfl, Option.some.inj hid⟩
  | supply hgiven =>
    obtain ⟨earlier, last, hsteps, hlast⟩ := he id hid
    exact ⟨earlier, _, RunRecord.steps_modifyLast hsteps _, hlast⟩
  | refuse hrefused => exact he id hid
  | deliver result =>
    obtain ⟨earlier, last, hsteps, hlast⟩ := he id hid
    exact ⟨earlier, _, RunRecord.steps_modifyLast hsteps _, hlast⟩
  | giveUp f => exact he id hid
  | settle => simp at hid

/-- How far a run can get by its own turns and by what may happen besides. -/
inductive Course (besides : Errand → Workshop → Workshop → Prop) (e₀ : Errand) (w₀ : Workshop) :
    Errand → Workshop → Prop
  | start : Course besides e₀ w₀ e₀ w₀
  | turn {e w deeds e' w'} (h : Course besides e₀ w₀ e w) (hturn : e.Turn w deeds e' w') :
      Course besides e₀ w₀ e' w'
  | meanwhile {e w w'} (h : Course besides e₀ w₀ e w) (hbesides : besides e w w') :
      Course besides e₀ w₀ e w'

theorem Course.mono {besides besides' : Errand → Workshop → Workshop → Prop} {e₀ e : Errand}
    {w₀ w : Workshop} (hmono : ∀ e v v', besides e v v' → besides' e v v')
    (h : Course besides e₀ w₀ e w) : Course besides' e₀ w₀ e w := by
  induction h with
  | start => exact .start
  | turn _ hturn ih => exact ih.turn hturn
  | meanwhile _ hbesides ih => exact ih.meanwhile (hmono _ _ _ hbesides)

end Errand

namespace Workshop

open Errand

/-- What becomes of a playbook that is run: nothing once everything has been shut down, or if there
is no such playbook; otherwise a run begins, goes its way, and ends. Nothing is told of a run that
is dropped. The ids are those of the steps that have begun. -/
inductive Call (besides : Errand → Workshop → Workshop → Prop) (name : String) (input : Bindings)
    (w : Workshop) : Option (Except Failure RunRecord) → List String → Workshop → Prop
  | closed (hclosed : w.ledger.closed = true) :
      Call besides name input w (some (.error .shutDown)) [] w
  | notFound {f} (hopen : w.ledger.closed = false) (hload : w.library.load name = .error f) :
      Call besides name input w (some (.error f)) [] w
  | ran {playbook e w' deeds run ended w''} (hopen : w.ledger.closed = false)
      (hload : w.library.load name = .ok playbook)
      (hcourse : Course besides (.ofRun (w.beginRun playbook input).1 playbook.steps)
        (w.beginRun playbook input).2 e w')
      (hends : e.Ends w' deeds run ended w'') :
      Call besides name input w (ended.map run.outcome) run.ids w''

/-- The ids of the steps that begin when a playbook is run. -/
def stepIds (attendant : Attendant) (name : String) (input : Bindings) (w : Workshop) :
    List String :=
  if w.ledger.closed then []
  else
    match w.library.load name with
    | .error _ => []
    | .ok playbook => (carryOut attendant playbook input w).1.ids

/-- When everything is shut down, steps give back what they hold, and all instances are removed. -/
theorem does_shutdown (w : Workshop) : Does { w with ledger := w.ledger.close }
    ((runningSteps w.ledger.active).map .release ++ [.clear]) w.shutdown :=
  (does_releaseAll (runningSteps w.ledger.active) _).trans (does_clear _)

variable {attendant : Attendant} {besides : Errand → Workshop → Workshop → Prop} {e₀ : Errand}
  {w₀ : Workshop}

section Attended

variable (hidle : ∀ e v v', Idle v v' → besides e v v')
  (hattend : ∀ e s id v label call commands, Course besides e₀ w₀ e v → e.stage = .atWork s id →
    v.MayAsk commands → Course besides e₀ w₀ e (attend attendant label call commands v).2)

include hidle hattend

/-- While executors are at work on a step, a run goes its way. -/
theorem executeStep_course {e : Errand} {w : Workshop} (h : Course besides e₀ w₀ e w) {s : Step}
    {id : String} (hwork : e.stage = .atWork s id) (step method : String) (inputs : Bindings) :
    Course besides e₀ w₀ e (executeStep attendant step method inputs w).2 := by
  have hreach := executeStep_reaches (R := fun v v' => Course besides e₀ w₀ e v →
    Course besides e₀ w₀ e v') (fun v v' hidles hv => hv.meanwhile (hidle e v v' hidles))
    (fun label call cs v hasks hv => hattend e s id v label call cs hv hwork hasks) step method
    inputs w
  exact holds_of_reflTransGen hreach h

/-- From the beginning of a step to where it gives back what it holds, a run goes its way. If the
run is dropped, it gets to where executors are at work on the step. -/
theorem allocateAndExecute_course {run run' : RunRecord} {rest : List Step} {id : String} {s : Step}
    {w w' : Workshop} {ended : Option (Option Failure)}
    (h : Course besides e₀ w₀ ⟨run, rest, .begun s id⟩ w)
    (hstep : allocateAndExecute attendant run id s w = (run', ended, w')) :
    Course besides e₀ w₀ ⟨run', rest, ended.elim (.atWork s id) (.ending s id)⟩ w' := by
  rcases hgiven : w.allocate id s.requirements with ⟨f | given, v⟩
  · have hrefused := h.turn (.refuse (congrArg Prod.fst hgiven))
    simp only [allocateAndExecute, hgiven, Prod.mk.injEq] at hstep
    obtain ⟨rfl, rfl, rfl⟩ := hstep
    rwa [hgiven] at hrefused
  · have hsupplied := h.turn (.supply (congrArg Prod.fst hgiven))
    rw [hgiven] at hsupplied
    have hworked :=
      executeStep_course hidle hattend hsupplied rfl s.name s.method (run.inputsFor s)
    rcases hresult : executeStep attendant s.name s.method (run.inputsFor s)
      (v.publish (run.supply given (run.inputsFor s))) with ⟨_ | f | result, v'⟩ <;>
      rw [hresult] at hworked <;>
      simp only [allocateAndExecute, hgiven, hresult, Prod.mk.injEq] at hstep <;>
      obtain ⟨rfl, rfl, rfl⟩ := hstep
    · exact hworked
    · exact hworked.turn (.giveUp f)
    · exact hworked.turn (.deliver result)

/-- One step of a run goes by in turns of the run, unless the run is dropped. -/
theorem runStep_course {run run' : RunRecord} {rest : List Step} {s : Step} {w w' : Workshop}
    {ended : Option (Option Failure)} (hopen : w.ledger.closed = false)
    (h : Course besides e₀ w₀ ⟨run, s :: rest, .due⟩ w)
    (hstep : runStep attendant run s w = (run', ended, w')) :
    Course besides e₀ w₀
      ⟨run', rest, ended.elim (.atWork s (w.beginStep run s).1) (.after s)⟩ w' := by
  have hbegun := h.turn (.begin hopen)
  rcases hwork : allocateAndExecute attendant (w.beginStep run s).2.1 (w.beginStep run s).1 s
    (w.beginStep run s).2.2 with ⟨run'', _ | failure, w''⟩ <;>
    have hworked := allocateAndExecute_course hidle hattend hbegun hwork <;>
    simp only [runStep, hwork, Prod.mk.injEq] at hstep <;>
    obtain ⟨rfl, rfl, rfl⟩ := hstep
  · exact hworked
  · exact hworked.turn .settle

/-- The rest of a run goes by in turns, and then the run is over, or it is dropped on the way. -/
theorem runSteps_course {run : RunRecord} {left : List Step} {w : Workshop}
    (h : Course besides e₀ w₀ ⟨run, left, .due⟩ w) :
    ∃ e w' deeds, Course besides e₀ w₀ e w' ∧
      e.Ends w' deeds (runSteps attendant run left w).1 (runSteps attendant run left w).2.1
        (runSteps attendant run left w).2.2 := by
  induction left generalizing run w with
  | nil =>
    refine ⟨⟨run, [], .due⟩, w, ?_⟩
    cases hclosed : w.ledger.closed with
    | true =>
      rw [runSteps_of_closed hclosed]
      exact ⟨_, h, .returned (.abandoned hclosed rfl)⟩
    | false =>
      rw [runSteps_nil_of_open hclosed]
      exact ⟨_, h, .returned (.completed hclosed)⟩
  | cons s rest ih =>
    cases hclosed : w.ledger.closed with
    | true =>
      rw [runSteps_of_closed hclosed]
      exact ⟨_, w, _, h, .returned (.abandoned hclosed rfl)⟩
    | false =>
      rcases hrun : runStep attendant run s w with ⟨run', _ | _ | f, w'⟩ <;>
        have hstep := runStep_course hidle hattend hclosed h hrun
      · rw [runSteps_of_dropped hclosed hrun]
        exact ⟨_, w', [], hstep, .dropped ⟨_, _, rfl⟩⟩
      · rw [runSteps_of_done hclosed hrun]
        exact ih hstep
      · rw [runSteps_of_failed hclosed hrun]
        refine ⟨⟨run', rest, .failed s f⟩, w', ?_⟩
        cases hclosed' : w'.ledger.closed with
        | true => exact ⟨_, hstep, .returned (.abandoned hclosed' rfl)⟩
        | false => exact ⟨_, hstep, .returned (.failed hclosed')⟩

end Attended

/-- Running a playbook is a call, if a run goes its way while executors are attended to. -/
theorem call_of_course {name : String} {input : Bindings} {w : Workshop}
    (hidle : ∀ e v v', Idle v v' → besides e v v')
    (hattend : ∀ playbook, w.library.load name = .ok playbook →
      ∀ e s id v label call commands,
        Course besides (.ofRun (w.beginRun playbook input).1 playbook.steps)
          (w.beginRun playbook input).2 e v → e.stage = .atWork s id → v.MayAsk commands →
        Course besides (.ofRun (w.beginRun playbook input).1 playbook.steps)
          (w.beginRun playbook input).2 e (attend attendant label call commands v).2) :
    Call besides name input w (executePlaybook attendant name input w).1
      (stepIds attendant name input w) (executePlaybook attendant name input w).2 := by
  cases hclosed : w.ledger.closed with
  | true =>
    simp only [executePlaybook, stepIds, hclosed, if_true]
    exact .closed hclosed
  | false =>
    cases hload : w.library.load name with
    | error f =>
      simp only [executePlaybook, stepIds, hclosed, hload, Bool.false_eq_true, if_false]
      exact .notFound hclosed hload
    | ok playbook =>
      obtain ⟨e, w', deeds, hcourse, hends⟩ :=
        runSteps_course hidle (hattend playbook hload) Course.start
      simp only [executePlaybook, stepIds, hclosed, hload, Bool.false_eq_true, if_false]
      exact .ran hclosed hload hcourse hends

/-- What may happen besides a run of a playbook includes idle changes, and whatever an attendant
does wherever the run can get. -/
structure Attends (attendant : Attendant) (besides : Errand → Workshop → Workshop → Prop)
    (name : String) (input : Bindings) (w : Workshop) : Prop where
  /-- Idle changes may happen at any time. -/
  idle : ∀ e v v', Does v [] v' → besides e v v'
  /-- Wherever the run can get, the attendant may be asked for things. -/
  attend : ∀ playbook, w.library.load name = .ok playbook → ∀ e v commands,
    Course besides (.ofRun (w.beginRun playbook input).1 playbook.steps)
      (w.beginRun playbook input).2 e v → besides e v (attendant commands v).2

/-- Running a playbook is a call, whoever attends to the executors. -/
theorem Attends.call {name : String} {input : Bindings} {w : Workshop}
    (h : Attends attendant besides name input w) :
    Call besides name input w (executePlaybook attendant name input w).1
      (stepIds attendant name input w) (executePlaybook attendant name input w).2 := by
  refine call_of_course (fun e v v' hidle => h.idle e v v' hidle.does) ?_
  intro playbook hload e s id v label call commands hcourse _ _
  have hdeeper := hcourse.meanwhile (h.idle e v { v with depth := v.depth + 1 } ⟨rfl, rfl⟩)
  have hattended := hdeeper.meanwhile (h.attend playbook hload e _ commands hdeeper)
  exact hattended.meanwhile (h.idle e _ _ (does_attend label call commands v))

end Workshop

end Foreman
