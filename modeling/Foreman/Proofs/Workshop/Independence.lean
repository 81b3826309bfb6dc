import Foreman.Proofs.Store.Available
import Foreman.Proofs.Workshop.GivingBack
/-!
# Steps do not depend on one another

As long as nobody else touches the store, the steps of a run might as well be done each on its own.
Whatever a step was given it gives back before the next one begins, so every step finds the store
that the first one found. If each step, taken alone, would have been given what it requires, then
none is refused, and each is given the very instances that it would have been given alone, however
many steps before it had the same ones.

## Main definitions

* `Foreman.Workshop.Undisturbed`: nobody touches the store while executors are at work.
* `Foreman.StepRecord.GivenAsIn`: a step was given what it would be given in a store.

## Main results

* `Foreman.Workshop.runStep_alone`: a step gets what it would get, and leaves the store as it was.
* `Foreman.Workshop.executePlaybook_allots_alone`: so does every step of a run.
-/

namespace Foreman

/-! ### Taking a step alone -/

/-- Whichever step asks for some things in a store, it is given the same. -/
theorem Store.Sound.allocate_other {s : Store} (hs : s.Sound) {step : String}
    {requirements : List Requirement} {given : Allotment}
    (h : (s.allocate step requirements).1 = .ok given) (other : String) :
    (s.allocate other requirements).1 = .ok { given with step := other } := by
  obtain ⟨choices, hwalk, rfl⟩ := Store.allocate_ok hs h
  have halike : s.Alike s := ⟨rfl, fun _ _ => rfl⟩
  have hsame := Store.walk_congr halike step other requirements
  rcases hother : Store.walk other requirements s with ⟨choices', after, unmet⟩
  simp only [hwalk, hother] at hsame
  obtain ⟨rfl, rfl⟩ := hsame
  exact (hs.allocate_of_walk hother).1

/-- A step was given the very instances, for the same preferences and with the same warnings, that
it would be given in a store if it was the only one, under whatever id. -/
def StepRecord.GivenAsIn (s₀ : Store) (s : Step) (t : StepRecord) : Prop :=
  ∀ id, ∃ given, (s₀.allocate id s.requirements).1 = .ok given ∧
    t.assignments = given.assignments ∧ t.warnings = given.warnings

/-- What is recorded of a step besides does not matter. -/
theorem StepRecord.GivenAsIn.congr {s₀ : Store} {s : Step} {t t' : StepRecord}
    (h : t.GivenAsIn s₀ s) (hassignments : t'.assignments = t.assignments)
    (hwarnings : t'.warnings = t.warnings) : t'.GivenAsIn s₀ s := by
  intro id
  obtain ⟨given, hgiven, ha, hw⟩ := h id
  exact ⟨given, hgiven, hassignments.trans ha, hwarnings.trans hw⟩

/-- Failing to get a step done is not lacking resources, even if executors say so. -/
theorem Engine.isAllocation_run {σ : Type u} {ε : Type v} {crew : Crew σ ε} {policy : Policy}
    {step method : String} {inputs : Bindings} {w : σ} {f : Failure}
    (h : (run crew policy step method inputs w).1 = .error f) : f.isAllocation = false := by
  unfold run at h
  dsimp only at h
  split at h
  · cases h
  · cases h
    rfl

namespace Workshop

variable {attendant : Attendant} {w v v' v'' : Workshop}

/-! ### Nobody touches the store -/

/-- The store is as it was, and executors may ask for what they might ask for before. -/
structure Untouched (v v' : Workshop) : Prop where
  /-- The store is the same. -/
  store : v'.store = v.store
  /-- So is what executors may ask for. -/
  scripts : v'.scripts = v.scripts

theorem Untouched.trans (h : Untouched v v') (h' : Untouched v' v'') : Untouched v v'' :=
  ⟨h'.store.trans h.store, h'.scripts.trans h.scripts⟩

theorem Idle.untouched (h : Idle v v') : Untouched v v' :=
  ⟨h.does.store, h.scripts⟩

/-- Nobody touches the store while executors are at work: whatever they may ask for, the store is
left alone. If they never ask for anything, this is so whoever attends to them. -/
def Undisturbed (attendant : Attendant) (w : Workshop) : Prop :=
  ∀ commands, w.MayAsk commands → ∀ v, Untouched v (attendant commands v).2

theorem Undisturbed.congr (h : Undisturbed attendant w) (hscripts : v.scripts = w.scripts) :
    Undisturbed attendant v :=
  fun commands hasks => h commands (hasks.congr hscripts.symm)

theorem Undisturbed.attend (h : Undisturbed attendant w) {commands : List Command}
    (hasks : w.MayAsk commands) (label : String) (call : ℕ) :
    Untouched w (attend attendant label call commands w).2 := by
  have hattended := h commands hasks { w with depth := w.depth + 1 }
  unfold Workshop.attend
  dsimp only
  split <;> exact ⟨hattended.store, hattended.scripts⟩

/-- Nobody touches the store while a step is got done. -/
theorem Undisturbed.executeStep (h : Undisturbed attendant w) (step method : String)
    (inputs : Bindings) : Untouched w (executeStep attendant step method inputs w).2 := by
  have hreach := executeStep_reaches (R := fun v v' => Untouched w v → Untouched w v')
    (fun _ _ hidle hv => hv.trans hidle.untouched)
    (fun label call _ _ hasks hv => hv.trans ((h.congr hv.scripts).attend hasks label call))
    step method inputs w
  exact holds_of_reflTransGen hreach ⟨rfl, rfl⟩

/-! ### One step -/

variable {run : RunRecord} {s : Step} {id : String}

/-- A step that is given something has on its record what it was given, whatever comes of it. -/
theorem steps_allocateAndExecute (attendant : Attendant) {earlier : List StepRecord}
    {last : StepRecord} (hsteps : run.steps = earlier ++ [last]) (hlast : last.warnings = [])
    {given : Allotment} (hgiven : (w.allocate id s.requirements).1 = .ok given) :
    ∃ t, (allocateAndExecute attendant run id s w).1.steps = earlier ++ [t] ∧
      t.assignments = given.assignments ∧ t.warnings = given.warnings := by
  have hsupplied := RunRecord.steps_modifyLast hsteps fun t =>
    { t with
      assignments := given.assignments
      warnings := t.warnings ++ given.warnings
      inputs := run.inputsFor s }
  unfold allocateAndExecute
  split
  · next h => simp [h] at hgiven
  · next h =>
    obtain rfl : _ = given := by simpa [h] using hgiven
    dsimp only
    split
    · exact ⟨_, hsupplied, rfl, by simp [hlast]⟩
    · exact ⟨_, RunRecord.steps_modifyLast hsupplied _, rfl, by simp [hlast]⟩
    · exact ⟨_, hsupplied, rfl, by simp [hlast]⟩

/-- A step that is given something fails only where executors fail. -/
theorem isAllocation_allocateAndExecute {given : Allotment}
    (hgiven : (w.allocate id s.requirements).1 = .ok given) {f : Failure}
    (hf : (allocateAndExecute attendant run id s w).2.1 = some (some f)) :
    f.isAllocation = false := by
  unfold allocateAndExecute at hf
  split at hf
  · next h => simp [h] at hgiven
  · dsimp only at hf
    split at hf
    · next h =>
      obtain rfl : _ = f := by simpa using hf
      exact Engine.isAllocation_run (run_of_executeStep (congrArg Prod.fst h))
    · simp at hf
    · simp at hf

/-- Nobody touches the store between an allocation and the end of the step. -/
theorem Undisturbed.allocateAndExecute (h : Undisturbed attendant w) (run : RunRecord)
    (id : String) (s : Step) :
    Untouched (w.allocate id s.requirements).2 (allocateAndExecute attendant run id s w).2.2 := by
  have hscripts : (w.allocate id s.requirements).2.scripts = w.scripts := rfl
  unfold Workshop.allocateAndExecute
  split
  · next hrefused =>
    rw [hrefused]
    exact ⟨rfl, rfl⟩
  · next given v hgiven =>
    rw [hgiven] at hscripts ⊢
    have hpublished : Untouched v (v.publish (run.supply given (run.inputsFor s))) := ⟨rfl, rfl⟩
    have hworked := ((h.congr hscripts).congr hpublished.scripts).executeStep s.name s.method
      (run.inputsFor s)
    dsimp only
    split <;> (next hresult => rw [hresult] at hworked; exact hpublished.trans hworked)

/-- A step that would be given what it requires in the store as it stands is given just that, and
fails only where executors fail. -/
theorem runStep_alone (attendant : Attendant) (run : RunRecord) (hs : w.store.Sound)
    {other : String} {alone : Allotment}
    (halone : (w.store.allocate other s.requirements).1 = .ok alone) :
    (∃ t, (runStep attendant run s w).1.steps = run.steps ++ [t] ∧ t.GivenAsIn w.store s) ∧
      ∀ f, (runStep attendant run s w).2.1 = some (some f) → f.isAllocation = false := by
  have hgiven : ((beginStep run s w).2.2.allocate (beginStep run s w).1 s.requirements).1 =
    .ok { alone with step := (beginStep run s w).1 } := hs.allocate_other halone _
  have hbegun : (beginStep run s w).2.1.steps = run.steps ++ [_] := rfl
  obtain ⟨t, hsteps, hassignments, hwarnings⟩ :=
    steps_allocateAndExecute attendant hbegun rfl hgiven
  have hfailed (f : Failure)
      (hf : (allocateAndExecute attendant (beginStep run s w).2.1 (beginStep run s w).1 s
        (beginStep run s w).2.2).2.1 = some (some f)) : f.isAllocation = false :=
    isAllocation_allocateAndExecute hgiven hf
  have hlast : t.GivenAsIn w.store s := fun id =>
    ⟨_, hs.allocate_other halone id, hassignments, hwarnings⟩
  rcases hwork : allocateAndExecute attendant (beginStep run s w).2.1 (beginStep run s w).1 s
      (beginStep run s w).2.2 with ⟨run', _ | failure, w'⟩ <;>
    rw [hwork] at hsteps hfailed <;> simp only [runStep, hwork]
  · exact ⟨⟨t, hsteps, hlast⟩, by simp⟩
  · refine ⟨⟨_, RunRecord.steps_modifyLast hsteps _, ?_⟩, hfailed⟩
    cases failure <;> exact hlast.congr rfl rfl

/-- A step whose id is fresh and that comes to its end leaves the store as it was, if nobody else
touches it. -/
theorem Undisturbed.runStep (h : Undisturbed attendant w) (hs : w.store.Sound)
    (hfresh : w.store.HoldsNothing (beginStep run s w).1) {run' : RunRecord}
    {failure : Option Failure} (hrun : runStep attendant run s w = (run', some failure, v)) :
    Untouched w v := by
  have hbegun : Untouched w (beginStep run s w).2.2 := ⟨rfl, rfl⟩
  have hworked := (h.congr hbegun.scripts).allocateAndExecute (beginStep run s w).2.1
    (beginStep run s w).1 s
  rcases hwork : Workshop.allocateAndExecute attendant (beginStep run s w).2.1 (beginStep run s w).1
      s (beginStep run s w).2.2 with ⟨run'', _ | failure', w'⟩ <;>
    rw [hwork] at hworked <;> simp only [Workshop.runStep, hwork, Prod.mk.injEq] at hrun
  · exact absurd hrun.2.1 (by simp)
  · obtain ⟨-, -, rfl⟩ := hrun
    refine ⟨?_, hworked.scripts⟩
    calc (w'.store.release (beginStep run s w).1).2
      _ = ((w.store.allocate (beginStep run s w).1 s.requirements).2.1.release
            (beginStep run s w).1).2 := by rw [hworked.store]; rfl
      _ = w.store := hs.release_allocate hfresh s.requirements

/-! ### All steps -/

theorem ids_allocateAndExecute (attendant : Attendant) (run : RunRecord) (id : String) (s : Step)
    (w : Workshop) : (allocateAndExecute attendant run id s w).1.ids = run.ids := by
  unfold allocateAndExecute
  split
  · rfl
  · dsimp only
    split <;> simp

theorem ids_runStep (attendant : Attendant) (run : RunRecord) (s : Step) (w : Workshop) :
    (runStep attendant run s w).1.ids = run.ids ++ [(beginStep run s w).1] := by
  have hids := ids_allocateAndExecute attendant (beginStep run s w).2.1 (beginStep run s w).1 s
    (beginStep run s w).2.2
  have hbegun : (beginStep run s w).2.1.ids = run.ids ++ [(beginStep run s w).1] :=
    RunRecord.ids_begin _ _ _ _
  rw [← hbegun, ← hids]
  unfold runStep
  dsimp only
  split
  · next h => rw [h]
  · next h =>
    rw [h]
    exact RunRecord.ids_settle _ _ _

/-- What is on the record of a run stays there. -/
theorem ids_subset_runSteps (attendant : Attendant) (run : RunRecord) (left : List Step)
    (w : Workshop) : run.ids ⊆ (runSteps attendant run left w).1.ids := by
  induction left generalizing run w with
  | nil =>
    unfold runSteps
    split <;> exact List.Subset.refl _
  | cons s rest ih =>
    have hstep : run.ids ⊆ (runStep attendant run s w).1.ids := by
      rw [ids_runStep]
      exact List.subset_append_left _ _
    unfold runSteps
    split
    · exact List.Subset.refl _
    · split
      · next h =>
        rw [h] at hstep
        exact hstep
      · next h =>
        rw [h] at hstep
        exact List.Subset.trans hstep (ih _ _)
      · next h =>
        rw [h] at hstep
        split <;> exact hstep

/-- The steps of a run that are left each get what they would get in the store as it stands, if
nobody else touches it; and none of them is refused anything. -/
theorem runSteps_alone (run : RunRecord) {left : List Step} (hs : w.store.Sound)
    (hw : Undisturbed attendant w)
    (hfresh : ∀ id ∈ (runSteps attendant run left w).1.ids, w.store.HoldsNothing id)
    (halone : ∀ s ∈ left, ∃ id given, (w.store.allocate id s.requirements).1 = .ok given) :
    (∃ begun records, begun <+: left ∧
      (runSteps attendant run left w).1.steps = run.steps ++ records ∧
      List.Forall₂ (StepRecord.GivenAsIn w.store) begun records) ∧
    ∀ f, (runSteps attendant run left w).2.1 = some (some f) → f.isAllocation = false := by
  induction left generalizing run w with
  | nil =>
    unfold runSteps
    split
    · exact ⟨⟨[], [], List.nil_prefix, by simp, .nil⟩, by simp [Failure.isAllocation]⟩
    · exact ⟨⟨[], [], List.nil_prefix, by simp [conclude], .nil⟩, by simp⟩
  | cons s rest ih =>
    cases hclosed : w.ledger.closed with
    | true =>
      rw [runSteps_of_closed hclosed]
      exact ⟨⟨[], [], List.nil_prefix, by simp, .nil⟩, by simp [Failure.isAllocation]⟩
    | false =>
      obtain ⟨other, alone, hother⟩ := halone s List.mem_cons_self
      obtain ⟨⟨t, hsteps, ht⟩, hfailed⟩ :=
        runStep_alone attendant run hs hother
      have hids := ids_runStep attendant run s w
      have hlast : ∃ begun records, begun <+: s :: rest ∧
          (runStep attendant run s w).1.steps = run.steps ++ records ∧
          List.Forall₂ (StepRecord.GivenAsIn w.store) begun records :=
        ⟨[s], [t], List.cons_prefix_cons.2 ⟨rfl, List.nil_prefix⟩, hsteps, .cons ht .nil⟩
      rcases hrun : runStep attendant run s w with ⟨run', _ | _ | f, w'⟩
      · -- the run is dropped
        rw [hrun] at hlast
        rw [runSteps_of_dropped hclosed hrun]
        exact ⟨hlast, by simp⟩
      · -- the step got done, so the others find the store as it was
        rw [runSteps_of_done hclosed hrun] at hfresh ⊢
        rw [hrun] at hsteps hids
        dsimp only at hsteps hids
        have hmem : (beginStep run s w).1 ∈ (runSteps attendant run' rest w').1.ids :=
          ids_subset_runSteps attendant run' rest w' (by simp [hids])
        have hstep := hw.runStep hs (hfresh _ hmem) hrun
        have hstore : w'.store = w.store := hstep.store
        obtain ⟨⟨begun, records, hbegun, hrecords, hall⟩, hrest⟩ :=
          ih run' (hstore ▸ hs) (hw.congr hstep.scripts) (hstore ▸ hfresh)
            (fun s' hs' => hstore ▸ halone s' (List.mem_cons_of_mem s hs'))
        rw [hstore] at hall
        exact ⟨⟨s :: begun, t :: records, List.cons_prefix_cons.2 ⟨rfl, hbegun⟩,
          by simp [hrecords, hsteps], .cons ht hall⟩, hrest⟩
      · -- the step failed, and the run ends
        rw [hrun] at hlast hfailed
        rw [runSteps_of_failed hclosed hrun]
        cases hclosed' : w'.ledger.closed with
        | true => exact ⟨hlast, by simp [Failure.isAllocation]⟩
        | false => exact ⟨hlast, hfailed⟩

/-- Steps do not depend on one another. Take a playbook each of whose steps, taken alone, would be
given what it requires in the store as it stands, and run it while nobody else touches the store.
Then no step is refused anything, and each step that begins is given the very instances, for the
same preferences and with the same warnings, that it would have been given alone, however many steps
before it had the same ones. The ids of the steps are fresh: nothing is held under them. -/
theorem executePlaybook_allots_alone {w : Workshop} (hs : w.store.Reachable)
    {attendant : Attendant} (hw : Undisturbed attendant w) {name : String} {playbook : Playbook}
    (hload : w.library.load name = .ok playbook) (input : Bindings)
    (hfresh : ∀ id ∈ (carryOut attendant playbook input w).1.ids, w.store.HoldsNothing id)
    (halone : ∀ s ∈ playbook.steps,
      ∃ id given, (w.store.allocate id s.requirements).1 = .ok given) :
    (∀ f, (executePlaybook attendant name input w).1 = some (.error f) → f.isAllocation = false) ∧
      ∃ begun, begun <+: playbook.steps ∧
        List.Forall₂ (StepRecord.GivenAsIn w.store) begun
          (carryOut attendant playbook input w).1.steps := by
  obtain ⟨⟨begun, records, hbegun, hrecords, hall⟩, hfailed⟩ :=
    runSteps_alone (w := (w.beginRun playbook input).2) (w.beginRun playbook input).1 hs.sound hw
      hfresh halone
  refine ⟨fun f hf => ?_, begun, hbegun, ?_⟩
  · cases hclosed : w.ledger.closed with
    | true =>
      obtain rfl : Failure.shutDown = f := by simpa [executePlaybook, hclosed] using hf
      rfl
    | false =>
      simp only [executePlaybook, hclosed, hload, Bool.false_eq_true, if_false] at hf
      refine hfailed f ?_
      rcases hfailure : (carryOut attendant playbook input w).2.1 with _ | _ | g
      · simp [hfailure] at hf
      · simp [hfailure, RunRecord.outcome] at hf
      · obtain rfl : g = f := by simpa [hfailure, RunRecord.outcome] using hf
        exact hfailure
  · obtain rfl : records = (carryOut attendant playbook input w).1.steps := hrecords.symm
    exact hall

/-- A supper of three steps that all want the oven. The second would rather have a steamer, of which
there is none, and the third takes anything else there is besides. -/
def supper : Playbook where
  name := "supper"
  steps :=
    [{ name := "roast"
       requirements := [{ name := "heat", preferences := [.specific "oven"] }] },
      { name := "steam"
        requirements :=
          [{ name := "heat"
             preferences := [.specific "steamer", .emergency .empty "no steamer"] }] },
      { name := "serve"
        requirements :=
          [{ name := "heat", preferences := [.specific "oven"] },
            { name := "plate", preferences := [.emergency .empty "anything goes"] }] }]

/-- A workshop with an oven and a stove, and a cook who asks for everything to be shut down. -/
def canteen : Workshop :=
  { seat {} .algorithmic ⟨.echo, [[.shutdown]]⟩ "cook" with
    store :=
      (Store.performAll {}
        [.register "oven" "oven" .empty default, .register "stove" "stove" .empty default]).2
    library := .ofPlaybooks [supper] }

/-- If nothing is done when the cook asks for it, all three steps have the oven, and the third has
the stove as well, as each of them would have had alone. -/
theorem executePlaybook_allots_alone_canteen :
    canteen.store.Reachable ∧ Undisturbed idler canteen ∧
    canteen.library.load "supper" = .ok supper ∧
    (executePlaybook idler "supper" .empty canteen).1 =
      some (.ok (carryOut idler supper .empty canteen).1) ∧
    (∀ id ∈ (carryOut idler supper .empty canteen).1.ids, canteen.store.HoldsNothing id) ∧
    (∀ s ∈ supper.steps, ∃ id given, (canteen.store.allocate id s.requirements).1 = .ok given) ∧
    (carryOut idler supper .empty canteen).1.steps.map StepRecord.resourceIds =
      [["oven"], ["oven"], ["oven", "stove"]] ∧
    (carryOut idler supper .empty canteen).1.steps.map StepRecord.warnings =
      [[], ["no steamer"], ["anything goes"]] ∧
    List.Forall₂ (StepRecord.GivenAsIn canteen.store) supper.steps
      (carryOut idler supper .empty canteen).1.steps := by
  have hs : canteen.store.Reachable := ⟨_, rfl⟩
  have hw : Undisturbed idler canteen := fun _ _ _ => ⟨rfl, rfl⟩
  have hload : canteen.library.load "supper" = .ok supper := by rfl
  have hfresh : ∀ id ∈ (carryOut idler supper .empty canteen).1.ids,
      canteen.store.HoldsNothing id := by
    intro id _ i hi
    rcases List.mem_pair.1 hi with rfl | rfl <;> simp [Instance.fresh]
  have halone : ∀ s ∈ supper.steps,
      ∃ id given, (canteen.store.allocate id s.requirements).1 = .ok given := by
    intro s hs
    simp only [supper, List.mem_cons, List.not_mem_nil, or_false] at hs
    rcases hs with rfl | rfl | rfl <;> exact ⟨"alone", _, rfl⟩
  obtain ⟨-, begun, hbegun, hall⟩ :=
    executePlaybook_allots_alone hs hw hload .empty hfresh halone
  have hthree : begun.length = supper.steps.length := by
    rw [hall.length_eq]
    rfl
  rw [hbegun.eq_of_length hthree] at hall
  exact ⟨hs, hw, hload, by rfl, hfresh, halone, by rfl, by rfl, hall⟩

end Workshop

end Foreman
