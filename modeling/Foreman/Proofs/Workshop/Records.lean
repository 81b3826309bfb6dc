import Foreman.Proofs.Workshop.Registry
/-!
# Records say how far a run has come

Wherever the record of a run can be seen, it says how far the run has come. The steps on record are
the first ones of the playbook, in order. Those that were done say what they were given and what
came out; only the last one may be running, or have failed. A run that is over either has done every
step, or ends with the one step that failed, for the reason that the call returned.

## Main definitions

* `Foreman.Granted`: what a step was given for its requirements.
* `Foreman.StepRecord.IsRunning`, `Foreman.StepRecord.IsCompleted`, `Foreman.StepRecord.IsFailed`:
  what the record of a step says in each state.
* `Foreman.RunRecord.UnderWay`, `Foreman.RunRecord.Ended`: what the record of a run says.
* `Foreman.Errand.Follows`: the record of a run under way, at every stage.
* `Foreman.Floor.Recorded`: all records on a floor are of these kinds.

## Main results

* `Foreman.Errand.Turn.follows`: a run follows its playbook, turn by turn.
* `Foreman.Floor.Story.recorded`: all records are of these kinds at the end of every story.
* `Foreman.Floor.records_well_formed`: so are those that can be seen in a session.
-/

namespace Foreman

open Happening

/-- What a step was given for its requirements: one instance for each, in their order, each by one
of the preferences of the requirement, with the warnings of those of last resort. -/
def Granted (requirements : List Requirement) (assignments : List Assignment)
    (warnings : List String) : Prop :=
  ∃ choices : List Choice,
    List.Forall₂ (fun r c => c.requirement = r.name ∧ c.preference ∈ r.chain) requirements choices ∧
      assignments = choices.map Choice.assignment ∧ warnings = choices.filterMap Choice.warning?

theorem Store.Sound.granted {s : Store} (hs : s.Sound) {step : String}
    {requirements : List Requirement} {given : Allotment}
    (h : (s.allocate step requirements).1 = .ok given) :
    Granted requirements given.assignments given.warnings := by
  obtain ⟨choices, hwalk, rfl⟩ := Store.allocate_ok hs h
  obtain ⟨hall, -, -⟩ := Store.walk_eq_none hwalk
  refine ⟨choices, hall.imp fun r c hallows => ⟨hallows.requirement, hallows.preference⟩, ?_, ?_⟩
  · simp [Allotment.extend]
  · simp [Allotment.extend]

theorem Ledger.mem_history_finish {l : Ledger} {r run : RunRecord}
    (h : run ∈ (l.finish r).history) : run ∈ l.history ∨ run = r := by
  unfold Ledger.finish at h
  split at h
  · simpa using h
  · exact .inl h

/-! ### Records of steps -/

namespace StepRecord

/-- A step was given nothing yet. -/
def HasNothing (t : StepRecord) : Prop :=
  t.assignments = [] ∧ t.warnings = []

/-- A step was given all that it requires. -/
def HasAll (t : StepRecord) : Prop :=
  Granted t.requirements t.assignments t.warnings

/-- A record is that of a step of a playbook. -/
structure OfStep (s : Step) (t : StepRecord) : Prop where
  /-- It has the name of the step. -/
  name : t.name = s.name
  /-- It has the requirements of the step. -/
  requirements : t.requirements = s.requirements

/-- The record of a step that is being done. -/
structure IsRunning (s : Step) (t : StepRecord) : Prop extends OfStep s t where
  /-- It is on record as running. -/
  status : t.status = .running
  /-- Nothing came out yet. -/
  outputs : t.outputs = .empty
  /-- It has no result yet. -/
  result : t.result = none
  /-- There are no errors. -/
  errors : t.errors = []
  /-- It is not over. -/
  completed : t.completed = none

/-- The record of a step that has just got done, which nobody but the run itself has seen. -/
structure IsDelivered (s : Step) (t : StepRecord) : Prop extends OfStep s t where
  /-- It has a result, and what came out is what the result says. -/
  result : ∃ result, t.result = some result ∧ t.outputs = result.outputs
  /-- There are no errors. -/
  errors : t.errors = []
  /-- It was given all that it requires. -/
  given : t.HasAll

/-- The record of a step that is done. -/
structure IsCompleted (s : Step) (t : StepRecord) : Prop extends IsDelivered s t where
  /-- It is on record as completed. -/
  status : t.status = .completed
  /-- It is over. -/
  completed : t.completed.isSome

/-- The record of a step that has failed, with what is said of it. -/
structure IsFailed (message : String) (s : Step) (t : StepRecord) : Prop extends OfStep s t where
  /-- It is on record as failed. -/
  status : t.status = .failed
  /-- Nothing came out. -/
  outputs : t.outputs = .empty
  /-- It has no result. -/
  result : t.result = none
  /-- The reason is the only error. -/
  errors : t.errors = [message]
  /-- It is over. -/
  completed : t.completed.isSome
  /-- It was given nothing, or all that it requires. -/
  given : t.HasNothing ∨ t.HasAll

variable {s : Step} {t : StepRecord}

theorem IsRunning.supply (h : t.IsRunning s) (hnothing : t.HasNothing) {given : Allotment}
    (hgiven : Granted s.requirements given.assignments given.warnings) (inputs : Bindings) :
    let t' := { t with
      assignments := given.assignments, warnings := t.warnings ++ given.warnings, inputs }
    IsRunning s t' ∧ HasAll t' := by
  refine ⟨⟨⟨h.name, h.requirements⟩, h.status, h.outputs, h.result, h.errors, h.completed⟩, ?_⟩
  simpa [HasAll, h.requirements, hnothing.2] using hgiven

theorem IsRunning.deliver (h : t.IsRunning s) (hall : t.HasAll) (result : StepResult) :
    IsDelivered s { t with outputs := result.outputs, result := some result } :=
  ⟨⟨h.name, h.requirements⟩, ⟨result, rfl, rfl⟩, h.errors, hall⟩

theorem IsDelivered.complete (h : t.IsDelivered s) (now : Timestamp) :
    IsCompleted s (t.become .completed now) :=
  ⟨⟨⟨h.name, h.requirements⟩, h.result, h.errors, h.given⟩, rfl, rfl⟩

theorem IsRunning.fail (h : t.IsRunning s) (hgiven : t.HasNothing ∨ t.HasAll) (message : String)
    (now : Timestamp) :
    IsFailed message s ({ t with errors := t.errors ++ [message] }.become .failed now) :=
  ⟨⟨h.name, h.requirements⟩, rfl, h.outputs, h.result, by simp [become, h.errors], rfl, hgiven⟩

end StepRecord

/-! ### Records of runs -/

namespace RunRecord

open StepRecord

/-- The record of a run of a playbook that is under way: the steps on record are the first ones of
the playbook, and all are done but perhaps the last, which is running or has failed. -/
structure UnderWay (p : Playbook) (r : RunRecord) : Prop where
  /-- It is the playbook that is run. -/
  playbook : r.playbook = p.name
  /-- It is on record as running. -/
  status : r.status = .running
  /-- There is no error. -/
  error : r.error = none
  /-- It is not over. -/
  completed : r.completed = none
  /-- The steps say how far it has come. -/
  steps : ∃ done records, List.Forall₂ IsCompleted done records ∧
    ((done <+: p.steps ∧ r.steps = records) ∨
      ∃ s t, done ++ [s] <+: p.steps ∧ r.steps = records ++ [t] ∧
        ((t.IsRunning s ∧ (t.HasNothing ∨ t.HasAll)) ∨ ∃ message, t.IsFailed message s))

/-- The record of a run of a playbook of which every step is done. -/
structure Completed (p : Playbook) (r : RunRecord) : Prop where
  /-- It is the playbook that was run. -/
  playbook : r.playbook = p.name
  /-- It is on record as completed. -/
  status : r.status = .completed
  /-- There is no error. -/
  error : r.error = none
  /-- It is over. -/
  completed : r.completed.isSome
  /-- Every step is done. -/
  steps : List.Forall₂ IsCompleted p.steps r.steps

/-- The record of a run of a playbook that ended with a step that failed. -/
structure Failed (p : Playbook) (f : Failure) (r : RunRecord) : Prop where
  /-- It is the playbook that was run. -/
  playbook : r.playbook = p.name
  /-- It is on record as failed. -/
  status : r.status = .failed
  /-- The reason is said. -/
  error : r.error = some f.message
  /-- It is over. -/
  completed : r.completed.isSome
  /-- The last step failed for this reason, those before it are done, and those after it have not
  begun. -/
  steps : ∃ done s left records t, p.steps = done ++ s :: left ∧
    List.Forall₂ IsCompleted done records ∧ r.steps = records ++ [t] ∧ t.IsFailed f.message s

/-- The record of a run that is over, and has failed or not. -/
def Ended (p : Playbook) (r : RunRecord) : Option Failure → Prop
  | none => r.Completed p
  | some f => r.Failed p f

variable {p : Playbook} {r : RunRecord}

/-- A step that begins is put on record as running, and was given nothing yet. -/
theorem exists_steps_begin (r : RunRecord) (s : Step) (id : String) (now : Timestamp) :
    ∃ t, (r.begin s id now).steps = r.steps ++ [t] ∧ t.IsRunning s ∧ t.HasNothing :=
  ⟨_, rfl, ⟨⟨rfl, rfl⟩, rfl, rfl, rfl, rfl, rfl⟩, rfl, rfl⟩

theorem map_name_of_completed {done : List Step} {records : List StepRecord}
    (h : List.Forall₂ IsCompleted done records) :
    records.map StepRecord.name = done.map Step.name := by
  induction h with
  | nil => rfl
  | cons hfirst _ ih => rw [List.map_cons, List.map_cons, hfirst.name, ih]

theorem UnderWay.names (h : r.UnderWay p) :
    r.steps.map StepRecord.name <+: p.steps.map Step.name := by
  obtain ⟨done, records, hdone, ⟨hfirst, hsteps⟩ | ⟨s, t, hfirst, hsteps, hlast⟩⟩ := h.steps
  · rw [hsteps, map_name_of_completed hdone]
    exact hfirst.map _
  · have hname : t.name = s.name := by
      rcases hlast with ⟨hrunning, -⟩ | ⟨message, hfailed⟩
      · exact hrunning.name
      · exact hfailed.name
    have hnames := hfirst.map Step.name
    rw [List.map_append, ← map_name_of_completed hdone] at hnames
    simpa [hsteps, hname] using hnames

theorem Ended.status_ne {failure : Option Failure} (h : r.Ended p failure) :
    r.status ≠ .running := by
  cases failure with
  | none => simp [h.status]
  | some f => simp [h.status]

theorem Ended.names {failure : Option Failure} (h : r.Ended p failure) :
    r.steps.map StepRecord.name <+: p.steps.map Step.name := by
  cases failure with
  | none => exact ⟨[], by simp [map_name_of_completed h.steps]⟩
  | some f =>
    obtain ⟨done, s, left, records, t, hplan, hdone, hsteps, hfailed⟩ := h.steps
    refine ⟨left.map Step.name, ?_⟩
    simp [hplan, hsteps, map_name_of_completed hdone, hfailed.name]

end RunRecord

/-! ### Runs under way -/

open StepRecord in
/-- The step under way, or the one that has failed, and its record, at each stage of a run. -/
inductive Stage.Shows : Stage → List Step → List StepRecord → Prop
  | due : Shows .due [] []
  | begun {s id t} (h : t.IsRunning s) (hnothing : t.HasNothing) : Shows (.begun s id) [s] [t]
  | atWork {s id t} (h : t.IsRunning s) (hall : t.HasAll) : Shows (.atWork s id) [s] [t]
  | delivered {s id t} (h : t.IsDelivered s) : Shows (.ending s id none) [s] [t]
  | givenUp {s id f t} (h : t.IsRunning s) (hgiven : t.HasNothing ∨ t.HasAll) :
      Shows (.ending s id (some f)) [s] [t]
  | failed {s f t} (h : t.IsFailed f.message s) : Shows (.failed s f) [s] [t]

namespace Errand

variable {p : Playbook} {e e' : Errand} {w w' : Workshop} {deeds : List Store.Deed}
  {run : RunRecord} {failure : Option Failure}

/-- A run follows a playbook: some steps are done, one may be under way, and the others are left. -/
structure Follows (p : Playbook) (e : Errand) : Prop where
  /-- It is the playbook that is run. -/
  playbook : e.run.playbook = p.name
  /-- It is on record as running. -/
  status : e.run.status = .running
  /-- There is no error. -/
  error : e.run.error = none
  /-- It is not over. -/
  completed : e.run.completed = none
  /-- The steps say how far it has come. -/
  steps : ∃ done last records lasts, List.Forall₂ StepRecord.IsCompleted done records ∧
    e.stage.Shows last lasts ∧ p.steps = done ++ last ++ e.left ∧ e.run.steps = records ++ lasts

theorem follows_ofRun (playbook : Playbook) (input : Bindings) (w : Workshop) :
    (ofRun (w.beginRun playbook input).1 playbook.steps).Follows playbook :=
  ⟨rfl, rfl, rfl, rfl, [], [], [], [], .nil, .due, rfl, rfl⟩

/-- A run follows its playbook in every turn. -/
theorem Turn.follows (h : e.Turn w deeds e' w') (hsound : w.store.Sound) (he : e.Follows p) :
    e'.Follows p := by
  obtain ⟨hplaybook, hstatus, herror, hcompleted, done, last, records, lasts, hdone, hlast, hplan,
    hsteps⟩ := he
  cases h with
  | @begin run s rest w hopen =>
    cases hlast
    obtain ⟨t, hbegun, hrunning, hnothing⟩ :=
      run.exists_steps_begin s (Workshop.beginStep run s w).1 w.now
    rw [List.append_nil] at hsteps
    rw [hsteps] at hbegun
    exact ⟨hplaybook, hstatus, herror, hcompleted, done, [s], records, [t], hdone,
      .begun hrunning hnothing, by simpa using hplan, hbegun⟩
  | @supply run left s id w given hgiven =>
    cases hlast with
    | begun hrunning hnothing =>
      obtain ⟨hrunning', hall⟩ := hrunning.supply hnothing (hsound.granted hgiven) (run.inputsFor s)
      exact ⟨hplaybook, hstatus, herror, hcompleted, done, [s], records, _, hdone,
        .atWork hrunning' hall, hplan, RunRecord.steps_modifyLast hsteps _⟩
  | @refuse run left s id w f hrefused =>
    cases hlast with
    | begun hrunning hnothing =>
      exact ⟨hplaybook, hstatus, herror, hcompleted, done, [s], records, _, hdone,
        .givenUp hrunning (.inl hnothing), hplan, hsteps⟩
  | @deliver run left s id w result =>
    cases hlast with
    | atWork hrunning hall =>
      exact ⟨hplaybook, hstatus, herror, hcompleted, done, [s], records, _, hdone,
        .delivered (hrunning.deliver hall result), hplan, RunRecord.steps_modifyLast hsteps _⟩
  | @giveUp run left s id w f =>
    cases hlast with
    | atWork hrunning hall =>
      exact ⟨hplaybook, hstatus, herror, hcompleted, done, [s], records, _, hdone,
        .givenUp hrunning (.inr hall), hplan, hsteps⟩
  | @settle run left s id failure w =>
    cases hlast with
    | @delivered s id t hdelivered =>
      -- the step that got done is one more that is done
      have hsteps' : (Workshop.endStep run id none w).1.steps =
          records ++ [t.become .completed w.now] := RunRecord.steps_modifyLast hsteps _
      have hdone' : List.Forall₂ StepRecord.IsCompleted (done ++ [s])
          (records ++ [t.become .completed w.now]) :=
        List.rel_append hdone (.cons (hdelivered.complete w.now) .nil)
      exact ⟨hplaybook, hstatus, herror, hcompleted, done ++ [s], [], _, [], hdone', .due,
        by simpa using hplan, by rw [List.append_nil]; exact hsteps'⟩
    | @givenUp s id f t hrunning hgiven =>
      exact ⟨hplaybook, hstatus, herror, hcompleted, done, [s], records, _, hdone,
        .failed (hrunning.fail hgiven f.message w.now), hplan,
        RunRecord.steps_modifyLast hsteps _⟩

/-- What a run has published says how far it has come. -/
theorem Follows.underWay (he : e.Follows p) (hpublished : e.stage.isPublished) :
    e.run.UnderWay p := by
  obtain ⟨hplaybook, hstatus, herror, hcompleted, done, last, records, lasts, hdone, hlast, hplan,
    hsteps⟩ := he
  refine ⟨hplaybook, hstatus, herror, hcompleted, done, records, hdone, ?_⟩
  have hfirst : done ++ last <+: p.steps := ⟨e.left, hplan.symm⟩
  obtain ⟨run, left, stage⟩ := e
  cases hlast with
  | due => exact .inl ⟨by simpa using hfirst, by simpa using hsteps⟩
  | begun hrunning hnothing =>
    exact .inr ⟨_, _, hfirst, hsteps, .inl ⟨hrunning, .inl hnothing⟩⟩
  | atWork hrunning hall => exact .inr ⟨_, _, hfirst, hsteps, .inl ⟨hrunning, .inr hall⟩⟩
  | failed hfailed => exact .inr ⟨_, _, hfirst, hsteps, .inr ⟨_, hfailed⟩⟩
  | delivered _ => cases hpublished
  | givenUp _ _ => cases hpublished

/-- While executors are at work on a step of a run, the step is the last on record, and running. -/
theorem Follows.running (he : e.Follows p) (hwork : e.AtWork) :
    ∃ earlier t, e.run.steps = earlier ++ [t] ∧ t.status = .running := by
  obtain ⟨-, -, -, -, done, last, records, lasts, -, hlast, -, hsteps⟩ := he
  obtain ⟨s, id, hstage⟩ := hwork
  rw [hstage] at hlast
  cases hlast with
  | @atWork s id t hrunning hall => exact ⟨records, t, hsteps, hrunning.status⟩

/-- A run that returns before everything was shut down returns the record of a run that is over. -/
theorem Returns.ended (h : e.Returns w deeds run failure w') (hopen : w.ledger.closed = false)
    (he : e.Follows p) : run.Ended p failure := by
  obtain ⟨hplaybook, -, -, -, done, last, records, lasts, hdone, hlast, hplan, hsteps⟩ := he
  cases h with
  | abandoned hclosed hidle =>
    rw [hopen] at hclosed
    cases hclosed
  | @completed run w _ =>
    cases hlast
    have hall : p.steps = done := by simpa using hplan
    have hrecords : run.steps = records := by simpa using hsteps
    refine ⟨hplaybook, rfl, rfl, rfl, ?_⟩
    rw [hall]
    exact hrecords ▸ hdone
  | @failed run left s f w _ =>
    cases hlast with
    | failed hfailed =>
      exact ⟨hplaybook, rfl, rfl, rfl, done, s, left, records, _, by simpa using hplan, hdone,
        hsteps, hfailed⟩

end Errand

namespace Floor

open Workshop

variable {σ τ : Floor} {story more : List Happening} {x : Happening}

/-- All records on a floor say how far the runs have come: those that unfinished runs keep for
themselves and those that are published, those of the runs that are over, and those that calls have
returned. -/
structure Recorded (story : List Happening) (σ : Floor) : Prop where
  /-- Runs under way follow their playbooks, and so did those that were dropped. -/
  errands : ∀ e ∈ unfinished story σ.errands, ∃ p, (e.run.id, p) ∈ entries story ∧ e.Follows p
  /-- The published records of the runs under way. -/
  active : ∀ run ∈ σ.shop.ledger.active, ∃ p, (run.id, p) ∈ entries story ∧ run.UnderWay p
  /-- The records of the runs that are over. -/
  history : ∀ run ∈ σ.shop.ledger.history, ∃ p failure, (run.id, p) ∈ entries story ∧
    (run, failure) ∈ returns story ∧ run.Ended p failure
  /-- The records that were returned. -/
  returns : ∀ run, (run, none) ∈ returns story →
    ∃ p, (run.id, p) ∈ entries story ∧ run.Completed p

theorem recorded_new (config : Config) (library : Library) (wiring : Wiring) :
    Recorded [] ⟨.new config library wiring, []⟩ where
  errands _ he := absurd he List.not_mem_nil
  active _ hrun := absurd hrun List.not_mem_nil
  history _ hrun := absurd hrun List.not_mem_nil
  returns _ hrun := absurd hrun List.not_mem_nil

/-- What is on record stays so while the story goes on. -/
theorem Recorded.of_ledger {w w' : Workshop} {errands : List Errand}
    (h : Recorded story ⟨w, errands⟩) (x : Happening)
    (hactive : w'.ledger.active ⊆ w.ledger.active)
    (hhistory : w'.ledger.history ⊆ w.ledger.history) (hreturn : x.return? = none)
    (hdrop : x.drop? = none) : Recorded (story ++ [x]) ⟨w', errands⟩ where
  errands e he := by
    rw [unfinished_concat hdrop] at he
    obtain ⟨p, hp, hfollows⟩ := h.errands e he
    exact ⟨p, by simp [hp], hfollows⟩
  active run hrun := by
    obtain ⟨p, hp, hunder⟩ := h.active run (hactive hrun)
    exact ⟨p, by simp [hp], hunder⟩
  history run hrun := by
    obtain ⟨p, failure, hp, hreturned, hended⟩ := h.history run (hhistory hrun)
    exact ⟨p, failure, by simp [hp], by simp [hreturned], hended⟩
  returns run hrun := by
    rw [returns_append, returns_singleton, hreturn, Option.toList_none, List.append_nil] at hrun
    obtain ⟨p, hp, hcompleted⟩ := h.returns run hrun
    exact ⟨p, by simp [hp], hcompleted⟩

theorem Recorded.enter {w : Workshop} {errands : List Errand} (h : Recorded story ⟨w, errands⟩)
    (playbook : Playbook) (input : Bindings) :
    Recorded (story ++ [.entered (w.beginRun playbook input).1.id playbook])
      ⟨(w.beginRun playbook input).2,
        .ofRun (w.beginRun playbook input).1 playbook.steps :: errands⟩ := by
  have hkept : Recorded (story ++ [.entered (w.beginRun playbook input).1.id playbook])
      ⟨w, errands⟩ := h.of_ledger _ (List.Subset.refl _) (List.Subset.refl _) rfl rfl
  have hfollows := Errand.follows_ofRun playbook input w
  have hentered : ((w.beginRun playbook input).1.id, playbook) ∈
      entries (story ++ [.entered (w.beginRun playbook input).1.id playbook]) := by simp
  refine ⟨fun e he => ?_, ?_, hkept.history, hkept.returns⟩
  · rcases List.mem_cons.1 he with rfl | he
    · exact ⟨playbook, hentered, hfollows⟩
    · exact hkept.errands e he
  · exact Ledger.forall_active_start hkept.active ⟨playbook, hentered, hfollows.underWay rfl⟩

theorem Recorded.turn {w w' : Workshop} {e e' : Errand} {deeds : List Store.Deed}
    {before after : List Errand} (h : Recorded story ⟨w, before ++ e :: after⟩)
    (hsound : w.store.Sound) (hturn : e.Turn w deeds e' w') :
    Recorded (story ++ [.turned e e']) ⟨w', before ++ e' :: after⟩ := by
  have hkept : Recorded (story ++ [.turned e e']) ⟨w, before ++ e :: after⟩ :=
    h.of_ledger _ (List.Subset.refl _) (List.Subset.refl _) rfl rfl
  have hmiddle := unfinished_middle (story ++ [.turned e e']) before after
  obtain ⟨p, hp, hfollows⟩ := hkept.errands e ((hmiddle e).mem_iff.2 List.mem_cons_self)
  have hfollows' := hturn.follows hsound hfollows
  rw [← hturn.run_id] at hp
  have hledger := hturn.ledger
  refine ⟨fun f hf => ?_, ?_, ?_, hkept.returns⟩
  · rcases List.mem_cons.1 ((hmiddle e').mem_iff.1 hf) with rfl | hf
    · exact ⟨p, hp, hfollows'⟩
    · exact hkept.errands f ((hmiddle e).mem_iff.2 (List.mem_cons_of_mem e hf))
  · rw [hledger]
    split
    · next hpublished =>
      exact Ledger.forall_active_publish hkept.active ⟨p, hp, hfollows'.underWay hpublished⟩
    · exact hkept.active
  · rw [hturn.history_eq]
    exact hkept.history

theorem Recorded.leave {w w' : Workshop} {e : Errand} {deeds : List Store.Deed} {run : RunRecord}
    {failure : Option Failure} {before after : List Errand}
    (h : Recorded story ⟨w, before ++ e :: after⟩) (hreturns : e.Returns w deeds run failure w') :
    Recorded (story ++ [.returned e run failure]) ⟨w', before ++ after⟩ := by
  have hmiddle := unfinished_middle story before after e
  obtain ⟨p, hp, hfollows⟩ := h.errands e (hmiddle.mem_iff.2 List.mem_cons_self)
  rw [← hreturns.run_id] at hp
  have hentries : entries (story ++ [.returned e run failure]) = entries story := by simp
  have hothers (f : Errand)
      (hf : f ∈ unfinished (story ++ [.returned e run failure]) (before ++ after)) :
      ∃ p, (f.run.id, p) ∈ entries (story ++ [.returned e run failure]) ∧ f.Follows p := by
    rw [unfinished_concat rfl] at hf
    rw [hentries]
    exact h.errands f (hmiddle.mem_iff.2 (List.mem_cons_of_mem e hf))
  have hactive : ∀ r ∈ w'.ledger.active, ∃ p,
      (r.id, p) ∈ entries (story ++ [.returned e run failure]) ∧ r.UnderWay p := by
    rw [hentries]
    exact fun r hr => h.active r (hreturns.active_subset hr)
  have hhistory (r : RunRecord) (hr : r ∈ w.ledger.history) : ∃ p failure',
      (r.id, p) ∈ entries (story ++ [.returned e run failure]) ∧
        (r, failure') ∈ Happening.returns (story ++ [.returned e run failure]) ∧
          r.Ended p failure' := by
    obtain ⟨p, failure', hp, hreturned, hended⟩ := h.history r hr
    exact ⟨p, failure', by simp [hp], by simp [hreturned], hended⟩
  rcases hreturns.ledger with ⟨hclosed, rfl, hledger⟩ | ⟨hopen, -, hledger⟩
  · refine ⟨hothers, hactive, ?_, fun r hr => ?_⟩
    · rw [hledger]
      exact hhistory
    · rw [hentries]
      exact h.returns r (by simpa using hr)
  · have hended := hreturns.ended hopen hfollows
    refine ⟨hothers, hactive, fun r hr => ?_, fun r hr => ?_⟩
    · rw [hledger] at hr
      rcases Ledger.mem_history_finish hr with hr | rfl
      · exact hhistory r hr
      · exact ⟨p, failure, by simp [hp], by simp, hended⟩
    · rw [hentries]
      rw [returns_append, List.mem_append] at hr
      rcases hr with hr | hr
      · exact h.returns r hr
      · obtain ⟨rfl, rfl⟩ : run = r ∧ failure = none := by simpa [eq_comm] using hr
        exact ⟨p, hp, hended⟩

theorem Recorded.drop {w : Workshop} {e : Errand} {before after : List Errand}
    (h : Recorded story ⟨w, before ++ e :: after⟩) :
    Recorded (story ++ [.dropped e]) ⟨w, before ++ after⟩ where
  errands f hf := by
    obtain ⟨p, hp, hfollows⟩ := h.errands f ((unfinished_dropped ..).mem_iff.1 hf)
    exact ⟨p, by simp [hp], hfollows⟩
  active run hrun := by simpa using h.active run hrun
  history run hrun := by simpa using h.history run hrun
  returns run hrun := by simpa using h.returns run (by simpa using hrun)

theorem Scene.recorded (h : Scene σ x τ) (hsound : σ.shop.store.Sound)
    (hrecorded : Recorded story σ) : Recorded (story ++ [x]) τ := by
  cases h with
  | act hdoes =>
    refine hrecorded.of_ledger _ ?_ ?_ rfl rfl <;> rw [hdoes.ledger] <;> exact List.Subset.refl _
  | shutdown =>
    refine hrecorded.of_ledger _ ?_ ?_ rfl rfl <;> rw [(Workshop.does_shutdown _).ledger] <;>
      exact List.nil_subset _
  | enter errands input hopen hload => exact hrecorded.enter _ input
  | turn before after hturn => exact hrecorded.turn hsound hturn
  | leave before after hreturns => exact hrecorded.leave hreturns
  | drop before after hwork => exact hrecorded.drop

/-- At the end of every story all records say how far the runs have come. -/
theorem Story.recorded {config : Config} {library : Library} {wiring : Wiring}
    (h : Story ⟨.new config library wiring, []⟩ story σ) : Recorded story σ := by
  induction h with
  | refl => exact recorded_new config library wiring
  | tail hstory hscene ih =>
    obtain ⟨history, hbooked⟩ := hstory.booked
    exact hscene.recorded hbooked.sound ih

/-! ### What can be seen -/

end Floor

/-- The records of runs in an answer. -/
def Answer.records : Answer → List RunRecord
  | .run r => r.toList
  | .runs rs => rs
  | _ => []

namespace Workshop

variable {attendant : Attendant} {w : Workshop} {run : RunRecord}

theorem orFailure_records {α : Type} {told : α → Answer} (htold : ∀ b, (told b).records = [])
    (r : Except Failure α × Workshop) : ∀ a ∈ (orFailure told r).1, a.records = [] := by
  rcases r with ⟨_ | b, w⟩ <;> rintro _ ⟨⟩
  · rfl
  · exact htold b

theorem orDropped_records {α : Type} {told : α → Answer} (htold : ∀ b, (told b).records = [])
    (r : Option (Except Failure α) × Workshop) :
    ∀ a ∈ (orDropped told r).1, a.records = [] := by
  rcases r with ⟨_ | _ | b, w⟩ <;> rintro _ ⟨⟩
  · rfl
  · exact htold b

theorem registerSource_records (source : ManifestSource) (w : Workshop) :
    (registerSource source w).1.records = [] := by
  unfold registerSource
  dsimp only
  split
  · rfl
  · split <;> rfl

theorem registerAs_records (kind : String) (attributes : Bindings) (nickname : Option String)
    (w : Workshop) : (registerAs kind attributes nickname w).1.records = [] := by
  unfold registerAs
  split <;> rfl

theorem mem_of_run? (ref : RunRef) (h : w.run? ref = some run) :
    run ∈ w.ledger.active ∨ run ∈ w.ledger.history := by
  obtain ⟨id, -, hfound⟩ := Option.bind_eq_some_iff.1 h
  rw [Ledger.run?, ← List.find?_append] at hfound
  exact List.mem_append.1 (List.mem_of_find?_eq_some hfound)

/-- The records in an answer are on record already, unless a playbook was run and its record is
returned just then. -/
theorem records_answer (attendant : Attendant) (c : Command) (w : Workshop) :
    (∀ a ∈ (answer attendant c w).1, ∀ run ∈ a.records,
      run ∈ w.ledger.active ∨ run ∈ w.ledger.history) ∨
    ∃ name input run, (executePlaybook attendant name input w).1 = some (.ok run) ∧
      answer attendant c w = (some (.run (some run)),
        (executePlaybook attendant name input w).2) := by
  have hnone (h : ∀ a ∈ (answer attendant c w).1, a.records = []) :
      ∀ a ∈ (answer attendant c w).1, ∀ run ∈ a.records,
        run ∈ w.ledger.active ∨ run ∈ w.ledger.history := by
    intro a ha run hrun
    rw [h a ha] at hrun
    exact absurd hrun List.not_mem_nil
  cases c with
  | executePlaybook name input =>
    rcases hresult : executePlaybook attendant name input w with ⟨_ | f | run, w'⟩
    · exact .inl (hnone (by simp [answer, hresult, orDropped]))
    · exact .inl (hnone (by simp [answer, hresult, orDropped, orFailure, Answer.records]))
    · exact .inr ⟨name, input, run, by rw [hresult], by
        simp [answer, hresult, orDropped, orFailure]⟩
  | history => exact .inl fun _ ha run hrun => .inr (by cases ha; exact hrun)
  | listActive => exact .inl fun _ ha run hrun => .inl (by cases ha; exact hrun)
  | getRun ref =>
    refine .inl fun a ha run hrun => mem_of_run? (w.meantRun ref) ?_
    cases ha
    simpa [Answer.records] using hrun
  | allocate step requirements | updatePolicy u | loadPlaybook name =>
    refine .inl (hnone ?_)
    rw [answer]
    exact orFailure_records (fun _ => rfl) _
  | executeStep step method inputs =>
    refine .inl (hnone ?_)
    rw [answer]
    exact orDropped_records (fun _ => rfl) _
  | registerManifest source =>
    refine .inl (hnone ?_)
    rintro _ ⟨⟩
    exact registerSource_records source w
  | register kind attributes nickname =>
    refine .inl (hnone ?_)
    rintro _ ⟨⟩
    exact registerAs_records kind attributes nickname w
  | callWorker _ _ _ _ | effective _ | playbookNames | describe _ =>
    refine .inl (hnone ?_)
    unfold answer
    dsimp only
    split <;> rintro _ ⟨⟩ <;> rfl
  -- no other answer tells of runs
  | _ => exact .inl (hnone (by rintro _ ⟨⟩; rfl))

end Workshop

/-- In the light of a story, the record of a run is well-formed: it is that of a run that has
entered, its steps are the first ones of the playbook by their names, and it says how far the run
has come, or how it returned. -/
def RunRecord.WellFormed (story : List Happening) (r : RunRecord) : Prop :=
  ∃ p, (r.id, p) ∈ entries story ∧ r.steps.map StepRecord.name <+: p.steps.map Step.name ∧
    (r.UnderWay p ∨ ∃ failure, (r, failure) ∈ returns story ∧ r.Ended p failure)

theorem RunRecord.WellFormed.mono {story : List Happening} {r : RunRecord}
    (h : r.WellFormed story) (more : List Happening) : r.WellFormed (story ++ more) := by
  obtain ⟨p, hp, hnames, hunder | ⟨failure, hreturned, hended⟩⟩ := h
  · exact ⟨p, by simp [hp], hnames, .inl hunder⟩
  · exact ⟨p, by simp [hp], hnames, .inr ⟨failure, by simp [hreturned], hended⟩⟩

/-- The last step on the record of a run is running. -/
def RunRecord.LastRunning (r : RunRecord) : Prop :=
  ∃ earlier t, r.steps = earlier ++ [t] ∧ t.status = .running

namespace Floor

open Workshop

variable {σ τ : Floor} {story more : List Happening}

theorem Recorded.wellFormed (h : Recorded story σ) {run : RunRecord}
    (hrun : run ∈ σ.shop.ledger.active ∨ run ∈ σ.shop.ledger.history) : run.WellFormed story := by
  rcases hrun with hrun | hrun
  · obtain ⟨p, hp, hunder⟩ := h.active run hrun
    exact ⟨p, hp, hunder.names, .inl hunder⟩
  · obtain ⟨p, failure, hp, hreturned, hended⟩ := h.history run hrun
    exact ⟨p, hp, hended.names, .inr ⟨failure, hreturned, hended⟩⟩

theorem Story.open_of_mem_active {config : Config} {library : Library} {wiring : Wiring}
    (h : Story ⟨.new config library wiring, []⟩ story σ) {run : RunRecord}
    (hrun : run ∈ σ.shop.ledger.active) : σ.shop.ledger.closed = false := by
  cases hclosed : σ.shop.ledger.closed with
  | false => rfl
  | true =>
    rw [h.forgotten_of_closed hclosed] at hrun
    exact absurd hrun List.not_mem_nil

/-- While executors are at work on a run, and after it was dropped, the last step on its published
record is running, if runs enter under fresh ids. -/
theorem Story.lastRunning {config : Config} {library : Library} {wiring : Wiring}
    (h : Story ⟨.new config library wiring, []⟩ story σ) (hfresh : (enteredIds story).Nodup)
    {e : Errand} (he : e ∈ unfinished story σ.errands) (hwork : e.AtWork) {run : RunRecord}
    (hrun : run ∈ σ.shop.ledger.active) (hid : run.id = e.run.id) : run.LastRunning := by
  have hregistered := h.registered hfresh (h.open_of_mem_active hrun)
  have hnodup : (σ.shop.ledger.active.map RunRecord.id).Nodup :=
    hregistered.active.nodup_iff.2 (hregistered.nodup hfresh).of_append_left
  have hpublished : e.stage.isPublished := by
    obtain ⟨s, id, hstage⟩ := hwork
    rw [hstage]
    rfl
  have hsame : run = e.run :=
    List.inj_on_of_nodup_map hnodup hrun (hregistered.shown e he hpublished) hid
  obtain ⟨p, -, hfollows⟩ := h.recorded.errands e he
  exact hsame ▸ hfollows.running hwork

/-- If executors are at work on all runs under way, then whatever is on record as under way is a run
that they are at work on, or were when it was dropped. -/
theorem Story.exists_atWork {config : Config} {library : Library} {wiring : Wiring}
    (h : Story ⟨.new config library wiring, []⟩ story σ) (hfresh : (enteredIds story).Nodup)
    (hwaiting : σ.Waiting) {run : RunRecord} (hrun : run ∈ σ.shop.ledger.active) :
    ∃ e ∈ unfinished story σ.errands, e.AtWork ∧ e.run.id = run.id := by
  have hregistered := h.registered hfresh (h.open_of_mem_active hrun)
  obtain ⟨e, he, hid⟩ := List.mem_map.1 (hregistered.active.mem_iff.1 (List.mem_map_of_mem hrun))
  refine ⟨e, he, ?_, hid⟩
  rcases List.mem_append.1 he with he | he
  · exact hwaiting e he
  · exact hregistered.dropped e he

/-- Whatever records of runs an answer tells of are well-formed. -/
theorem wellFormed_of_answer {config : Config} {library : Library} {wiring : Wiring}
    (h : Story ⟨.new config library wiring, []⟩ story σ) {attendant : Attendant}
    (hattend : ∀ commands v, Leads σ v (attendant commands v).2) (c : Command) :
    ∃ more, Story σ more ⟨(answer attendant c σ.shop).2, σ.errands⟩ ∧
      ∀ a ∈ (answer attendant c σ.shop).1, ∀ run ∈ a.records, run.WellFormed (story ++ more) ∧
        (σ.Waiting → (enteredIds story).Nodup → run.status = .running → run.LastRunning) := by
  rcases records_answer attendant c σ.shop with hrecords | ⟨name, input, run, hresult, hanswer⟩
  · obtain ⟨more, hmore⟩ := story_of_leads (answer_leads hattend c σ.shop) (.refl (σ := σ))
    refine ⟨more, hmore, fun a ha run hrun =>
      ⟨(h.recorded.wellFormed (hrecords a ha run hrun)).mono more,
        fun hwaiting hfresh hrunning => ?_⟩⟩
    rcases hrecords a ha run hrun with hactive | hhistory
    · obtain ⟨e, he, hwork, hid⟩ := h.exists_atWork hfresh hwaiting hactive
      exact h.lastRunning hfresh he hwork hactive hid.symm
    · obtain ⟨p, failure, -, -, hended⟩ := h.recorded.history run hhistory
      exact absurd hrunning hended.status_ne
  · rw [hanswer]
    obtain ⟨hclosed, hnotFound, hran⟩ :=
      executePlaybook_story hattend (.refl (σ := σ)) name input
    cases hledger : σ.shop.ledger.closed with
    | true =>
      rw [hclosed hledger] at hresult
      cases hresult
    | false =>
      cases hload : σ.shop.library.load name with
      | error f =>
        rw [hnotFound hledger f hload] at hresult
        cases hresult
      | ok playbook =>
        obtain ⟨more, hstory, hreturned⟩ := (hran hledger playbook hload).of_ok hresult
        refine ⟨_, hstory, fun a ha r hr => ?_⟩
        obtain rfl : a = .run (some run) := by simpa [eq_comm] using ha
        obtain rfl : r = run := by simpa [Answer.records] using hr
        have hreturned' : (r, none) ∈ returns (story ++ more) := by simp [hreturned]
        obtain ⟨p, hp, hcompleted⟩ := (h.trans hstory).recorded.returns r hreturned'
        have hended : r.Ended p none := hcompleted
        refine ⟨⟨p, hp, hended.names, .inr ⟨none, hreturned', hended⟩⟩, fun _ _ hrunning => ?_⟩
        exact absurd hrunning hended.status_ne

/-- Records are well-formed wherever they can be seen. Take any floor that a new workshop has got
to. The records of the runs under way are those of runs that have entered; each says how far its run
has come. The records of the runs that are over are those that were returned; each says that every
step is done, or that the last one failed, for the reason that was returned. A call returns what is
told of its run at the end of its story, which begins with the run entering, unless both are
dropped. While executors are at work on a run, and after it was dropped, the last step on its
published record is running, if runs enter under fresh ids.

So whatever records an answer tells of are well-formed; and so are those that can be seen in the
replies to the commands of a session, at whatever depth. Those of runs under way that are seen there
end with a step that is running. -/
theorem records_well_formed {config : Config} {library : Library} {wiring : Wiring}
    (h : Story ⟨.new config library wiring, []⟩ story σ) :
    (∀ run ∈ σ.shop.ledger.active, ∃ p, (run.id, p) ∈ entries story ∧ run.UnderWay p) ∧
    (∀ run ∈ σ.shop.ledger.history, ∃ p failure, (run.id, p) ∈ entries story ∧
      (run, failure) ∈ returns story ∧ run.Ended p failure) ∧
    ((enteredIds story).Nodup → ∀ e ∈ σ.errands ++ drops story, e.AtWork →
      ∀ run ∈ σ.shop.ledger.active, run.id = e.run.id → run.LastRunning) ∧
    (∀ attendant, (∀ commands v, Leads σ v (attendant commands v).2) →
      (∀ c, ∃ more, Story σ more ⟨(answer attendant c σ.shop).2, σ.errands⟩ ∧
        ∀ a ∈ (answer attendant c σ.shop).1, ∀ run ∈ a.records,
          run.WellFormed (story ++ more)) ∧
      ∀ name input playbook, σ.shop.ledger.closed = false →
        σ.shop.library.load name = .ok playbook →
        ∃ id, Runs σ id playbook (executePlaybook attendant name input σ.shop).1
          ⟨(executePlaybook attendant name input σ.shop).2, σ.errands⟩) ∧
    (∀ levels commands, ∃ more,
      Story σ more ⟨(replies (perform levels) commands σ.shop).2, σ.errands⟩) ∧
    (σ.Waiting → ∀ levels commands, ∀ rs ∈ (replies (perform levels) commands σ.shop).1,
      ∀ r ∈ rs, ∀ a, r.Shows a → ∃ more τ, Story σ more τ ∧ ∀ run ∈ a.records,
        run.WellFormed (story ++ more) ∧
          ((enteredIds (story ++ more)).Nodup → run.status = .running → run.LastRunning)) := by
  refine ⟨h.recorded.active, h.recorded.history,
    fun hfresh e he hwork run hrun hid => h.lastRunning hfresh he hwork hrun hid,
    fun attendant hattend => ⟨fun c => ?_, fun name input playbook hopen hload => ?_⟩,
    fun levels commands => story_of_leads (replies_leads levels commands σ.shop) .refl,
    fun hwaiting levels commands rs hrs r hr a ha => ?_⟩
  · obtain ⟨more, hmore, hrecords⟩ := wellFormed_of_answer h hattend c
    exact ⟨more, hmore, fun a ha run hrun => (hrecords a ha run hrun).1⟩
  · obtain ⟨-, -, hran⟩ := executePlaybook_story hattend (.refl (σ := σ)) name input
    exact ⟨_, hran hopen playbook hload⟩
  · obtain ⟨before, τ, attendant, c, hbefore, hbusy, hattend, hanswer⟩ :=
      replies_seen hwaiting levels commands rs hrs r hr a ha
    obtain ⟨more, hmore, hrecords⟩ := wellFormed_of_answer (h.trans hbefore) hattend c
    refine ⟨before ++ more, _, hbefore.trans hmore, fun run hrun => ?_⟩
    obtain ⟨hwellFormed, hrunning⟩ := hrecords a hanswer run hrun
    rw [← List.append_assoc]
    refine ⟨hwellFormed, fun hfresh => hrunning hbusy ?_⟩
    rw [enteredIds_append] at hfresh
    exact hfresh.of_append_left

/-- While the oven is in use, its run is on record as under way, with its step running; the run that
could not have the oven is on record as failed, for the reason that was returned. -/
theorem records_well_formed_bakery :
    ∃ story σ, Story ⟨opened, []⟩ story σ ∧
      (baker ∈ σ.shop.ledger.active ∧ baker.UnderWay bread ∧ baker.LastRunning) ∧
      ∃ run ∈ σ.shop.ledger.history,
        run.Failed bread (.unmet "step-00000000-0000-4000-8000-000000000004" "heat") := by
  obtain ⟨story, σ, hstory, hopen, herrands, hentries, -, run, hreturns⟩ := exists_story_refused
  have hfresh : (enteredIds story).Nodup := by
    rw [enteredIds, hentries]
    decide
  have hbread (p : Playbook) (id : String) (hp : (id, p) ∈ entries story) : p = bread := by
    rw [hentries] at hp
    simp only [List.mem_cons, Prod.mk.injEq, List.not_mem_nil, or_false] at hp
    rcases hp with ⟨-, hp⟩ | ⟨-, hp⟩ <;> exact hp
  have hregistered := hstory.registered hfresh hopen
  have hwork : (⟨baker, [], .atWork baking begun.1⟩ : Errand) ∈ σ.errands ++ drops story := by
    rw [herrands]
    exact List.mem_cons_self
  have hbaker : baker ∈ σ.shop.ledger.active := hregistered.shown _ hwork rfl
  have hrun : run ∈ σ.shop.ledger.history := by
    rw [hregistered.history, hreturns]
    exact List.mem_singleton_self run
  obtain ⟨hactive, hhistory, hrunning, -, -, -⟩ := records_well_formed hstory
  refine ⟨story, σ, hstory, ⟨hbaker, ?_, hrunning hfresh _ hwork ⟨_, _, rfl⟩ baker hbaker rfl⟩,
    run, hrun, ?_⟩
  · obtain ⟨p, hp, hunder⟩ := hactive baker hbaker
    exact hbread p _ hp ▸ hunder
  · obtain ⟨p, failure, hp, hreturned, hended⟩ := hhistory run hrun
    rw [hreturns, List.mem_singleton, Prod.mk.injEq] at hreturned
    obtain ⟨-, rfl⟩ := hreturned
    exact hbread p _ hp ▸ hended

end Floor

end Foreman
