import Foreman.Workshop.Labour
/-!
# Runs of playbooks

A run does the steps of a playbook one after another. A step is given its resources, its inputs are
put together, the engine gets it done, and its resources are given back, whatever came of it. The
first step that fails ends the run. If everything is shut down while a step is under way, the run
ends when that step returns. A run that is dropped with the call in whose course it was begun stays
where it is: its step gives nothing back, and its record is never brought up to date.

## Main definitions

* `Foreman.RunRecord.begin`, `Foreman.RunRecord.supply`, `Foreman.RunRecord.deliver`,
  `Foreman.RunRecord.settle`: what a step leaves on the record of its run.
* `Foreman.Workshop.runStep`: one step of a run.
* `Foreman.Workshop.runSteps`, `Foreman.Workshop.carryOut`: the steps of a run that are left, and
  all of a run.
* `Foreman.Workshop.executePlaybook`: a playbook is run.
* `Foreman.Workshop.shutdown`: everything is shut down.
-/

namespace Foreman

namespace RunRecord

/-- A change of the record of the last step. -/
def modifyLast (r : RunRecord) (f : StepRecord → StepRecord) : RunRecord :=
  { r with steps := r.steps.modify (r.steps.length - 1) f }

/-- The record of a run in which a step begins. -/
def begin (r : RunRecord) (s : Step) (id : String) (now : Timestamp) : RunRecord :=
  { r with
    steps := r.steps ++
      [{ id, name := s.name, status := .running, requirements := s.requirements, started := now }] }

/-- The record of a run whose last step was given its resources and its inputs. -/
def supply (r : RunRecord) (given : Allotment) (inputs : Bindings) : RunRecord :=
  r.modifyLast fun record =>
    { record with
      assignments := given.assignments
      warnings := record.warnings ++ given.warnings
      inputs }

/-- The record of a run whose last step got done. -/
def deliver (r : RunRecord) (result : StepResult) : RunRecord :=
  r.modifyLast fun record => { record with outputs := result.outputs, result := some result }

/-- The record of a run whose last step has come to its end. -/
def settle (r : RunRecord) (failure : Option Failure) (now : Timestamp) : RunRecord :=
  r.modifyLast fun record =>
    match failure with
    | none => record.become .completed now
    | some f => { record with errors := record.errors ++ [f.message] }.become .failed now

/-- What is told of a run that has come to its end: its record, unless it failed. -/
def outcome (r : RunRecord) : Option Failure → Except Failure RunRecord
  | none => .ok r
  | some f => .error f

end RunRecord

namespace Workshop

/-- The record of a run under way is brought up to date. -/
def publish (r : RunRecord) (w : Workshop) : Workshop :=
  { w with ledger := w.ledger.publish r }

/-- A step of a run begins, under a fresh id. -/
def beginStep (run : RunRecord) (s : Step) (w : Workshop) : String × RunRecord × Workshop :=
  let (mark, w) := w.freshMark
  let id := "step-" ++ mark
  let run := run.begin s id w.now
  (id, run, w.publish run)

/-- A step is given its resources and got done: the record of the run, and why the step failed, if
it did. Nothing is told if the run is dropped. -/
def allocateAndExecute (attendant : Attendant) (run : RunRecord) (id : String) (s : Step)
    (w : Workshop) : RunRecord × Option (Option Failure) × Workshop :=
  match w.allocate id s.requirements with
  | (.error failure, w) => (run, some (some failure), w)
  | (.ok given, w) =>
    let inputs := run.inputsFor s
    let run := run.supply given inputs
    match executeStep attendant s.name s.method inputs (w.publish run) with
    | (some (.error failure), w) => (run, some (some failure), w)
    | (some (.ok result), w) => (run.deliver result, some none, w)
    | (none, w) => (run, none, w)

/-- A step of a run has come to its end: it gives back what it holds. -/
def endStep (run : RunRecord) (id : String) (failure : Option Failure) (w : Workshop) :
    RunRecord × Workshop :=
  let (_, w) := w.release id
  let run := run.settle failure w.now
  (run, w.publish run)

/-- One step of a run. -/
def runStep (attendant : Attendant) (run : RunRecord) (s : Step) (w : Workshop) :
    RunRecord × Option (Option Failure) × Workshop :=
  let (id, run, w) := beginStep run s w
  match allocateAndExecute attendant run id s w with
  | (run, none, w) => (run, none, w)
  | (run, some failure, w) =>
    let (run, w) := endStep run id failure w
    (run, some failure, w)

/-- A run is ended because everything was shut down. -/
def abandon (run : RunRecord) (w : Workshop) : Workshop :=
  let w := run.steps.foldl (fun w record => (w.release record.id).2)
    (w.note (.runAbandoned run.id run.steps.length))
  { w with ledger := w.ledger.drop run.id }

/-- A run is over. -/
def conclude (run : RunRecord) (status : RunStatus) (error : Option String) (w : Workshop) :
    RunRecord × Workshop :=
  let run := { run with status, error, completed := some w.now }
  (run, { w with ledger := w.ledger.finish run })

/-- The steps of a run that are left: the record of the run at its end, and why it failed, if it
did; or the record as far as the run came, if it is dropped. -/
def runSteps (attendant : Attendant) (run : RunRecord) :
    List Step → Workshop → RunRecord × Option (Option Failure) × Workshop
  | [], w =>
    if w.ledger.closed then (run, some (some .shutDown), w.abandon run)
    else
      let (run, w) := w.conclude run .completed none
      (run, some none, w)
  | s :: rest, w =>
    if w.ledger.closed then (run, some (some .shutDown), w.abandon run)
    else
      match runStep attendant run s w with
      | (run, none, w) => (run, none, w)
      | (run, some none, w) => runSteps attendant run rest w
      | (run, some (some failure), w) =>
        if w.ledger.closed then (run, some (some .shutDown), w.abandon run)
        else
          let w := w.note (.runFailed run.id s.name failure.message)
          let (run, w) := w.conclude run .failed (some failure.message)
          (run, some (some failure), w)

section Steps

variable {attendant : Attendant} {run run' : RunRecord} {s : Step} {left rest : List Step}
  {f : Failure} {w w' : Workshop}

/-- Once everything has been shut down, a run is ended. -/
theorem runSteps_of_closed (hclosed : w.ledger.closed = true) :
    runSteps attendant run left w = (run, some (some .shutDown), w.abandon run) := by
  cases left <;> simp [runSteps, hclosed]

theorem runSteps_nil_of_open (hopen : w.ledger.closed = false) :
    runSteps attendant run [] w =
      ((w.conclude run .completed none).1, some none, (w.conclude run .completed none).2) := by
  simp [runSteps, hopen]

/-- A run is dropped with its step. -/
theorem runSteps_of_dropped (hopen : w.ledger.closed = false)
    (hstep : runStep attendant run s w = (run', none, w')) :
    runSteps attendant run (s :: rest) w = (run', none, w') := by
  simp [runSteps, hopen, hstep]

/-- When a step is done, the others follow. -/
theorem runSteps_of_done (hopen : w.ledger.closed = false)
    (hstep : runStep attendant run s w = (run', some none, w')) :
    runSteps attendant run (s :: rest) w = runSteps attendant run' rest w' := by
  simp [runSteps, hopen, hstep]

/-- When a step has failed, the run fails, unless everything has been shut down. -/
theorem runSteps_of_failed (hopen : w.ledger.closed = false)
    (hstep : runStep attendant run s w = (run', some (some f), w')) :
    runSteps attendant run (s :: rest) w =
      if w'.ledger.closed then (run', some (some .shutDown), w'.abandon run')
      else
        let (ended, v) := (w'.note (.runFailed run'.id s.name f.message)).conclude run' .failed
          (some f.message)
        (ended, some (some f), v) := by
  simp [runSteps, hopen, hstep]

end Steps

/-- A run of a playbook begins, under a fresh id. -/
def beginRun (playbook : Playbook) (input : Bindings) (w : Workshop) : RunRecord × Workshop :=
  let (mark, w) := w.freshMark
  let run : RunRecord :=
    { id := "exec-" ++ mark, playbook := playbook.name, status := .running, input,
      started := w.now }
  (run, { w with ledger := w.ledger.start run })

/-- A run of a playbook, from its beginning to its end. -/
def carryOut (attendant : Attendant) (playbook : Playbook) (input : Bindings) (w : Workshop) :
    RunRecord × Option (Option Failure) × Workshop :=
  let (run, w) := w.beginRun playbook input
  runSteps attendant run playbook.steps w

/-- A playbook is run. Nothing is told if the run is dropped. -/
def executePlaybook (attendant : Attendant) (name : String) (input : Bindings) (w : Workshop) :
    Option (Except Failure RunRecord) × Workshop :=
  if w.ledger.closed then (some (.error .shutDown), w)
  else
    match w.library.load name with
    | .error failure => (some (.error failure), w)
    | .ok playbook =>
      let (run, ended, w) := carryOut attendant playbook input w
      (ended.map run.outcome, w)

/-- The ids of the steps that are under way in some runs. -/
def runningSteps (runs : List RunRecord) : List String :=
  runs.flatMap fun r => (r.steps.filter fun s => s.status = .running).map StepRecord.id

/-- Everything is shut down: the steps under way give back what they hold, the runs are forgotten,
and all instances are removed. -/
def shutdown (w : Workshop) : Workshop :=
  let steps := runningSteps w.ledger.active
  let w := { w with ledger := w.ledger.close }
  (steps.foldl (fun w id => (w.release id).2) w).clear

/-! ### Looking at runs -/

/-- The id that a reference to a run stands for. -/
def runId? (w : Workshop) : RunRef → Option String
  | .past index => (w.ledger.history[index]?).map RunRecord.id
  | .active index => (w.ledger.active[index]?).map RunRecord.id
  | .id id => some id

/-- The run that is referred to. -/
def run? (w : Workshop) (ref : RunRef) : Option RunRecord :=
  (w.runId? ref).bind w.ledger.run?

/-- What the last step of a run holds. -/
def holdingsOf? (w : Workshop) (ref : RunRef) : Option (List String) :=
  (w.run? ref).bind fun r => r.steps.getLast?.map fun s => w.store.heldBy s.id

end Workshop

end Foreman
