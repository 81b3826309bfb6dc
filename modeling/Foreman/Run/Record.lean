import Foreman.Definition.Playbook
import Foreman.Store.Allotment
import Foreman.Trail
/-!
# Records of runs

Running a playbook leaves a record: the input it was started with, and for every step that has begun
what it asked for, what it was given, what went in and what came out. A later step may take an input
from what an earlier step has put out.

## Main definitions

* `Foreman.StepStatus`, `Foreman.RunStatus`: the states of a step and of a run.
* `Foreman.StepRecord`, `Foreman.RunRecord`: the records.
* `Foreman.RunRecord.inputsFor`: what goes into a step.
* `Foreman.RunRecord.finalOutputs?`: what came out last.
-/

namespace Foreman

/-- The states of a step. -/
inductive StepStatus where
  /-- It has not begun. -/
  | pending
  /-- It is being done. -/
  | running
  /-- It is done. -/
  | completed
  /-- It has failed. -/
  | failed
  deriving DecidableEq, Repr, Inhabited

namespace StepStatus

/-- The names of the states. -/
def known : List (String × StepStatus) :=
  [("pending", pending), ("running", running), ("completed", completed), ("failed", failed)]

/-- The name of a state. -/
def name : StepStatus → String
  | pending => "pending"
  | running => "running"
  | completed => "completed"
  | failed => "failed"

/-- A state, by its name. -/
def read : Document → Except Misfit StepStatus :=
  Document.asName known

/-- A state as an open value. -/
def json (s : StepStatus) : Json :=
  .text s.name

/-- Whether nothing follows a state. -/
def isTerminal : StepStatus → Bool
  | completed | failed => true
  | pending | running => false

/-- Whether one state may follow another. -/
def mayBecome : StepStatus → StepStatus → Bool
  | pending, running | pending, failed | running, completed | running, failed => true
  | _, _ => false

end StepStatus

/-- The record of a step. -/
structure StepRecord where
  /-- The id under which the step holds its resources. -/
  id : String
  /-- The name of the step. -/
  name : String
  /-- Its state. -/
  status : StepStatus
  /-- What went in. -/
  inputs : Bindings := .empty
  /-- What came out. -/
  outputs : Bindings := .empty
  /-- What it asked for. -/
  requirements : List Requirement
  /-- What it was given. -/
  assignments : List Assignment := []
  /-- How it got done. -/
  result : Option StepResult := none
  /-- Warnings. -/
  warnings : List String := []
  /-- Errors. -/
  errors : List String := []
  /-- When it began. -/
  started : Timestamp
  /-- When it was over. -/
  completed : Option Timestamp := none
  deriving Inhabited

namespace StepRecord

/-- The instances it was given, by their ids. -/
def resourceIds (s : StepRecord) : List String :=
  s.assignments.map Assignment.instanceId

/-- The strategy that got it done. -/
def strategy? (s : StepRecord) : Option Strategy :=
  s.result.map StepResult.strategy

/-- The record of a step in another state, which is dated if nothing follows it. -/
def become (s : StepRecord) (status : StepStatus) (now : Timestamp) : StepRecord :=
  { s with status, completed := if status.isTerminal then some now else s.completed }

/-- What the record of a step is called, and its fields. -/
def shape : Shape :=
  ⟨"struct StepExecution",
    ["id", "name", "status", "inputs", "outputs", "requirements", "allocated_resources",
      "execution_result", "warnings", "errors", "started_at", "completed_at"]⟩

/-- The record of a step. -/
def read (d : Document) : Except Misfit StepRecord := do
  let form ← Form.of? shape false d
  form.close <|
    mk <$> form.need "id" Document.asText
      <*> form.need "name" Document.asText
      <*> form.need "status" StepStatus.read
      <*> form.need "inputs" Document.asBindings
      <*> form.need "outputs" Document.asBindings
      <*> form.need "requirements" (Document.asList Requirement.read)
      <*> form.need "allocated_resources" (Document.asList Assignment.read)
      <*> form.maybe "execution_result" StepResult.read
      <*> form.need "warnings" (Document.asList Document.asText)
      <*> form.need "errors" (Document.asList Document.asText)
      <*> form.need "started_at" Timestamp.read
      <*> form.maybe "completed_at" Timestamp.read

/-- The members of the record of a step that say neither how it got done nor when. -/
def members (s : StepRecord) : List (String × Option Json) :=
  [("id", some (.text s.id)), ("name", some (.text s.name)), ("status", some s.status.json),
    ("inputs", some (.ofTable s.inputs)), ("outputs", some (.ofTable s.outputs)),
    ("requirements", some (.list (s.requirements.map Requirement.json))),
    ("allocated_resources", some (.list (s.assignments.map Assignment.json))),
    ("warnings", some (.texts s.warnings)), ("errors", some (.texts s.errors))]

/-- The record of a step as an open value. -/
def json (s : StepRecord) : Json :=
  .record <| s.members ++
    [("execution_result", some (.ofOption StepResult.json s.result)),
      ("started_at", some s.started.json),
      ("completed_at", some (.ofOption Timestamp.json s.completed))]

end StepRecord

/-- The states of a run. -/
inductive RunStatus where
  /-- Its steps are being done. -/
  | running
  /-- Every step is done. -/
  | completed
  /-- A step failed, or everything was shut down. -/
  | failed
  deriving DecidableEq, Repr, Inhabited

namespace RunStatus

/-- The names of the states. -/
def known : List (String × RunStatus) :=
  [("running", running), ("completed", completed), ("failed", failed)]

/-- The name of a state. -/
def name : RunStatus → String
  | running => "running"
  | completed => "completed"
  | failed => "failed"

/-- A state, by its name. -/
def read : Document → Except Misfit RunStatus :=
  Document.asName known

/-- A state as an open value. -/
def json (s : RunStatus) : Json :=
  .text s.name

end RunStatus

/-- The record of a run. -/
structure RunRecord where
  /-- The id of the run. -/
  id : String
  /-- The name of the playbook. -/
  playbook : String
  /-- Its state. -/
  status : RunStatus
  /-- What it was started with. -/
  input : Bindings
  /-- The steps that have begun, in order. -/
  steps : List StepRecord := []
  /-- Why it failed. -/
  error : Option String := none
  /-- When it began. -/
  started : Timestamp
  /-- When it was over. -/
  completed : Option Timestamp := none
  deriving Inhabited

namespace RunRecord

/-- The step of a name, the earliest if several have it. -/
def step? (r : RunRecord) (name : String) : Option StepRecord :=
  r.steps.find? fun s => s.name = name

/-- What came out of the last step that is done. -/
def finalOutputs? (r : RunRecord) : Option Bindings :=
  (r.steps.reverse.find? fun s => s.status = .completed).map StepRecord.outputs

/-- The warnings of all steps. -/
def warnings (r : RunRecord) : List String :=
  r.steps.flatMap StepRecord.warnings

/-- The step that an input is taken from, if its name says so in front of its first dot, and the key
it has there. -/
def source (name : String) : Option String × String :=
  let cs := name.toList
  match cs.dropWhile (· ≠ '.') with
  | [] => (none, name)
  | _ :: key => (some (String.ofList (cs.takeWhile (· ≠ '.'))), String.ofList key)

/-- The latest value under a key that a step which is done has put out; of a step of a given name,
if one is given. -/
def latest? (r : RunRecord) (step : Option String) (key : String) : Option Json :=
  r.steps.reverse.findSome? fun s =>
    if s.status = .completed ∧ step.all (s.name = ·) then s.outputs.get? key else none

/-- What goes into a step: the input of the run and, over it, the latest value put out under each
input that the step declares. -/
def inputsFor (r : RunRecord) (s : Step) : Bindings :=
  s.inputs.foldl (fun inputs field =>
    let (step, key) := source field.name
    match r.latest? step key with
    | some value => inputs.insert key value
    | none => inputs) r.input

/-- What the record of a run is called, and its fields. -/
def shape : Shape :=
  ⟨"struct PlaybookExecution",
    ["id", "playbook", "status", "initial_input", "steps", "error", "started_at", "completed_at"]⟩

/-- The record of a run. -/
def read (d : Document) : Except Misfit RunRecord := do
  let form ← Form.of? shape false d
  form.close <|
    mk <$> form.need "id" Document.asText
      <*> form.need "playbook" Document.asText
      <*> form.need "status" RunStatus.read
      <*> form.need "initial_input" Document.asBindings
      <*> form.need "steps" (Document.asList StepRecord.read)
      <*> form.maybe "error" Document.asText
      <*> form.need "started_at" Timestamp.read
      <*> form.maybe "completed_at" Timestamp.read

/-- The members of the record of a run that say neither what the steps did nor when. -/
def members (r : RunRecord) : List (String × Option Json) :=
  [("id", some (.text r.id)), ("playbook", some (.text r.playbook)),
    ("status", some r.status.json), ("initial_input", some (.ofTable r.input)),
    ("error", some (.ofOption .text r.error))]

/-- The record of a run as an open value. -/
def json (r : RunRecord) : Json :=
  .record <| r.members ++
    [("steps", some (.list (r.steps.map StepRecord.json))), ("started_at", some r.started.json),
      ("completed_at", some (.ofOption Timestamp.json r.completed))]

end RunRecord

end Foreman
