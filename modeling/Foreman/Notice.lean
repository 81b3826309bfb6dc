import Foreman.Failure
/-!
# Notices

Whatever changes the stock of resources, and whatever goes wrong or looks wrong, is noted. The notes
in order are the journal. Some notes are made only for the record; the others are warnings and
errors, with a wording and named details.

## Main definitions

* `Foreman.Notice`: what is noted.
* `Foreman.Notice.alarm?`: whether a note is a warning or an error.
* `Foreman.Notice.message`, `Foreman.Notice.details`: the wording and the details of an alarm.
-/

namespace Foreman

/-- What is noted. -/
inductive Notice where
  /-- A step was given instances. -/
  | granted (step : String) (ids : List String)
  /-- A step gave instances back. -/
  | released (step : String) (ids : List String)
  /-- An instance was registered. -/
  | registered (id : String)
  /-- An instance was removed; the step that held it, if one did. -/
  | removed (id : String) (holder : Option String)
  /-- All instances were removed. -/
  | emptied
  /-- A requirement was not met; the instances given for earlier ones were taken back. -/
  | unmet (step requirement : String) (takenBack : Nat)
  /-- A matcher of last resort was used. -/
  | lastResort (step requirement id warning : String)
  /-- A matcher asks for a capability that the catalogue does not list. -/
  | unlistedCapability (requirement capability : String)
  /-- The kinds that a kind extends come round to one of them again. -/
  | cycle (kind repetition : String)
  /-- An instance was registered under an id that is taken. -/
  | duplicateInstance (id : String)
  /-- An instance was registered for a kind that nobody has described. -/
  | unknownKind (id kind : String)
  /-- An instance was to be removed that does not exist. -/
  | absentInstance (id : String)
  /-- An entry of a manifest does not fit. -/
  | malformedEntry (heading : String) (index : Nat) (why : String)
  /-- A change of the policy was refused. -/
  | updateRejected (why : String)
  /-- An attempt at a step failed. -/
  | attemptFailed (step : String) (strategy : Strategy) (attempt : Nat) (why : String)
  /-- A capability without a name was registered. -/
  | namelessCapability
  /-- A responsibility without a name was registered. -/
  | namelessResponsibility
  /-- A kind of resource without a name was left out. -/
  | namelessKind
  /-- A run was ended because everything was shut down. -/
  | runAbandoned (run : String) (begun : Nat)
  /-- A run failed. -/
  | runFailed (run step why : String)
  deriving DecidableEq, Repr

/-- How loud a note is, if it is an alarm. -/
inductive Alarm where
  /-- Something looks wrong. -/
  | warning
  /-- Something went wrong. -/
  | error
  deriving DecidableEq, Repr

namespace Notice

/-- Whether a note is a warning or an error. -/
def alarm? : Notice → Option Alarm
  | granted _ _ | released _ _ | registered _ | emptied | removed _ none => none
  | runFailed _ _ _ => some .error
  | _ => some .warning

/-- The wording of an alarm; empty for a note made only for the record. -/
def message : Notice → String
  | granted _ _ | released _ _ | registered _ | emptied | removed _ none => ""
  | removed _ (some _) => "Deregistered an allocated instance"
  | unmet _ _ _ => "Requirement could not be satisfied"
  | lastResort _ _ _ _ => "Emergency allocation"
  | unlistedCapability _ _ => "Requirement references a capability missing from the marketplace"
  | cycle _ _ => "Cycle in resource definition inheritance"
  | duplicateInstance _ => "Duplicate resource instance registration"
  | unknownKind _ _ => "Instance registered for unknown definition"
  | absentInstance _ => "Attempted to deregister non-existent instance"
  | malformedEntry _ _ _ => "Skipping malformed manifest entry"
  | updateRejected _ => "Rejected execution policy update"
  | attemptFailed _ _ _ _ => "Execution attempt failed"
  | namelessCapability => "Registering capability with empty name"
  | namelessResponsibility => "Registering responsibility with empty name"
  | namelessKind => "Skipping resource definition with empty name"
  | runAbandoned _ _ => "Playbook execution abandoned by shutdown"
  | runFailed _ _ _ => "Playbook execution failed"

/-- The named details of an alarm. -/
def details : Notice → List (String × String)
  | removed id (some step) => [("instance_id", id), ("step", step)]
  | unmet step requirement takenBack =>
    [("step", step), ("requirement", requirement), ("released", toString takenBack)]
  | lastResort step requirement id warning =>
    [("step", step), ("requirement", requirement), ("instance_id", id), ("warning", warning)]
  | unlistedCapability requirement capability =>
    [("requirement", requirement), ("capability", capability)]
  | cycle kind repetition => [("definition", kind), ("cycle_at", repetition)]
  | duplicateInstance id | absentInstance id => [("instance_id", id)]
  | unknownKind id kind => [("instance_id", id), ("definition", kind)]
  | malformedEntry heading index why =>
    [("section", heading), ("index", toString index), ("error", why)]
  | updateRejected why => [("error", why)]
  | attemptFailed step strategy attempt why =>
    [("step", step), ("execution_type", strategy.name), ("attempt", toString attempt),
      ("reason", why)]
  | runAbandoned run begun => [("execution_id", run), ("steps_started", toString begun)]
  | runFailed run step why => [("execution_id", run), ("step", step), ("error", why)]
  | _ => []

end Notice

end Foreman
