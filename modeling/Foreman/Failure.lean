import Foreman.Policy
import Foreman.Text.Quoted
import Foreman.Trail
/-!
# Failures

Whatever can go wrong has a cause, and each cause has one wording. The wording of a text or a file
that cannot be read names only what kind of text it was.

## Main definitions

* `Foreman.Failure`: the causes.
* `Foreman.Failure.message`: their wording.
-/

namespace Foreman

/-- Why something was not done. -/
inductive Failure where
  /-- A requirement of a step was not met by any of its preferences. -/
  | unmet (step requirement : String)
  /-- No strategy got a step done; the trail says what became of each. -/
  | exhausted (step reason : String) (trail : List TrailEntry)
  /-- An instance of that id is registered already. -/
  | duplicateInstance (id : String)
  /-- There is no playbook of that name. -/
  | noPlaybook (name : String)
  /-- No playbook can have that name. -/
  | badName (name : String)
  /-- A policy under which every step would fail. -/
  | flawedPolicy (flaw : Policy.Flaw)
  /-- A configuration with a time that the configuration format cannot hold. -/
  | unwritableTime
  /-- Everything has been shut down. -/
  | shutDown
  /-- A file that cannot be read. -/
  | unreadableFile
  /-- An interchange text that does not say what it should. -/
  | unreadableJson
  /-- A text of nested blocks that does not say what it should. -/
  | unreadableYaml
  /-- A configuration text that does not say what it should. -/
  | unreadableToml
  deriving DecidableEq, Repr

namespace Failure

/-- The wording of a failure. -/
def message : Failure → String
  | unmet step requirement =>
    "Unable to allocate a resource for requirement '" ++ requirement ++ "' in step '" ++ step ++ "'"
  | exhausted _ reason _ => reason
  | duplicateInstance id => "Resource instance '" ++ id ++ "' is already registered"
  | noPlaybook name => "Playbook not found: " ++ name
  | badName name => "Definition loader error: Invalid playbook name: " ++ Text.quoted name
  | flawedPolicy flaw => "Configuration error: " ++ flaw.message
  | unwritableTime =>
    "Configuration error: Failed to serialize config: out-of-range value for u64 type"
  | shutDown => "Runtime has been shut down"
  | unreadableFile => "IO error"
  | unreadableJson => "JSON error"
  | unreadableYaml => "YAML error"
  | unreadableToml => "TOML error"

/-- Whether resources were lacking. -/
def isAllocation : Failure → Bool
  | unmet _ _ => true
  | _ => false

/-- Whether every strategy failed. -/
def isExecution : Failure → Bool
  | exhausted _ _ _ => true
  | _ => false

end Failure

end Foreman
