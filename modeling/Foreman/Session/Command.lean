import Foreman.Definition.Text
import Foreman.Executor
/-!
# Commands

A command is one thing that somebody asks of a workshop. Executors may be given commands of their
own: while an executor is at work, it may ask for things itself, and the step it works for is still
under way meanwhile.

## Main definitions

* `Foreman.Command`: what can be asked.
* `Foreman.WorkerSpec`: an executor to be taken on, with the commands it gives.
* `Foreman.Command.interludes`: how many lists of commands are given within a command.
-/

namespace Foreman

/-- An executor to be taken on. -/
structure WorkerSpec (κ : Type u) where
  /-- What it does. -/
  work : Work
  /-- What it asks for in the course of each of its calls. -/
  interludes : List (List κ)
  deriving Inhabited

/-- Where a manifest comes from. -/
inductive ManifestSource where
  /-- It is given. -/
  | given (m : Manifest)
  /-- It is written as a text. -/
  | text (format : Format) (s : String)

/-- How a run is referred to. -/
inductive RunRef where
  /-- By its place among the runs that are over. -/
  | past (index : Nat)
  /-- By its place among the runs under way. -/
  | active (index : Nat)
  /-- By its id. -/
  | id (id : String)
  deriving DecidableEq, Repr, Inhabited

/-- What is to be described for somebody who looks for faults. -/
inductive Subject where
  /-- The store. -/
  | resources
  /-- The catalogue. -/
  | capabilities
  /-- The policy and the executors. -/
  | engine
  /-- The library. -/
  | loader
  /-- A computing executor of a name. -/
  | routine (name : String)
  /-- Everything. -/
  | everything
  deriving DecidableEq, Repr, Inhabited

/-- What can be asked of a workshop. -/
inductive Command where
  /-- A manifest is to be registered. -/
  | registerManifest (source : ManifestSource)
  /-- A kind of resource is described. -/
  | define (k : ResourceKind)
  /-- The description of a kind is asked for. -/
  | definition (name : String)
  /-- What a kind offers, all told, is asked for. -/
  | effective (name : String)
  /-- The capabilities that the kinds offer are asked for. -/
  | advertised
  /-- An instance is registered; other commands may then refer to it by a nickname. -/
  | register (kind : String) (attributes : Bindings) (nickname : Option String)
  /-- An instance is removed. -/
  | remove (id : String)
  /-- An instance is taken out of rotation. -/
  | retire (id : String)
  /-- An instance is put back into rotation. -/
  | reinstate (id : String)
  /-- An instance is asked for. -/
  | getInstance (id : String)
  /-- All instances are asked for. -/
  | listInstances
  /-- A step is to be given what it requires. -/
  | allocate (step : String) (requirements : List Requirement)
  /-- A step gives back what it holds. -/
  | release (step : String)
  /-- What a step holds is asked for. -/
  | heldBy (step : String)
  /-- The instances in figures are asked for. -/
  | utilization
  /-- All instances are removed. -/
  | clear
  /-- An entry is filed in the catalogue. -/
  | file (e : CatalogEntry)
  /-- An entry of the catalogue is looked up. -/
  | resolve (name : String)
  /-- Whether a name is listed is asked for. -/
  | isKnown (name : String)
  /-- Whether nothing is listed is asked for. -/
  | isEmpty
  /-- The index of the catalogue is replaced. -/
  | replaceProviders (index : List (String × List String))
  /-- The kinds that offer a capability are asked for. -/
  | providersFor (capability : String)
  /-- The same is asked of the catalogue that is not the workshop's own. -/
  | foreignProvidersFor (capability : String)
  /-- The entries of the catalogue are asked for. -/
  | listCapabilities
  /-- The responsibilities looked at in a mode are asked for. -/
  | byMonitoring (mode : Monitoring)
  /-- The catalogue in figures is asked for. -/
  | marketInfo
  /-- An executor is taken on for a strategy, and labelled. -/
  | seat (strategy : Strategy) (worker : WorkerSpec Command) (label : String)
  /-- Whether somebody follows a strategy is asked for. -/
  | isSeated (strategy : Strategy)
  /-- The policy is asked for. -/
  | policy
  /-- The policy is changed. -/
  | updatePolicy (u : PolicyUpdate)
  /-- A step is to be got done. -/
  | executeStep (step method : String) (inputs : Bindings)
  /-- An executor is handed a request directly. -/
  | callWorker (label step method : String) (inputs : Bindings)
  /-- The calls of an executor that follows a script are asked for. -/
  | callsOf (label : String)
  /-- A playbook is put on the shelf. -/
  | insertPlaybook (p : Playbook)
  /-- The names of the playbooks are asked for. -/
  | playbookNames
  /-- A playbook is asked for. -/
  | loadPlaybook (name : String)
  /-- A playbook is run. -/
  | executePlaybook (name : String) (input : Bindings)
  /-- The runs that are over are asked for. -/
  | history
  /-- The runs under way are asked for. -/
  | listActive
  /-- A run is asked for. -/
  | getRun (run : RunRef)
  /-- A step of a run is asked for. -/
  | getStep (run : RunRef) (step : String)
  /-- What the last step of a run holds is asked for. -/
  | activeAllocations (run : RunRef)
  /-- Everything in figures is asked for. -/
  | stats
  /-- Everything is shut down. -/
  | shutdown
  /-- Whether everything has been shut down is asked for. -/
  | isShutDown
  /-- A description is asked for. -/
  | describe (subject : Subject)
  /-- A command whose details do not fit, for the reason given; whether it was about instances. -/
  | misfit (aboutInstances : Bool) (why : Misfit)
  /-- Something nobody understands. -/
  | unknown
  deriving Inhabited

namespace Command

/-- Whether a command may change which instances there are or who holds them, by itself. -/
def aboutInstances : Command → Bool
  | register _ _ _ | remove _ | allocate _ _ | release _ | retire _ | reinstate _ | clear
  | shutdown => true
  | misfit aboutInstances _ => aboutInstances
  | _ => false

mutual

/-- How many lists of commands are given within a command, at any depth. -/
def interludes : Command → Nat
  | seat _ worker _ => workerInterludes worker
  | _ => 0

/-- How many lists of commands are given within the description of an executor. -/
def workerInterludes : WorkerSpec Command → Nat
  | ⟨_, lists⟩ => listInterludes lists

/-- How many lists of commands are given by some lists and within them. -/
def listInterludes : List (List Command) → Nat
  | [] => 0
  | commands :: rest => 1 + allInterludes commands + listInterludes rest

/-- How many lists of commands are given within some commands. -/
def allInterludes : List Command → Nat
  | [] => 0
  | c :: rest => interludes c + allInterludes rest

end

end Command

end Foreman
