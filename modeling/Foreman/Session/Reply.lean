import Foreman.Executor
import Foreman.Definition.Playbook
import Foreman.Notice
import Foreman.Report
import Foreman.Run.Record
import Foreman.Store.Instance
import Foreman.Definition.Capability
import Foreman.Definition.ResourceKind
/-!
# Replies

A reply holds the answer to a command and what else there is to say about it: the instances as they
stand afterwards, if the command was about them; what was asked by executors in the meantime, with
the replies they got; and the alarms.

## Main definitions

* `Foreman.Answer`: the answer to a command.
* `Foreman.Reply`: everything there is to say about a command.
-/

namespace Foreman

/-- The answer to a command. -/
inductive Answer where
  /-- It was done. -/
  | done
  /-- Yes or no. -/
  | flag (b : Bool)
  /-- A text. -/
  | text (s : String)
  /-- Names or ids. -/
  | texts (items : List String)
  /-- What a manifest brought. -/
  | report (r : ManifestReport)
  /-- A kind of resource, if there is one. -/
  | kind (k : Option ResourceKind)
  /-- What a kind offers, if it is known. -/
  | characteristics (c : Option Characteristics)
  /-- The capabilities that kinds offer. -/
  | offers (index : List (String × List String))
  /-- An instance, if there is one. -/
  | oneInstance (i : Option Instance)
  /-- Instances. -/
  | instances (is : List Instance)
  /-- What a step was given. -/
  | allotment (a : Allotment)
  /-- The instances in figures. -/
  | utilization (u : Utilization)
  /-- An entry of the catalogue, if there is one. -/
  | entry (e : Option CatalogEntry)
  /-- Entries of the catalogue. -/
  | entries (es : List CatalogEntry)
  /-- Responsibilities. -/
  | responsibilities (rs : List Responsibility)
  /-- The catalogue in figures. -/
  | marketInfo (i : MarketInfo)
  /-- A policy. -/
  | policy (p : Policy)
  /-- How a step got done. -/
  | result (r : StepResult)
  /-- What the executor of a name answered. -/
  | response (name : String) (r : Response)
  /-- The inputs of the calls of an executor that follows a script. -/
  | calls (received : Option (List Bindings))
  /-- A playbook. -/
  | playbook (p : Playbook)
  /-- A run, if there is one. -/
  | run (r : Option RunRecord)
  /-- Runs. -/
  | runs (rs : List RunRecord)
  /-- A step of a run, if there is one. -/
  | step (s : Option StepRecord)
  /-- What a step holds, if there is one. -/
  | holdings (ids : Option (List String))
  /-- Everything in figures. -/
  | stats (s : Stats)
  /-- It was not done. -/
  | failed (f : Failure)
  /-- The details of the command did not fit. -/
  | misfit (why : Misfit)
  /-- There is no executor of that label. -/
  | noWorker
  /-- The command was not understood. -/
  | unknown
  /-- There is nothing to tell. -/
  | nothing
  deriving Inhabited

/-- What an executor asked in the course of one of its calls. -/
structure Interlude (ρ : Type u) where
  /-- The label of the executor. -/
  label : String
  /-- The number of the call, from one. -/
  call : Nat
  /-- The replies it got. -/
  replies : List ρ
  deriving Inhabited

/-- Everything there is to say about a command. -/
inductive Reply where
  /-- The answer; the instances, if the command was about them; what executors asked in the
  meantime; and the alarms. -/
  | mk (answer : Answer) (instances : Option (List Instance)) (interludes : List (Interlude Reply))
    (alarms : List Notice)
  deriving Inhabited

end Foreman
