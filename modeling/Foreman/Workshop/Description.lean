import Foreman.Workshop
/-!
# Descriptions

Short descriptions of a workshop and its parts, for somebody who looks for faults: a name, and in
braces some figures.

## Main definitions

* `Foreman.Description`: a name and some details.
* `Foreman.Workshop.describe`: the description of a part.
-/

namespace Foreman

/-- A name, some details, and whether there are others. -/
structure Description where
  /-- The name. -/
  name : String
  /-- The details, named. -/
  details : List (String × String)
  /-- Whether there are others. -/
  more : Bool

namespace Description

/-- The text of a description. -/
def text (d : Description) : String :=
  let details := d.details.map fun (name, value) => name ++ ": " ++ value
  let details := if d.more then details ++ [".."] else details
  d.name ++ " \x7b " ++ String.intercalate ", " details ++ " \x7d"

/-- The text of a flag. -/
def flag (b : Bool) : String :=
  if b then "true" else "false"

end Description

namespace Workshop

/-- The description of the store. -/
def describeStore (w : Workshop) : Description :=
  ⟨"ResourceManager",
    [("instance_count", toString w.store.instances.length),
      ("marketplace", Description.flag w.consulted?.isSome)], true⟩

/-- The description of the catalogue. -/
def describeMarket (w : Workshop) : Description :=
  ⟨"CapabilityResolver",
    [("capability_count", toString w.market.catalogue.size),
      ("cache_enabled", Description.flag w.market.memory.isSome)], true⟩

/-- The description of the executors. -/
def describeSeats (w : Workshop) : Description :=
  ⟨"ExecutionManager", [("executor_count", toString w.seats.length)], true⟩

/-- The description of a part; a folder has none. -/
def describe (w : Workshop) : Subject → Option Description
  | .resources => some w.describeStore
  | .capabilities => some w.describeMarket
  | .engine => some w.describeSeats
  | .loader =>
    w.library.names?.map fun names =>
      ⟨"InMemoryDefinitionLoader", [("playbook_count", toString names.length)], false⟩
  | .routine name => some ⟨"FnExecutor", [("name", Text.quoted name)], true⟩
  | .everything =>
    some
      ⟨"BusyRuntime",
        [("resources", w.describeStore.text), ("capabilities", w.describeMarket.text),
          ("execution", w.describeSeats.text),
          ("active_executions", toString w.ledger.active.length),
          ("shut_down", Description.flag w.ledger.closed)], true⟩

end Workshop

end Foreman
