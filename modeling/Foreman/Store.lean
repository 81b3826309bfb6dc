import Foreman.Notice
import Foreman.Store.Allotment
import Foreman.Store.Instance
import Foreman.Store.Lineage
/-!
# The store

The store knows the kinds of resources and the instances, in the order in which these were
registered. Its operations say what they note besides what they do.

## Main definitions

* `Foreman.Store`: kinds and instances.
* `Foreman.Store.define`, `Foreman.Store.register`, `Foreman.Store.remove`, `Foreman.Store.retire`,
  `Foreman.Store.reinstate`, `Foreman.Store.clear`: what its owner does.
* `Foreman.Store.release`: a step gives back what it holds.
* `Foreman.Store.heldBy`, `Foreman.Store.utilization`: who holds what.
-/

namespace Foreman

/-- The kinds of resources and the instances. -/
structure Store where
  /-- The kinds, by name. -/
  kinds : Kinds := .empty
  /-- The instances, in the order of registration. -/
  instances : List Instance := []
  deriving Inhabited

namespace Store

/-! ### Kinds -/

/-- The note that the lineage of a kind comes round, if it does. -/
def cycleNotices (kinds : Kinds) (name : String) : List Notice :=
  (kinds.repetition? name).toList.map (.cycle name)

/-- The notes that lineages come round, for all kinds. -/
def allCycleNotices (kinds : Kinds) : List Notice :=
  kinds.keys.flatMap (cycleNotices kinds)

/-- A kind is described, for the first time or anew. -/
def define (s : Store) (k : ResourceKind) : Store :=
  { s with kinds := s.kinds.insert k.name k }

/-! ### Instances -/

/-- The instance of an id. -/
def instance? (s : Store) (id : String) : Option Instance :=
  s.instances.find? fun i => i.id = id

/-- Whether there is an instance of an id. -/
def has (s : Store) (id : String) : Bool :=
  (s.instance? id).isSome

/-- A change of the instance of an id. -/
def modify (s : Store) (id : String) (f : Instance → Instance) : Store :=
  { s with instances := s.instances.map fun i => if i.id = id then f i else i }

/-- The id that a new instance is to have: the text it gives as its own id or else one made of the
kind and a fresh mark. -/
def idFor (kind : String) (attributes : Bindings) (fresh : String) : String :=
  match attributes.get? "id" with
  | some (.text id) => if id.isEmpty then kind ++ "-" ++ fresh else id
  | _ => kind ++ "-" ++ fresh

/-- An instance is registered, unless its id is taken. -/
def register (s : Store) (id kind : String) (attributes : Bindings) (now : Timestamp) :
    Except Failure String × Store × List Notice :=
  if s.has id then (.error (.duplicateInstance id), s, [.duplicateInstance id])
  else
    (.ok id, { s with instances := s.instances ++ [.fresh id kind attributes now] },
      (if s.kinds.contains kind then [] else [.unknownKind id kind]) ++ [.registered id])

/-- An instance is removed. -/
def remove (s : Store) (id : String) : Bool × Store × List Notice :=
  match s.instance? id with
  | none => (false, s, [.absentInstance id])
  | some i =>
    (true, { s with instances := s.instances.filter fun i => i.id ≠ id }, [.removed id i.holder])

/-- An instance that no step holds is taken out of rotation. -/
def retire (s : Store) (id : String) : Bool × Store :=
  match s.instance? id with
  | some i =>
    if i.status = .allocated then (false, s)
    else (true, s.modify id fun i => { i with status := .unavailable })
  | none => (false, s)

/-- An instance that is out of rotation is put back. -/
def reinstate (s : Store) (id : String) : Bool × Store :=
  match s.instance? id with
  | some i =>
    if i.status = .unavailable then
      (true, s.modify id fun i => { i with status := .available })
    else (false, s)
  | none => (false, s)

/-- All instances are removed; the kinds are kept. -/
def clear (s : Store) : Store :=
  { s with instances := [] }

/-! ### Holders -/

/-- The instances that a step holds, by their ids. -/
def heldBy (s : Store) (step : String) : List String :=
  (s.instances.filter (·.isHeldBy step)).map Instance.id

/-- A step gives back what it holds. -/
def release (s : Store) (step : String) : List String × Store :=
  ((s.instances.filter fun i => i.isHeldBy step && i.status = .allocated).map Instance.id,
    { s with instances := s.instances.map fun i => if i.isHeldBy step then i.release else i })

/-- The instances of some ids are taken back, whoever holds them. -/
def takeBack (s : Store) (ids : List String) : Store :=
  ids.foldl (fun s id => s.modify id Instance.release) s

/-- The number of instances in a state. -/
def count (s : Store) (status : Status) : Nat :=
  s.instances.countP fun i => i.status = status

/-- The instances by state, in figures. -/
def utilization (s : Store) : Utilization where
  total := s.instances.length
  allocated := s.count .allocated
  available := s.count .available
  unavailable := s.count .unavailable
  rate :=
    if s.instances.isEmpty then 0
    else Float.ofNat (s.count .allocated) / Float.ofNat s.instances.length

end Store

end Foreman
