import Foreman.Store
/-!
# Allocation

A step is given one instance for each of its requirements, or nothing at all. The requirements are
met one after another. For each, its preferences are tried in order, and the first that some
available instance satisfies is met with the earliest registered of these instances. If none of its
preferences can be met, the instances given for earlier requirements are taken back.

What a kind offers is worked out once in the course of an allocation and then remembered.

## Main definitions

* `Foreman.Store.specific?`, `Foreman.Store.firstMatching`: the instance that satisfies a
  preference.
* `Foreman.Allocation`: an allocation under way.
* `Foreman.Store.allocate`: what a step is given, and the store afterwards.
-/

namespace Foreman

namespace Store

/-- The instance of a name, if it is available; if there is no instance of that name, the first
available instance of the kind of that name. -/
def specific? (s : Store) (name : String) : Option Instance :=
  match s.instance? name with
  | some i => if i.isAvailable then some i else none
  | none => s.instances.find? fun i => i.kind = name && i.isAvailable

/-- What kinds have been found to offer. -/
abbrev Memory := Table Characteristics

/-- What a kind offers, from memory or worked out, with the memory and the notes afterwards. -/
def recollect (kinds : Kinds) (memory : Memory) (kind : String) :
    Characteristics × Memory × List Notice :=
  match memory.get? kind with
  | some offered => (offered, memory, [])
  | none => (kinds.effective kind, memory.insert kind (kinds.effective kind),
      cycleNotices kinds kind)

/-- The first available instance that a matcher accepts, with the memory and the notes
afterwards. -/
def firstMatching (kinds : Kinds) (matcher : Characteristics) :
    Memory → List Instance → Option Instance × Memory × List Notice
  | memory, [] => (none, memory, [])
  | memory, i :: rest =>
    if i.isAvailable then
      let (offered, memory, notices) := recollect kinds memory i.kind
      if matcher.accepts offered then (some i, memory, notices)
      else
        let (found, memory, more) := firstMatching kinds matcher memory rest
        (found, memory, notices ++ more)
    else firstMatching kinds matcher memory rest

end Store

/-- An allocation under way. -/
structure Allocation where
  /-- The store, with what has been given. -/
  store : Store
  /-- What kinds have been found to offer. -/
  memory : Store.Memory := .empty
  /-- What has been given. -/
  given : Allotment
  /-- What has been noted. -/
  notices : List Notice := []

namespace Allocation

/-- The instance that satisfies a preference. -/
def candidate (a : Allocation) (p : Preference) : Option Instance × Allocation :=
  let matching (matcher : Characteristics) : Option Instance × Allocation :=
    let (found, memory, notices) :=
      Store.firstMatching a.store.kinds matcher a.memory a.store.instances
    (found, { a with memory, notices := a.notices ++ notices })
  match p with
  | .specific name => (a.store.specific? name, a)
  | .matching matcher => matching matcher
  | .emergency matcher _ => matching matcher

/-- The first preference that some instance satisfies, with that instance. -/
def choose (a : Allocation) : List Preference → Option (Instance × Preference) × Allocation
  | [] => (none, a)
  | p :: rest =>
    match a.candidate p with
    | (some i, a) => (some (i, p), a)
    | (none, a) => choose a rest

/-- An instance is given for a requirement. -/
def give (a : Allocation) (requirement : String) (i : Instance) (p : Preference) : Allocation :=
  let warned : List (String × Notice) :=
    match p with
    | .emergency _ warning => [(warning, .lastResort a.given.step requirement i.id warning)]
    | _ => []
  { a with
    store := a.store.modify i.id (·.grant a.given.step)
    given :=
      { a.given with
        assignments := a.given.assignments ++ [⟨requirement, i.id, i.kind, p.kind⟩]
        warnings := a.given.warnings ++ warned.map (·.1) }
    notices := a.notices ++ warned.map (·.2) }

/-- The requirements are met one after another, up to the first that cannot be. -/
def meet (a : Allocation) : List Requirement → Option Requirement × Allocation
  | [] => (none, a)
  | r :: rest =>
    match a.choose r.chain with
    | (some (i, p), a) => (a.give r.name i p).meet rest
    | (none, a) => (some r, a)

end Allocation

/-- A step is given one instance for each of its requirements, or nothing. -/
def Store.allocate (s : Store) (step : String) (requirements : List Requirement) :
    Except Failure Allotment × Store × List Notice :=
  match ({ store := s, given := { step } } : Allocation).meet requirements with
  | (none, a) => (.ok a.given, a.store, a.notices ++ [.granted step a.given.instanceIds])
  | (some r, a) =>
    (.error (.unmet step r.name), a.store.takeBack a.given.instanceIds,
      a.notices ++ [.unmet step r.name a.given.assignments.length])

end Foreman
