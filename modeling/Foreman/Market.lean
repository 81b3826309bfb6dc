import Foreman.Definition.Capability
import Foreman.Definition.Requirement
import Foreman.Matching
import Foreman.Notice
import Foreman.Report
/-!
# The catalogue

The catalogue lists capabilities and responsibilities by name, the later entry of a name replacing
the earlier. Beside it stands an index of the kinds of resources that offer each capability. If it
is told to, the catalogue remembers the entries it has looked up and counts how often its memory
answered.

## Main definitions

* `Foreman.Market`: catalogue, index and memory.
* `Foreman.Market.register`, `Foreman.Market.resolve`: an entry is filed, and looked up.
* `Foreman.Market.replaceProviders`, `Foreman.Market.providersFor`: the index is replaced, and
  consulted.
* `Foreman.Market.unlisted`: the capabilities that requirements ask for and that are not listed.
-/

namespace Foreman

/-- The catalogue, the index beside it, and its memory. -/
structure Market where
  /-- The entries, by name. -/
  catalogue : Table CatalogEntry := .empty
  /-- The capabilities that each kind of resource offers, where it offers any. -/
  providers : Table (List String) := .empty
  /-- The entries looked up so far, if they are remembered. -/
  memory : Option (Table CatalogEntry) := none
  /-- The look-ups answered from memory. -/
  hits : Nat := 0
  /-- The look-ups that were not. -/
  misses : Nat := 0
  deriving Inhabited

namespace Market

/-- An empty catalogue; `caching` if look-ups are to be remembered. -/
def new (caching : Bool) : Market :=
  { memory := if caching then some .empty else none }

/-- An entry is filed under its name. Whether the name is new. -/
def register (m : Market) (e : CatalogEntry) : Bool × Market :=
  (!m.catalogue.contains e.name,
    { m with
      catalogue := m.catalogue.insert e.name e
      memory := m.memory.map (·.erase e.name) })

/-- The entry of a name is looked up. -/
def resolve (m : Market) (name : String) : Option CatalogEntry × Market :=
  match m.memory with
  | none => (m.catalogue.get? name, m)
  | some memory =>
    match memory.get? name with
    | some e => (some e, { m with hits := m.hits + 1 })
    | none =>
      match m.catalogue.get? name with
      | none => (none, { m with misses := m.misses + 1 })
      | some e =>
        (some e, { m with misses := m.misses + 1, memory := some (memory.insert name e) })

/-- Whether a name is listed. -/
def isKnown (m : Market) (name : String) : Bool :=
  m.catalogue.contains name

/-- Whether nothing is listed. -/
def isEmpty (m : Market) : Bool :=
  m.catalogue.isEmpty

/-- The index is replaced; kinds that offer nothing are left out of it. -/
def replaceProviders (m : Market) (index : List (String × List String)) : Market :=
  { m with providers := Table.ofList (index.filter fun e => !e.2.isEmpty) }

/-- The kinds of resources that offer a capability, in the order of their names. -/
def providersFor (m : Market) (capability : String) : List String :=
  (m.providers.filter fun _ offered => offered.contains capability).keys

/-- The entries, in the order of their names. -/
def list (m : Market) : List CatalogEntry :=
  m.catalogue.values

/-- The responsibility that an entry is, if it is one that is looked at in a mode. -/
def watched? (mode : Monitoring) : CatalogEntry → Option Responsibility
  | .responsibility r => if r.monitoring = mode then some r else none
  | .capability _ => none

/-- The responsibilities that are looked at in a mode, in the order of their names. -/
def byMonitoring (m : Market) (mode : Monitoring) : List Responsibility :=
  m.list.filterMap (watched? mode)

/-- The catalogue in figures. -/
def info (m : Market) : MarketInfo where
  entries := m.catalogue.size
  responsibilities := m.list.countP fun e => e.monitoring?.isSome
  providers := m.providers.size
  caching := m.memory.isSome
  hits := m.hits
  misses := m.misses

/-- The capabilities that a preference asks for. -/
def referenced : Preference → List String
  | .specific _ => []
  | .matching matcher | .emergency matcher _ => Characteristics.advertised matcher

/-- The notes that requirements ask for capabilities which are not listed. None are made while
nothing is listed at all. -/
def unlisted (m : Market) (requirements : List Requirement) : List Notice :=
  if m.isEmpty then []
  else
    requirements.flatMap fun r =>
      (r.chain.flatMap referenced).filterMap fun capability =>
        if m.isKnown capability then none else some (.unlistedCapability r.name capability)

end Market

end Foreman
