import Foreman.Definition.ResourceKind
import Foreman.Matching
/-!
# Lineages

The lineage of a kind of resource is the kind itself, the kind it extends, the kind that one extends
and so on, until a kind is not known or would come up a second time. What a kind offers under a key
is what the nearest kind of its lineage says there.

Each kind is taken out of the table as it is visited, so the table gets smaller with every step and
no kind comes up twice.

## Main definitions

* `Foreman.Kinds`: the kinds of resources, by name.
* `Foreman.Kinds.lineage`, `Foreman.Kinds.repetition?`: the lineage of a name, and the name that
  would have come up a second time.
* `Foreman.Kinds.effective`: what a kind offers, all told.
* `Foreman.Kinds.advertised`: the capabilities that each kind offers.
-/

namespace Foreman

/-- The kinds of resources, by name. -/
abbrev Kinds := Table ResourceKind

namespace Kinds

/-- The lineage of a name, the kind of that name first. -/
def lineage (kinds : Kinds) (name : String) : List ResourceKind :=
  match _h : kinds.get? name with
  | none => []
  | some k =>
    k :: match k.parent with
      | none => []
      | some parent => lineage (kinds.erase name) parent
termination_by kinds.size
decreasing_by exact kinds.size_erase_lt _h

/-- The name at which a lineage ends, if it does not end with a kind that extends none. -/
def lineageEnd? (kinds : Kinds) (name : String) : Option String :=
  match _h : kinds.get? name with
  | none => some name
  | some k =>
    match k.parent with
    | none => none
    | some parent => lineageEnd? (kinds.erase name) parent
termination_by kinds.size
decreasing_by exact kinds.size_erase_lt _h

/-- The name that would have come up a second time, if the lineage ends there. -/
def repetition? (kinds : Kinds) (name : String) : Option String :=
  (lineageEnd? kinds name).filter kinds.contains

/-- What a kind offers, all told: what it says itself laid over what the kinds after it in its
lineage say. -/
def effective (kinds : Kinds) (name : String) : Characteristics :=
  (lineage kinds name).foldr (fun k rest => k.own.overlay rest) .empty

/-- The capabilities that each kind offers, in the order of the names. -/
def advertised (kinds : Kinds) : List (String × List String) :=
  kinds.keys.map fun name => (name, Characteristics.advertised (kinds.effective name))

end Kinds

end Foreman
