import Foreman.Document.Form
import Foreman.Timestamp
/-!
# Instances

An instance is a resource that exists: it belongs to a kind, which it knows by name, and is either
available, held by a step, or taken out of rotation by its owner.

## Main definitions

* `Foreman.Status`: the three states of an instance.
* `Foreman.Instance`: a resource that exists.
* `Foreman.Instance.grant`, `Foreman.Instance.release`: it is given to a step, and given back.
-/

namespace Foreman

/-- The states of an instance. -/
inductive Status where
  /-- A step may have it. -/
  | available
  /-- A step holds it. -/
  | allocated
  /-- Its owner has taken it out of rotation. -/
  | unavailable
  deriving DecidableEq, Repr, Inhabited

namespace Status

/-- The names of the states. -/
def known : List (String × Status) :=
  [("available", available), ("allocated", allocated), ("unavailable", unavailable)]

/-- The name of a state. -/
def name : Status → String
  | available => "available"
  | allocated => "allocated"
  | unavailable => "unavailable"

/-- A state, by its name. -/
def read : Document → Except Misfit Status :=
  Document.asName known

/-- A state as an open value. -/
def json (s : Status) : Json :=
  .text s.name

end Status

/-- A resource that exists. -/
structure Instance where
  /-- The name it is known by. -/
  id : String
  /-- The kind it belongs to, by name. -/
  kind : String
  /-- Its state. -/
  status : Status
  /-- What was said about it when it was registered. -/
  attributes : Bindings
  /-- The step that holds it. -/
  holder : Option String
  /-- When it was registered. -/
  registered : Timestamp
  deriving Inhabited

namespace Instance

/-- An instance that a step may have. -/
def fresh (id kind : String) (attributes : Bindings) (registered : Timestamp) : Instance :=
  ⟨id, kind, .available, attributes, none, registered⟩

/-- Whether a step may have it. -/
def isAvailable (i : Instance) : Bool :=
  i.status = .available

/-- Whether a step holds it. -/
def isHeldBy (i : Instance) (step : String) : Bool :=
  i.holder = some step

/-- An instance, given to a step. -/
def grant (i : Instance) (step : String) : Instance :=
  { i with status := .allocated, holder := some step }

/-- An instance, given back if it was held. -/
def release (i : Instance) : Instance :=
  if i.status = .allocated then { i with status := .available, holder := none } else i

/-- What the record of an instance is called, and its fields. -/
def shape : Shape :=
  ⟨"struct ResourceInstance",
    ["id", "definition", "status", "attributes", "allocated_to", "registered_at"]⟩

/-- An instance. -/
def read (d : Document) : Except Misfit Instance := do
  let form ← Form.of? shape false d
  form.close <|
    mk <$> form.need "id" Document.asText
      <*> form.need "definition" Document.asText
      <*> form.need "status" Status.read
      <*> form.need "attributes" Document.asBindings
      <*> form.maybe "allocated_to" Document.asText
      <*> form.need "registered_at" Timestamp.read

/-- The members of the record of an instance, without the time. -/
def members (i : Instance) : List (String × Option Json) :=
  [("id", some (.text i.id)), ("definition", some (.text i.kind)), ("status", some i.status.json),
    ("attributes", some (.ofTable i.attributes)),
    ("allocated_to", some (.ofOption .text i.holder))]

/-- An instance as an open value. -/
def json (i : Instance) : Json :=
  .record (i.members ++ [("registered_at", some i.registered.json)])

end Instance

end Foreman
