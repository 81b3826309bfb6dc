import Foreman.Definition.Field
/-!
# Capabilities and responsibilities

A capability describes work that can be done: its inputs, its outputs and, in free words, how. A
responsibility is a capability that is watched over, continuously, from time to time or when
something happens. Both are kept in one catalogue, where an entry is one or the other.

## Main definitions

* `Foreman.Capability`, `Foreman.Monitoring`, `Foreman.Responsibility`: the records.
* `Foreman.CatalogEntry`: a capability or a responsibility.
-/

namespace Foreman

/-- Work that can be done. -/
structure Capability where
  /-- The name, by which the catalogue knows it. -/
  name : String
  /-- What it does. -/
  description : String := ""
  /-- How it is done, in free words. -/
  method : String := ""
  /-- What goes in. -/
  inputs : List Field := []
  /-- What comes out. -/
  outputs : List Field := []
  /-- The version, if it has one. -/
  version : Option String := none
  /-- Who provides it, if that is said. -/
  provider : Option String := none
  /-- Words it is filed under. -/
  tags : List String := []
  deriving Inhabited

namespace Capability

/-- What the record of a capability is called, and its fields. -/
def shape : Shape :=
  ⟨"struct CapabilityDefinition",
    ["name", "description", "method", "inputs", "outputs", "version", "provider", "tags"]⟩

/-- A capability; `buffered` if the document was set aside before. -/
def read (buffered : Bool) (d : Document) : Except Misfit Capability := do
  let form ← Form.of? shape buffered d
  form.close <|
    mk <$> form.may "name" "" Document.asText
      <*> form.may "description" "" Document.asText
      <*> form.may "method" "" Document.asText
      <*> form.may "inputs" [] (Document.asList (Field.read buffered))
      <*> form.may "outputs" [] (Document.asList (Field.read buffered))
      <*> form.may "version" none (Document.asOptional Document.asText)
      <*> form.may "provider" none (Document.asOptional Document.asText)
      <*> form.may "tags" [] (Document.asList Document.asText)

/-- The members of the record of a capability; an absent version or provider is left out. -/
def members (c : Capability) : List (String × Option Json) :=
  [("name", some (.text c.name)), ("description", some (.text c.description)),
    ("method", some (.text c.method)), ("inputs", some (.list (Field.jsonAll c.inputs))),
    ("outputs", some (.list (Field.jsonAll c.outputs))), ("version", c.version.map .text),
    ("provider", c.provider.map .text), ("tags", some (.texts c.tags))]

/-- A capability as an open value. -/
def json (c : Capability) : Json :=
  .record c.members

end Capability

/-- When a responsibility is looked at. -/
inductive Monitoring where
  /-- All the time. -/
  | continuous
  /-- From time to time. -/
  | periodic
  /-- When something happens. -/
  | eventDriven
  deriving DecidableEq, Repr, Inhabited

namespace Monitoring

/-- The names of the modes. -/
def known : List (String × Monitoring) :=
  [("continuous", continuous), ("periodic", periodic), ("event-driven", eventDriven)]

/-- The name of a mode. -/
def name : Monitoring → String
  | continuous => "continuous"
  | periodic => "periodic"
  | eventDriven => "event-driven"

/-- A mode, by its name. -/
def read : Document → Except Misfit Monitoring :=
  Document.asName known

/-- A mode as an open value. -/
def json (m : Monitoring) : Json :=
  .text m.name

end Monitoring

/-- A capability that is watched over. -/
structure Responsibility where
  /-- The capability. -/
  capability : Capability
  /-- When it is looked at. -/
  monitoring : Monitoring := .continuous
  deriving Inhabited

namespace Responsibility

/-- What the record of a responsibility is called, and the fields beside those of its capability. -/
def shape : Shape :=
  ⟨"struct ResponsibilityDefinition", ["monitoring_type"]⟩

/-- A responsibility. The fields of its capability stand among its own. -/
def read (d : Document) : Except Misfit Responsibility := do
  let form ← Form.named? shape d
  let rest ← form.rest.aside
  let monitoring ← form.close (form.may "monitoring_type" .continuous Monitoring.read)
  let capability ← Capability.read true rest
  return ⟨capability, monitoring⟩

/-- A responsibility as an open value. -/
def json (r : Responsibility) : Json :=
  .record (r.capability.members ++ [("monitoring_type", some r.monitoring.json)])

end Responsibility

/-- An entry of the catalogue. -/
inductive CatalogEntry where
  /-- A capability. -/
  | capability (c : Capability)
  /-- A responsibility. -/
  | responsibility (r : Responsibility)
  deriving Inhabited

namespace CatalogEntry

/-- The capability of an entry, watched over or not. -/
def described : CatalogEntry → Capability
  | capability c => c
  | responsibility r => r.capability

/-- The name of an entry. -/
def name (e : CatalogEntry) : String :=
  e.described.name

/-- When an entry is looked at, if it is a responsibility. -/
def monitoring? : CatalogEntry → Option Monitoring
  | capability _ => none
  | responsibility r => some r.monitoring

/-- The names of the two kinds. -/
def kinds : List (String × Bool) :=
  [("capability", false), ("responsibility", true)]

/-- An entry, whose kind is its tag. -/
def read (d : Document) : Except Misfit CatalogEntry := do
  let (tag, rest) ← d.untag "kind" "internally tagged enum CatalogEntry"
  if ← tag.asTag kinds false then return responsibility (← Responsibility.read rest)
  else return capability (← Capability.read true rest)

/-- An entry as an open value. -/
def json : CatalogEntry → Json
  | capability c => .record (("kind", some (.text "capability")) :: c.members)
  | responsibility r =>
    .record (("kind", some (.text "responsibility")) ::
      r.capability.members ++ [("monitoring_type", some r.monitoring.json)])

end CatalogEntry

end Foreman
