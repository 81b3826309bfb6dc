import Foreman.Characteristic
import Foreman.Document.Form
/-!
# Kinds of resources

A kind of resource is a template: it says what every instance of it offers. A kind may extend
another; what it says itself then counts before what that other kind says.

## Main definitions

* `Foreman.ResourceKind`: a template with a name, a parent and characteristics of its own.
-/

namespace Foreman

/-- A template for resources. -/
structure ResourceKind where
  /-- The name. -/
  name : String
  /-- The kind that it extends, by name. -/
  parent : Option String := none
  /-- What it says itself. -/
  own : Characteristics := .empty
  deriving Inhabited

namespace ResourceKind

/-- What the record of a kind is called, and its fields. -/
def shape : Shape :=
  ⟨"struct ResourceDefinition", ["name", "extends", "characteristics"]⟩

/-- A kind of resource. -/
def read (d : Document) : Except Misfit ResourceKind := do
  let form ← Form.of? shape false d
  form.close <|
    mk <$> form.may "name" "" Document.asText
      <*> form.may "extends" none (Document.asOptional Document.asText)
      <*> form.may "characteristics" .empty Characteristics.read

/-- A kind of resource as an open value; an absent parent is left out. -/
def json (k : ResourceKind) : Json :=
  .record
    [("name", some (.text k.name)), ("extends", k.parent.map .text),
      ("characteristics", some (Characteristics.json k.own))]

end ResourceKind

end Foreman
