import Foreman.Characteristic
import Foreman.Document.Form
/-!
# Requirements

A requirement names a role within a step and says which resources may fill it: a list of
preferences, tried in order. A requirement without preferences may say directly what it asks for;
one that does neither cannot be met.

## Main definitions

* `Foreman.Preference`: a named resource, a matcher, or a matcher of last resort with a warning.
* `Foreman.Requirement`: a role and its preferences.
* `Foreman.Requirement.chain`: the preferences that are tried.
-/

namespace Foreman

/-- The three kinds of preferences. -/
inductive PreferenceKind where
  /-- A named resource. -/
  | specific
  /-- Any resource that matches. -/
  | matching
  /-- Any resource that matches, as a last resort. -/
  | emergency
  deriving DecidableEq, Repr, Inhabited

namespace PreferenceKind

/-- The names of the kinds. -/
def known : List (String × PreferenceKind) :=
  [("specific", specific), ("characteristics", matching), ("emergency", emergency)]

/-- The name of a kind. -/
def name : PreferenceKind → String
  | specific => "specific"
  | matching => "characteristics"
  | emergency => "emergency"

/-- A kind, by its name. -/
def read : Document → Except Misfit PreferenceKind :=
  Document.asName known

/-- A kind as an open value. -/
def json (k : PreferenceKind) : Json :=
  .text k.name

end PreferenceKind

/-- One of the ways to meet a requirement. -/
inductive Preference where
  /-- The instance of that name or, where there is none, any instance of the kind of that name. -/
  | specific (name : String)
  /-- Any instance that the matcher accepts. -/
  | matching (matcher : Characteristics)
  /-- Any instance that the matcher accepts; the step is given the warning. -/
  | emergency (matcher : Characteristics) (warning : String)
  deriving Inhabited

namespace Preference

/-- The kind of a preference. -/
def kind : Preference → PreferenceKind
  | specific _ => .specific
  | matching _ => .matching
  | emergency _ _ => .emergency

/-- What the record of an alternative is called, and its fields. -/
def shape : PreferenceKind → Shape
  | .specific => ⟨"struct variant PriorityItem::Specific", ["specific"]⟩
  | .matching => ⟨"struct variant PriorityItem::Characteristics", ["characteristics"]⟩
  | .emergency => ⟨"struct variant PriorityItem::Emergency", ["characteristics", "warning"]⟩

/-- A preference, whose kind is its tag. -/
def read (d : Document) : Except Misfit Preference := do
  let (tag, rest) ← d.untag "type" "internally tagged enum PriorityItem"
  let kind ← tag.asTag PreferenceKind.known false
  let form ← Form.of? (shape kind) true rest
  match kind with
  | .specific => form.close (specific <$> form.need "specific" Document.asText)
  | .matching => form.close (matching <$> form.need "characteristics" Characteristics.read)
  | .emergency =>
    form.close <|
      emergency <$> form.need "characteristics" Characteristics.read
        <*> form.need "warning" Document.asText

/-- A preference as an open value. -/
def json (p : Preference) : Json :=
  .record <| ("type", some p.kind.json) ::
    match p with
    | specific name => [("specific", some (.text name))]
    | matching matcher => [("characteristics", some (Characteristics.json matcher))]
    | emergency matcher warning =>
      [("characteristics", some (Characteristics.json matcher)), ("warning", some (.text warning))]

end Preference

/-- A role within a step that some resource has to fill. -/
structure Requirement where
  /-- The name of the role. -/
  name : String
  /-- What is asked for where there are no preferences. -/
  direct : Option Characteristics := none
  /-- The preferences. -/
  preferences : List Preference := []
  deriving Inhabited

namespace Requirement

/-- The preferences that are tried, in order: those given or, where there are none, what is asked
for directly. -/
def chain (r : Requirement) : List Preference :=
  if r.preferences.isEmpty then (r.direct.map .matching).toList else r.preferences

/-- What the record of a requirement is called, and its fields. -/
def shape : Shape :=
  ⟨"struct Requirement", ["name", "characteristics", "priority"]⟩

/-- A requirement. -/
def read (d : Document) : Except Misfit Requirement := do
  let form ← Form.of? shape false d
  form.close <|
    mk <$> form.may "name" "" Document.asText
      <*> form.may "characteristics" none (Document.asOptional Characteristics.read)
      <*> form.may "priority" [] (Document.asList Preference.read)

/-- A requirement as an open value; an absent matcher is left out. -/
def json (r : Requirement) : Json :=
  .record
    [("name", some (.text r.name)), ("characteristics", r.direct.map Characteristics.json),
      ("priority", some (.list (r.preferences.map Preference.json)))]

end Requirement

end Foreman
