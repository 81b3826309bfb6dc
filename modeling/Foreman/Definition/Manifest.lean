import Foreman.Definition.Capability
import Foreman.Definition.ResourceKind
/-!
# Manifests

A manifest lists capabilities, responsibilities and kinds of resources. Read *strictly*, one entry
that does not fit refuses the whole manifest. Read *tolerantly*, entries that do not fit are set
aside with their section, their place in it and the reason, and the others are kept in order.

## Main definitions

* `Foreman.Manifest`: the entries, and those set aside.
* `Foreman.Manifest.strict`, `Foreman.Manifest.tolerant`: the two readings.
* `Foreman.Section.read`: one section, entry by entry.

## Main results

* `Foreman.Section.length_read`: every entry of a section is either kept or set aside.
-/

namespace Foreman

/-- An entry of a manifest that was set aside. -/
structure Rejection where
  /-- The name of the section. -/
  heading : String
  /-- The place in the section, from zero. -/
  index : Nat
  /-- Why it does not fit, if that is told. -/
  why : Option Misfit

namespace Rejection

/-- Where the entry stood. -/
def place (r : Rejection) : String :=
  r.heading ++ "[" ++ toString r.index ++ "]"

/-- Why the entry does not fit, in words. -/
def reason (r : Rejection) : String :=
  (r.why.map Misfit.message).getD ""

/-- Where the entry stood and, if that is told, why it does not fit. -/
def line (r : Rejection) : String :=
  if r.why.isSome then r.place ++ ": " ++ r.reason else r.place

end Rejection

/-- A section of a manifest, after its entries have been read one by one. -/
structure Section (α : Type u) where
  /-- The entries that fit, in order. -/
  kept : List α
  /-- The others, in order. -/
  rejected : List Rejection

namespace Section

variable {α : Type u}

/-- The entries of a section from a place on, read one by one. -/
def readFrom (name : String) (read : Document → Except Misfit α) :
    Nat → List Document → Section α
  | _, [] => ⟨[], []⟩
  | i, d :: rest =>
    let after := readFrom name read (i + 1) rest
    match read d with
    | .ok a => ⟨a :: after.kept, after.rejected⟩
    | .error why => ⟨after.kept, ⟨name, i, some why⟩ :: after.rejected⟩

/-- The entries of a section, read one by one. -/
def read (name : String) (read : Document → Except Misfit α) (ds : List Document) : Section α :=
  readFrom name read 0 ds

/-- Every entry of a section is either kept or set aside. -/
theorem length_read (name : String) (r : Document → Except Misfit α) (ds : List Document) :
    (Section.read name r ds).kept.length + (Section.read name r ds).rejected.length =
      ds.length := by
  suffices ∀ i, (readFrom name r i ds).kept.length + (readFrom name r i ds).rejected.length =
      ds.length from this 0
  induction ds with
  | nil => intro i; rfl
  | cons d rest ih =>
    intro i
    have := ih (i + 1)
    simp only [readFrom]
    split <;> simp <;> omega

end Section

/-- Capabilities, responsibilities and kinds of resources, to be registered together. -/
structure Manifest where
  /-- The capabilities. -/
  capabilities : List Capability := []
  /-- The responsibilities. -/
  responsibilities : List Responsibility := []
  /-- The kinds of resources. -/
  resources : List ResourceKind := []
  /-- The entries that were set aside. -/
  rejected : List Rejection := []
  deriving Inhabited

namespace Manifest

/-- A manifest of which no entry is set aside. -/
def strictShape : Shape :=
  ⟨"struct RuntimeDefinitions", ["capabilities", "responsibilities", "resources"]⟩

/-- A manifest all of whose entries fit. -/
def strict (d : Document) : Except Misfit Manifest := do
  let form ← Form.of? strictShape false d
  form.close <|
    (fun cs rs ks => ⟨cs, rs, ks, []⟩)
      <$> form.may "capabilities" [] (Document.asList (Capability.read false))
      <*> form.may "responsibilities" [] (Document.asList Responsibility.read)
      <*> form.may "resources" [] (Document.asList ResourceKind.read)

/-- What a manifest is called whose entries are read one by one, and its sections. -/
def tolerantShape : Shape :=
  ⟨"struct RawDefinitions", ["capabilities", "responsibilities", "resources"]⟩

/-- A manifest whose entries that do not fit are set aside. Before they are read as records the
entries are prepared, which may refuse the whole manifest. -/
def tolerant (prepare : Document → Except Misfit Document) (d : Document) :
    Except Misfit Manifest := do
  let form ← Form.of? tolerantShape false d
  let sections ← form.close <|
    (fun cs rs ks => (cs, rs, ks))
      <$> form.may "capabilities" [] (Document.asList prepare)
      <*> form.may "responsibilities" [] (Document.asList prepare)
      <*> form.may "resources" [] (Document.asList prepare)
  let capabilities := Section.read "capabilities" (Capability.read false) sections.1
  let responsibilities := Section.read "responsibilities" Responsibility.read sections.2.1
  let resources := Section.read "resources" ResourceKind.read sections.2.2
  return ⟨capabilities.kept, responsibilities.kept, resources.kept,
    capabilities.rejected ++ responsibilities.rejected ++ resources.rejected⟩

/-- A manifest that does not tell why entries were set aside. -/
def terse (m : Manifest) : Manifest :=
  { m with rejected := m.rejected.map fun r => { r with why := none } }

/-- A manifest as an open value; what was set aside is not part of it. -/
def json (m : Manifest) : Json :=
  .record
    [("capabilities", some (.list (m.capabilities.map Capability.json))),
      ("responsibilities", some (.list (m.responsibilities.map Responsibility.json))),
      ("resources", some (.list (m.resources.map ResourceKind.json)))]

end Manifest

end Foreman
