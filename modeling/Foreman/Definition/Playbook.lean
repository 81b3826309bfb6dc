import Foreman.Definition.Field
import Foreman.Definition.Requirement
/-!
# Playbooks

A playbook is a list of steps, done one after another. A step says what has to be done in free
words, which resources it needs, what goes into it and what comes out of it.

## Main definitions

* `Foreman.Step`, `Foreman.Playbook`: the records.
-/

namespace Foreman

/-- A piece of work. -/
structure Step where
  /-- The name. -/
  name : String
  /-- What has to be done, in free words. -/
  method : String := ""
  /-- The roles that resources have to fill. -/
  requirements : List Requirement := []
  /-- What goes in. -/
  inputs : List Field := []
  /-- What comes out. -/
  outputs : List Field := []
  deriving Inhabited

namespace Step

/-- What the record of a step is called, and its fields. -/
def shape : Shape :=
  ⟨"struct StepDefinition", ["name", "method", "requirements", "inputs", "outputs"]⟩

/-- A step. -/
def read (d : Document) : Except Misfit Step := do
  let form ← Form.of? shape false d
  form.close <|
    mk <$> form.may "name" "" Document.asText
      <*> form.may "method" "" Document.asText
      <*> form.may "requirements" [] (Document.asList Requirement.read)
      <*> form.may "inputs" [] (Document.asList (Field.read false))
      <*> form.may "outputs" [] (Document.asList (Field.read false))

/-- A step as an open value. -/
def json (s : Step) : Json :=
  .record
    [("name", some (.text s.name)), ("method", some (.text s.method)),
      ("requirements", some (.list (s.requirements.map Requirement.json))),
      ("inputs", some (.list (Field.jsonAll s.inputs))),
      ("outputs", some (.list (Field.jsonAll s.outputs)))]

end Step

/-- Steps to be done one after another. -/
structure Playbook where
  /-- The name. -/
  name : String
  /-- What it is for. -/
  description : String := ""
  /-- The steps, in order. -/
  steps : List Step := []
  deriving Inhabited

namespace Playbook

/-- What the record of a playbook is called, and its fields. -/
def shape : Shape :=
  ⟨"struct PlaybookDefinition", ["name", "description", "steps"]⟩

/-- A playbook. -/
def read (d : Document) : Except Misfit Playbook := do
  let form ← Form.of? shape false d
  form.close <|
    mk <$> form.may "name" "" Document.asText
      <*> form.may "description" "" Document.asText
      <*> form.may "steps" [] (Document.asList Step.read)

/-- A playbook as an open value. -/
def json (p : Playbook) : Json :=
  .record
    [("name", some (.text p.name)), ("description", some (.text p.description)),
      ("steps", some (.list (p.steps.map Step.json)))]

end Playbook

end Foreman
