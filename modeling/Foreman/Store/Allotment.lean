import Foreman.Definition.Requirement
/-!
# Allotments

An allotment is what a step is given: one instance for every requirement, in the order of the
requirements, and the warnings of the matchers of last resort that were used. The use that is made
of all instances is reported in figures.

## Main definitions

* `Foreman.Assignment`: one requirement and the instance that meets it.
* `Foreman.Allotment`: what a step is given.
* `Foreman.Utilization`: the instances by state, in figures.
-/

namespace Foreman

/-- One requirement and the instance that meets it. -/
structure Assignment where
  /-- The requirement, by name. -/
  requirement : String
  /-- The instance, by its id. -/
  instanceId : String
  /-- The kind of the instance, by name. -/
  kind : String
  /-- The kind of preference that was met. -/
  matchedBy : PreferenceKind
  deriving DecidableEq, Repr, Inhabited

namespace Assignment

/-- What the record of an assignment is called, and its fields. -/
def shape : Shape :=
  ⟨"struct Allocation", ["requirement", "instance_id", "definition", "matched_by"]⟩

/-- An assignment. -/
def read (d : Document) : Except Misfit Assignment := do
  let form ← Form.of? shape false d
  form.close <|
    mk <$> form.need "requirement" Document.asText
      <*> form.need "instance_id" Document.asText
      <*> form.need "definition" Document.asText
      <*> form.need "matched_by" PreferenceKind.read

/-- An assignment as an open value. -/
def json (a : Assignment) : Json :=
  .record
    [("requirement", some (.text a.requirement)), ("instance_id", some (.text a.instanceId)),
      ("definition", some (.text a.kind)), ("matched_by", some a.matchedBy.json)]

end Assignment

/-- What a step is given. -/
structure Allotment where
  /-- The step, by its id. -/
  step : String
  /-- One assignment for every requirement, in their order. -/
  assignments : List Assignment := []
  /-- The warnings of the matchers of last resort that were used. -/
  warnings : List String := []
  deriving DecidableEq, Repr, Inhabited

namespace Allotment

/-- The instances given, by their ids. -/
def instanceIds (a : Allotment) : List String :=
  a.assignments.map Assignment.instanceId

/-- What the record of an allotment is called, and its fields. -/
def shape : Shape :=
  ⟨"struct AllocationResult", ["step_id", "allocations", "warnings"]⟩

/-- An allotment. -/
def read (d : Document) : Except Misfit Allotment := do
  let form ← Form.of? shape false d
  form.close <|
    mk <$> form.need "step_id" Document.asText
      <*> form.need "allocations" (Document.asList Assignment.read)
      <*> form.need "warnings" (Document.asList Document.asText)

/-- The members of the record of an allotment. -/
def members (a : Allotment) : List (String × Option Json) :=
  [("step_id", some (.text a.step)),
    ("allocations", some (.list (a.assignments.map Assignment.json))),
    ("warnings", some (.texts a.warnings))]

/-- An allotment as an open value. -/
def json (a : Allotment) : Json :=
  .record a.members

end Allotment

/-- The instances by state, in figures. -/
structure Utilization where
  /-- All instances. -/
  total : Nat
  /-- Those that a step holds. -/
  allocated : Nat
  /-- Those that a step may have. -/
  available : Nat
  /-- Those taken out of rotation. -/
  unavailable : Nat
  /-- The part of all instances that steps hold; zero where there are none. -/
  rate : Float
  deriving Inhabited

namespace Utilization

/-- What the record of the figures is called, and its fields. -/
def shape : Shape :=
  ⟨"struct ResourceUtilization",
    ["total_resources", "allocated_resources", "available_resources", "unavailable_resources",
      "utilization_rate"]⟩

/-- The figures. -/
def read (d : Document) : Except Misfit Utilization := do
  let form ← Form.of? shape false d
  form.close <|
    mk <$> form.need "total_resources" Document.asSize
      <*> form.need "allocated_resources" Document.asSize
      <*> form.need "available_resources" Document.asSize
      <*> form.need "unavailable_resources" Document.asSize
      <*> form.need "utilization_rate" Document.asNumber

/-- The figures as an open value. -/
def json (u : Utilization) : Json :=
  .record
    [("total_resources", some (.int u.total)), ("allocated_resources", some (.int u.allocated)),
      ("available_resources", some (.int u.available)),
      ("unavailable_resources", some (.int u.unavailable)),
      ("utilization_rate", some (.ofFloat u.rate))]

end Utilization

end Foreman
