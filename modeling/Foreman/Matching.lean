import Foreman.Characteristic
import Foreman.Comparator
/-!
# Matching

A matcher asks for something under each of its keys. A resource satisfies it if it offers what is
asked for under every one of them; what it offers besides does not matter.

* A text that spells a condition asks for a number that meets it; any other text asks for itself.
* A list of texts asks for a list in which each of them occurs.
* A number asks for a number that differs from it by less than the least step above one.
* A flag asks for itself.
* Any other value asks for something that nothing offers.

## Main definitions

* `Foreman.Characteristic.accepts`: what is asked for under one key against what is offered there.
* `Foreman.Characteristics.accepts`: a matcher against what a resource offers.
* `Foreman.Characteristics.advertised`: the capabilities that a resource offers.

## Main results

* `Foreman.Characteristic.accepts_condition_iff`, `Foreman.Characteristic.accepts_text_iff` and
  their siblings: what is accepted, one statement for each kind of value that is asked for.
* `Foreman.Characteristics.accepts_iff`: a matcher, key by key.
-/

namespace Foreman

/-- The distance from one to the next number, two to the power of minus fifty-two. -/
def leastStep : Float :=
  Float.ofBits 0x3CB0000000000000

/-- Whether what is offered under a key is what is asked for there. -/
def Characteristic.accepts (asked : Characteristic) (offered : Option Characteristic) : Bool :=
  match asked, offered with
  | .text s, offered =>
    match Comparator.parse? s, offered with
    | some (c, threshold), some (.number x) => c.holds x threshold
    | some _, _ => false
    | none, some (.text t) => s = t
    | none, _ => false
  | .list wanted, some (.list items) => wanted.all items.contains
  | .number x, some (.number y) => (y - x).abs < leastStep
  | .flag a, some (.flag b) => a = b
  | _, _ => false

/-! ### What is accepted -/

namespace Characteristic

variable {offered : Option Characteristic}

theorem accepts_flag_iff {a : Bool} :
    (flag a).accepts offered = true ↔ offered = some (flag a) := by
  match offered with
  | some (.flag b) => simp [accepts, eq_comm]
  | some (.number _) | some (.text _) | some (.list _) | some (.other _) | none => simp [accepts]

theorem accepts_number_iff {x : Float} :
    (number x).accepts offered = true ↔
      ∃ y, offered = some (number y) ∧ (y - x).abs < leastStep := by
  match offered with
  | some (.number y) => simp [accepts]
  | some (.flag _) | some (.text _) | some (.list _) | some (.other _) | none => simp [accepts]

/-- A text that spells a condition accepts the numbers that meet it. -/
theorem accepts_condition_iff {s : String} {c : Comparator} {threshold : Float}
    (h : Comparator.parse? s = some (c, threshold)) :
    (text s).accepts offered = true ↔
      ∃ x, offered = some (number x) ∧ c.holds x threshold = true := by
  match offered with
  | some (.number x) => simp [accepts, h]
  | some (.flag _) | some (.text _) | some (.list _) | some (.other _) | none => simp [accepts, h]

/-- A text that spells no condition accepts itself. -/
theorem accepts_text_iff {s : String} (h : Comparator.parse? s = none) :
    (text s).accepts offered = true ↔ offered = some (text s) := by
  match offered with
  | some (.text t) => simp [accepts, h, eq_comm]
  | some (.flag _) | some (.number _) | some (.list _) | some (.other _) | none =>
    simp [accepts, h]

theorem accepts_list_iff {wanted : List String} :
    (list wanted).accepts offered = true ↔
      ∃ items, offered = some (list items) ∧ wanted ⊆ items := by
  match offered with
  | some (.list items) => simp [accepts, List.subset_def]
  | some (.flag _) | some (.number _) | some (.text _) | some (.other _) | none => simp [accepts]

@[simp] theorem accepts_other (v : Json) : (other v).accepts offered = false := by
  cases offered <;> rfl

end Characteristic

namespace Characteristics

/-- Whether what is asked for under every key of a matcher is offered. -/
def accepts (matcher offered : Characteristics) : Bool :=
  matcher.entries.all fun e => e.2.accepts (offered.get? e.1)

theorem accepts_iff {matcher offered : Characteristics} :
    matcher.accepts offered = true ↔
      ∀ key asked, matcher.get? key = some asked → asked.accepts (offered.get? key) = true := by
  simp only [accepts, List.all_eq_true, Prod.forall, Table.get?_eq_some_iff]

/-- The key under which a resource lists its capabilities. -/
def capabilitiesKey : String :=
  "capabilities"

/-- The capabilities that a resource offers, in the order in which it lists them. -/
def advertised (c : Characteristics) : List String :=
  match c.get? capabilitiesKey with
  | some (.list items) => items
  | _ => []

end Characteristics

end Foreman
