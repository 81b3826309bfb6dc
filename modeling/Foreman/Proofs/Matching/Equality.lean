import Foreman.Proofs.Number.Spacing
/-!
# Matching by equality

Flags, numbers and texts that spell no condition ask for themselves. A flag and such a text accept
what equals them and nothing else. A number accepts the numbers that are within reach of it. Those
that equal it are among them; beyond one there are no others, and up to one there always are.

## Main definitions

* `Foreman.Characteristic.Equals`: two values of one kind that are equal.
* `Foreman.Characteristic.Near`: finite numbers within reach of each other.
* `Foreman.Characteristic.AsksForItself`: what is matched by neither a condition nor a subset.

## Main results

* `Foreman.Characteristic.accepts_iff_equals_or_near`: what is accepted by what asks for itself.
* `Foreman.Characteristic.near_imp_equals_iff`: when no number but the one asked for is near it.
* `Foreman.Characteristic.accepted_are_equal_iff_beyond_one`: both in one.
-/

namespace Foreman.Characteristic

open Number

/-- The two are of one kind and equal. Numbers are equal as numbers are, zero to zero whatever the
signs. -/
inductive Equals : Characteristic → Characteristic → Prop
  | refl (c : Characteristic) : Equals c c
  | number {x y : Float} (h : (x == y) = true) : Equals (number x) (number y)

/-- The other value is a finite number, within reach of the one. -/
inductive Near : Characteristic → Characteristic → Prop
  | number {x y : Float} (hfinite : y.isFinite = true) (h : |value y - value x| < reach) :
    Near (number x) (number y)

/-- The value is matched by neither a condition nor a subset, and is of a kind that can be
offered. -/
inductive AsksForItself : Characteristic → Prop
  | flag (b : Bool) : AsksForItself (flag b)
  | number {x : Float} (hfinite : x.isFinite = true) : AsksForItself (number x)
  | text {s : String} (hplain : Comparator.parse? s = none) : AsksForItself (text s)

variable {x : Float} {asked c : Characteristic}

theorem equals_flag_iff {b : Bool} : (flag b).Equals c ↔ c = flag b :=
  ⟨fun h => by cases h; rfl, fun h => h ▸ .refl _⟩

theorem equals_text_iff {s : String} : (text s).Equals c ↔ c = text s :=
  ⟨fun h => by cases h; rfl, fun h => h ▸ .refl _⟩

theorem equals_number_iff (hx : x.isFinite = true) :
    (number x).Equals c ↔ ∃ y : Float, c = number y ∧ (x == y) = true := by
  have hself : (x == x) = true := Float.beq_self_iff.2 fun h => by
    rw [h] at hx
    exact absurd hx (by decide)
  constructor
  · intro h
    cases h with
    | refl => exact ⟨x, rfl, hself⟩
    | number h => exact ⟨_, rfl, h⟩
  · rintro ⟨y, rfl, h⟩
    exact .number h

theorem near_number_iff :
    (number x).Near c ↔
      ∃ y : Float, c = number y ∧ y.isFinite = true ∧ |value y - value x| < reach :=
  ⟨fun h => by cases h with | number hfinite h => exact ⟨_, rfl, hfinite, h⟩,
    fun ⟨_, hc, hfinite, h⟩ => hc ▸ .number hfinite h⟩

/-- What equals a finite number is near it. -/
theorem near_of_equals (hx : x.isFinite = true) (h : (number x).Equals c) : (number x).Near c := by
  obtain ⟨y, rfl, hxy⟩ := (equals_number_iff hx).1 h
  refine .number ((isFinite_eq_of_beq hxy).symm.trans hx) ?_
  rw [value_eq_of_beq hxy, sub_self, abs_zero]
  exact reach_pos

/-! ### What is accepted by what asks for itself -/

/-- A finite number accepts the finite numbers within reach. -/
theorem accepts_number_iff_near (hx : x.isFinite = true) {offered : Option Characteristic} :
    (number x).accepts offered = true ↔ ∃ c ∈ offered, (number x).Near c := by
  simp only [accepts_number_iff, abs_sub_lt_leastStep_iff, hx, true_and, near_number_iff]
  constructor
  · rintro ⟨y, hy, hnear⟩
    exact ⟨number y, hy, y, rfl, hnear⟩
  · rintro ⟨c, hc, y, rfl, hnear⟩
    exact ⟨y, hc, hnear⟩

/-- What asks for itself accepts what equals it, and the numbers near it. -/
theorem accepts_iff_equals_or_near (hasked : asked.AsksForItself)
    (offered : Option Characteristic) :
    asked.accepts offered = true ↔ ∃ c ∈ offered, asked.Equals c ∨ asked.Near c := by
  cases hasked with
  | flag b =>
    have hnear (c : Characteristic) : ¬ (flag b).Near c := nofun
    simp [accepts_flag_iff, equals_flag_iff, hnear]
  | number hx =>
    rw [accepts_number_iff_near hx]
    exact exists_congr fun c => and_congr_right fun _ =>
      ⟨.inr, fun h => h.elim (near_of_equals hx) id⟩
  | @text s hplain =>
    have hnear (c : Characteristic) : ¬ (text s).Near c := nofun
    simp [accepts_text_iff hplain, equals_text_iff, hnear]

/-- A finite number has no other number near it if and only if it is beyond one. -/
theorem near_imp_equals_iff (hx : x.isFinite = true) :
    (∀ c, (number x).Near c → (number x).Equals c) ↔ 1 < |value x| := by
  constructor
  · intro h
    by_contra hone
    obtain ⟨y, hy, hne, hreach⟩ := exists_within_reach hx (not_lt.1 hone)
    obtain ⟨z, hz, hxz⟩ := (equals_number_iff hx).1 (h _ (.number hy hreach))
    rw [← number.inj hz] at hxz
    exact hne (value_eq_of_beq hxz).symm
  · intro hone c hnear
    obtain ⟨y, rfl, hy, hreach⟩ := near_number_iff.1 hnear
    exact .number ((beq_iff_value_eq hx hy).2 (value_eq_of_reach hone hreach).symm)

/-- Nothing but equal values is accepted if and only if only equal values are near. -/
theorem accepts_iff_equals_iff (hasked : asked.AsksForItself) :
    (∀ offered, asked.accepts offered = true ↔ ∃ c ∈ offered, asked.Equals c) ↔
      ∀ c, asked.Near c → asked.Equals c := by
  simp only [accepts_iff_equals_or_near hasked]
  constructor
  · intro h c hnear
    obtain ⟨d, hd, hequals⟩ := (h (some c)).1 ⟨c, rfl, .inr hnear⟩
    exact Option.some.inj hd ▸ hequals
  · intro h offered
    exact exists_congr fun c => and_congr_right fun _ => ⟨fun hc => hc.elim id (h c), .inl⟩

/-- What asks for itself accepts what equals it, and besides only finite numbers near it. It accepts
nothing but what equals it if and only if it is no number up to one. -/
theorem accepted_are_equal_iff_beyond_one (hasked : asked.AsksForItself) :
    (∀ offered, asked.accepts offered = true ↔
      ∃ c ∈ offered, asked.Equals c ∨ asked.Near c) ∧
    ((∀ offered, asked.accepts offered = true ↔ ∃ c ∈ offered, asked.Equals c) ↔
      ∀ x, asked = number x → 1 < |value x|) := by
  refine ⟨accepts_iff_equals_or_near hasked, (accepts_iff_equals_iff hasked).trans ?_⟩
  cases hasked with
  | flag b => exact iff_of_true nofun nofun
  | text hplain => exact iff_of_true nofun nofun
  | @number x hx =>
    rw [near_imp_equals_iff hx]
    exact ⟨fun h y heq => number.inj heq ▸ h, fun h => h x rfl⟩

theorem accepted_are_equal_iff_beyond_one_weight :
    (number 2.5).AsksForItself ∧ 1 < |value 2.5| ∧
      ∀ offered, (number 2.5).accepts offered = true ↔ ∃ c ∈ offered, (number 2.5).Equals c := by
  have hasked : (number 2.5).AsksForItself := .number (by decide)
  have hunpack : (2.5 : Float).toModel.unpack = .finite .positive (5 * 2 ^ 50) (-51) (by decide) :=
    rfl
  have hbeyond : 1 < |value 2.5| := by
    rw [value, hunpack, abs_amount_finite]
    norm_num
  refine ⟨hasked, hbeyond, (accepted_are_equal_iff_beyond_one hasked).2.2 fun x hx => ?_⟩
  rwa [← number.inj hx]

/-- A small number accepts another one, although the two are not equal. -/
theorem small_number_accepts_another :
    (number 1e-17).AsksForItself ∧
      ¬ ((number 1e-17).accepts (some (number 2e-17)) = true ↔
        ∃ c ∈ some (number 2e-17), (number 1e-17).Equals c) := by
  refine ⟨.number (by decide), fun h => ?_⟩
  obtain ⟨c, hc, hequals⟩ := h.1 (by decide)
  obtain rfl := Option.some.inj hc
  obtain ⟨y, hy, heq⟩ := (equals_number_iff (by decide)).1 hequals
  rw [← number.inj hy] at heq
  exact absurd heq (by decide)

end Foreman.Characteristic
