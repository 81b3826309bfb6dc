import Foreman.Proofs.Matching.Equality
/-!
# Monotonicity of matching

If a resource satisfies a matcher, then a resource that offers at least as much satisfies every
matcher that asks for no more. To offer at least as much is to offer the same under every key, or a
list with more texts in it; to ask for no more is to ask for the same under fewer keys.

## Main definitions

* `Foreman.Table.Within`: every entry of a table has its counterpart in another one.
* `Foreman.Characteristic.Same`, `Foreman.Characteristic.AtMost`: the same value, and the same value
  or a longer list.

## Main results

* `Foreman.Comparator.holds_congr`: equal numbers meet the same conditions.
* `Foreman.Characteristic.accepts_of_same`, `Foreman.Characteristic.accepts_of_atMost`:
  monotonicity under one key.
* `Foreman.Characteristics.accepts_of_within`: monotonicity of matching.
* `Foreman.Characteristics.accepts_mono`: the same, and what no resource satisfies.
-/

namespace Foreman

/-- Every entry of a table has a counterpart under the same key of the other one. -/
def Table.Within (r : α → α → Prop) (t u : Table α) : Prop :=
  ∀ key a, t.get? key = some a → ∃ b, u.get? key = some b ∧ r a b

theorem Table.within_iff {r : α → α → Prop} {t u : Table α} :
    t.Within r u ↔ ∀ e ∈ t.entries, ∃ b, u.get? e.1 = some b ∧ r e.2 b := by
  simp only [Within, get?_eq_some_iff, Prod.forall]

/-- Equal numbers stand in the same orders to a threshold. -/
theorem Comparator.holds_congr {x y : Float} (h : (x == y) = true) (c : Comparator)
    (threshold : Float) : c.holds x threshold = c.holds y threshold := by
  obtain ⟨hleft, hright⟩ := Number.compare_eq_of_beq h threshold.toModel.unpack
  cases c <;> simp only [holds, Number.lt_iff_compare, Number.le_iff_compare, hleft, hright]

namespace Characteristic

open Number

/-- The two are equal, or neither is of a kind that is matched. -/
inductive Same : Characteristic → Characteristic → Prop
  | equals {c d : Characteristic} (h : c.Equals d) : Same c d
  | other (v w : Json) : Same (other v) (other w)

/-- The two are the same, or the second is a list that has every text of the first. -/
inductive AtMost : Characteristic → Characteristic → Prop
  | same {c d : Characteristic} (h : c.Same d) : AtMost c d
  | list {items more : List String} (h : items ⊆ more) : AtMost (list items) (list more)

variable {x y : Float} {asked tighter offered richer : Characteristic}

/-! ### Equal numbers -/

/-- Equal numbers are asked for alike. -/
theorem accepts_asked_number (h : (x == y) = true) (offer : Option Characteristic) :
    (number x).accepts offer = (number y).accepts offer := by
  rw [Bool.eq_iff_iff]
  simp only [accepts_number_iff, abs_sub_lt_leastStep_iff, isFinite_eq_of_beq h, value_eq_of_beq h]

/-- Equal numbers are accepted alike. -/
theorem accepts_offered_number (h : (x == y) = true) (asked : Characteristic) :
    asked.accepts (some (number x)) = asked.accepts (some (number y)) := by
  cases asked with
  | flag | list | other => rfl
  | number z =>
    rw [Bool.eq_iff_iff]
    simp [accepts_number_iff, abs_sub_lt_leastStep_iff, isFinite_eq_of_beq h, value_eq_of_beq h]
  | text s =>
    cases hparse : Comparator.parse? s with
    | none => simp only [accepts, hparse]
    | some condition => simp only [accepts, hparse, Comparator.holds_congr h]

/-! ### One key -/

/-- A text accepts numbers or itself, and nothing else. -/
theorem eq_some_of_accepts_text {s : String} {offer : Option Characteristic}
    (h : (text s).accepts offer = true) :
    (∃ x, offer = some (number x)) ∨ offer = some (text s) := by
  cases hparse : Comparator.parse? s with
  | none => exact .inr ((accepts_text_iff hparse).1 h)
  | some condition =>
    obtain ⟨x, hx, -⟩ := (accepts_condition_iff hparse).1 h
    exact .inl ⟨x, hx⟩

theorem not_accepts_other (asked : Characteristic) (v : Json) :
    ¬ asked.accepts (some (other v)) = true := by
  intro h
  cases asked with
  | text s => obtain ⟨x, hx⟩ | hx := eq_some_of_accepts_text h <;> cases hx
  | _ => cases h

/-- What is accepted by a value is accepted by the same value. -/
theorem accepts_of_same (h : asked.Same tighter) {offer : Option Characteristic}
    (haccepts : tighter.accepts offer = true) : asked.accepts offer = true := by
  cases h with
  | equals h =>
    cases h with
    | refl => exact haccepts
    | number h => rwa [accepts_asked_number h]
  | other v w => simp at haccepts

/-- What accepts a value accepts every value that is at least as much. -/
theorem accepts_of_atMost (h : offered.AtMost richer)
    (haccepts : asked.accepts (some offered) = true) : asked.accepts (some richer) = true := by
  cases h with
  | same h =>
    cases h with
    | equals h =>
      cases h with
      | refl => exact haccepts
      | number h => rwa [← accepts_offered_number h]
    | other v w => exact absurd haccepts (not_accepts_other asked v)
  | @list items more hsubset =>
    -- only a list of texts accepts a list
    cases asked with
    | list wanted =>
      obtain ⟨l, hl, hwanted⟩ := accepts_list_iff.1 haccepts
      rw [← Characteristic.list.inj (Option.some.inj hl)] at hwanted
      exact accepts_list_iff.2 ⟨more, rfl, List.Subset.trans hwanted hsubset⟩
    | text s => obtain ⟨x, hx⟩ | hx := eq_some_of_accepts_text haccepts <;> cases hx
    | _ => cases haccepts

/-- What is asked for under a key of a matcher that accepts something is offered. -/
theorem isSome_of_accepts {offer : Option Characteristic} (h : asked.accepts offer = true) :
    offer.isSome = true := by
  cases offer with
  | some c => rfl
  | none =>
    cases asked with
    | text s => obtain ⟨x, hx⟩ | hx := eq_some_of_accepts_text h <;> cases hx
    | _ => cases h

end Characteristic

namespace Characteristics

/-- A resource that offers at least as much satisfies every matcher that asks for no more. -/
theorem accepts_of_within {asked tighter offered richer : Characteristics}
    (hasked : asked.Within Characteristic.Same tighter)
    (hoffered : offered.Within Characteristic.AtMost richer)
    (h : tighter.accepts offered = true) : asked.accepts richer = true := by
  rw [accepts_iff] at h ⊢
  intro key a ha
  obtain ⟨b, hb, hsame⟩ := hasked key a ha
  have haccepts : a.accepts (offered.get? key) = true :=
    Characteristic.accepts_of_same hsame (h key b hb)
  obtain ⟨c, hc⟩ := Option.isSome_iff_exists.1 (Characteristic.isSome_of_accepts haccepts)
  obtain ⟨d, hd, hmost⟩ := hoffered key c hc
  rw [hc] at haccepts
  rw [hd]
  exact Characteristic.accepts_of_atMost hmost haccepts

/-- A matcher that asks for a value of a kind that is not matched is not satisfied by anything. -/
theorem accepts_eq_false_of_other {matcher : Characteristics} {key : String} {v : Json}
    (h : matcher.get? key = some (.other v)) (offered : Characteristics) :
    matcher.accepts offered = false := by
  rw [← Bool.not_eq_true, accepts_iff]
  intro haccepts
  simpa using haccepts key _ h

/-- Matching is monotone: a resource that offers at least as much satisfies every matcher that asks
for no more. A matcher with a value of a kind that is not matched is not satisfied by any
resource. -/
theorem accepts_mono :
    (∀ asked tighter offered richer : Characteristics, asked.Within Characteristic.Same tighter →
      offered.Within Characteristic.AtMost richer → tighter.accepts offered = true →
        asked.accepts richer = true) ∧
    ∀ (matcher : Characteristics) (key : String) (v : Json),
      matcher.get? key = some (.other v) → ∀ offered, matcher.accepts offered = false :=
  ⟨fun _ _ _ _ hasked hoffered h => accepts_of_within hasked hoffered h,
    fun _ _ _ h offered => accepts_eq_false_of_other h offered⟩

/-- A bakery with two ovens and a baker will do where one oven or more and a baker are asked for,
and so will one that offers more. Nothing satisfies a matcher whose city is null. -/
theorem accepts_mono_kitchen :
    let asked : Characteristics := .ofList [("skills", .list ["bake"])]
    let tighter : Characteristics :=
      .ofList [("ovens", .text ">1"), ("skills", .list ["bake"])]
    let offered : Characteristics :=
      .ofList [("ovens", .number 2), ("skills", .list ["bake", "bake"])]
    let richer : Characteristics :=
      .ofList [("city", .other .null), ("ovens", .number 2), ("skills", .list ["knead", "bake"])]
    asked.Within Characteristic.Same tighter ∧ offered.Within Characteristic.AtMost richer ∧
      tighter.accepts offered = true ∧ asked.accepts richer = true ∧
      ∀ any, accepts (.ofList [("city", .other .null), ("ovens", .text ">1")]) any = false := by
  intro asked tighter offered richer
  have hasked : asked.Within Characteristic.Same tighter :=
    Table.within_iff.2 <| List.forall_mem_cons.2
      ⟨⟨_, rfl, .equals (.refl _)⟩, List.forall_mem_nil _⟩
  have hoffered : offered.Within Characteristic.AtMost richer :=
    Table.within_iff.2 <| List.forall_mem_cons.2
      ⟨⟨_, rfl, .same (.equals (.refl _))⟩, List.forall_mem_cons.2
        ⟨⟨_, rfl, .list (by decide)⟩, List.forall_mem_nil _⟩⟩
  have haccepts : tighter.accepts offered = true := by decide
  obtain ⟨hmono, hother⟩ := accepts_mono
  exact ⟨hasked, hoffered, haccepts, hmono _ _ _ _ hasked hoffered haccepts,
    hother _ "city" .null rfl⟩

end Characteristics

end Foreman
