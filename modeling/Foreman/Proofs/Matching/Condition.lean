import Foreman.Matching
import Foreman.Proofs.Number.Numeral
import Mathlib.Logic.IsEmpty.Basic
/-!
# Texts that spell a condition

A text spells a condition if it is an order sign and a numeral, with blanks before, between and
after them. One order sign is the start of another, but a numeral does not start with what is left
of the longer one; and a numeral neither contains blanks nor is it empty. So no text spells a
condition in two ways, and reading finds the one way that there is.

## Main definitions

* `Foreman.Comparator.Spelling`: a way in which a text spells a condition.

## Main results

* `Foreman.Comparator.Spelling.parse?_eq`, `Foreman.Comparator.exists_spelling`: a text is read as
  what it spells.
* `Foreman.Comparator.Spelling.instSubsingleton`: a text spells a condition in at most one way.
* `Foreman.Comparator.parse?_grammar`: which texts are conditions, and which are matched as they
  stand.
-/

namespace Foreman

open Text

namespace Comparator

/-! ### Order signs -/

theorem eq_spelling_append_of_sign? {cs rest : List Char} {c : Comparator}
    (h : sign? cs = some (c, rest)) : cs = c.spelling ++ rest := by
  unfold sign? at h
  split at h <;> cases h <;> rfl

/-- An order sign is found if it does not go on with `=`. -/
theorem sign?_spelling_append (c : Comparator) {rest : List Char}
    (h : ∀ d ∈ rest.head?, d ≠ '=') : sign? (c.spelling ++ rest) = some (c, rest) := by
  cases rest with
  | nil => cases c <;> rfl
  | cons d rest =>
    have hd : d ≠ '=' := h d rfl
    cases c <;> simp [spelling, sign?, hd]

theorem head_spelling (c : Comparator) (rest : List Char) :
    ∀ d ∈ (c.spelling ++ rest).head?, isBlank d = false := by
  cases c <;> rintro _ ⟨⟩ <;> decide

/-! ### Spellings -/

/-- A way in which a text spells a condition. -/
@[ext] structure Spelling (s : String) where
  /-- The blanks before the order sign. -/
  before : List Char
  /-- The order sign. -/
  sign : Comparator
  /-- The blanks between the order sign and the numeral. -/
  between : List Char
  /-- The numeral. -/
  numeral : List Char
  /-- The blanks after the numeral. -/
  after : List Char
  /-- The number that the numeral stands for. -/
  threshold : Float
  /-- Nothing else stands before the order sign. -/
  blank_before : ∀ c ∈ before, isBlank c = true
  /-- Nothing else stands between the order sign and the numeral. -/
  blank_between : ∀ c ∈ between, isBlank c = true
  /-- Nothing else stands after the numeral. -/
  blank_after : ∀ c ∈ after, isBlank c = true
  /-- The numeral is one, and stands for the threshold. -/
  read_numeral : Decimal.read? numeral = some threshold
  /-- The text is made of the five parts. -/
  toList_eq : s.toList = before ++ (sign.spelling ++ (between ++ (numeral ++ after)))

namespace Spelling

variable {s : String} (w : Spelling s)

theorem unbroken : Decimal.Unbroken w.numeral :=
  .of_read? w.read_numeral

theorem numeral_solid : ∀ c ∈ w.numeral, (!isBlank c) = true :=
  fun c hc => by rw [w.unbroken c hc, Bool.not_false]

theorem head_after : ∀ c ∈ w.after.head?, (!isBlank c) = false :=
  fun c hc => by rw [w.blank_after c (List.mem_of_mem_head? hc), Bool.not_true]

theorem exists_numeral_cons : ∃ d ds, w.numeral = d :: ds ∧ d ≠ '=' := by
  have hread := w.read_numeral
  cases hnumeral : w.numeral with
  | nil =>
    rw [hnumeral, Decimal.read?_nil] at hread
    cases hread
  | cons d ds =>
    refine ⟨d, ds, rfl, fun hd => ?_⟩
    rw [hnumeral, Decimal.read?_cons_eq_none (.inl hd)] at hread
    cases hread

theorem head_numeral (rest : List Char) :
    ∀ d ∈ (w.numeral ++ rest).head?, isBlank d = false := by
  obtain ⟨d, ds, hnumeral, -⟩ := w.exists_numeral_cons
  have hd : isBlank d = false := w.unbroken d (by rw [hnumeral]; exact List.mem_cons_self)
  rw [hnumeral]
  rintro _ ⟨⟩
  exact hd

/-- What follows the order sign does not start with `=`. -/
theorem head_between (rest : List Char) :
    ∀ d ∈ (w.between ++ (w.numeral ++ rest)).head?, d ≠ '=' := by
  cases hbetween : w.between with
  | nil =>
    obtain ⟨d, ds, hnumeral, hd⟩ := w.exists_numeral_cons
    rw [hnumeral]
    rintro _ ⟨⟩
    exact hd
  | cons b bs =>
    have hb : isBlank b = true := w.blank_between b (by rw [hbetween]; exact List.mem_cons_self)
    rintro _ ⟨⟩ rfl
    exact absurd hb (by decide)

theorem numeral_ne_nil : w.numeral ≠ [] := by
  obtain ⟨d, ds, hnumeral, -⟩ := w.exists_numeral_cons
  rw [hnumeral]
  exact List.cons_ne_nil d ds

theorem last_numeral (cs : List Char) : ∀ d ∈ (cs ++ w.numeral).getLast?, isBlank d = false := by
  rw [List.getLast?_append, List.getLast?_eq_some_getLast w.numeral_ne_nil, Option.some_or]
  rintro _ ⟨⟩
  exact w.unbroken _ (List.getLast_mem _)

/-- A text that spells a condition is read as that condition. -/
theorem parse?_eq : parse? s = some (w.sign, w.threshold) := by
  have hnumeral := w.numeral_ne_nil
  have hparts : s.toList =
      w.before ++ (w.sign.spelling ++ (w.between ++ w.numeral)) ++ w.after := by
    simpa only [List.append_assoc] using w.toList_eq
  have houter : trimChars s.toList = w.sign.spelling ++ (w.between ++ w.numeral) := by
    rw [hparts]
    refine trimChars_eq w.blank_before w.blank_after (by simp [hnumeral]) (head_spelling _ _) ?_
    rw [← List.append_assoc]
    exact w.last_numeral _
  have hsign : sign? (w.sign.spelling ++ (w.between ++ w.numeral)) =
      some (w.sign, w.between ++ w.numeral) :=
    sign?_spelling_append w.sign (by simpa using w.head_between [])
  have hinner : trimChars (w.between ++ w.numeral) = w.numeral := by
    rw [← List.append_nil (w.between ++ w.numeral)]
    refine trimChars_eq w.blank_between (List.forall_mem_nil _) hnumeral ?_ (w.last_numeral [])
    simpa using w.head_numeral []
  rw [parse?, houter, hsign, Option.bind_some]
  simp only [hinner, w.read_numeral, Option.map_some]

/-- A text spells a condition in at most one way. -/
instance instSubsingleton : Subsingleton (Spelling s) where
  allEq w w' := by
    -- the blanks, the order sign, the next blanks and the numeral are told apart one by one
    obtain ⟨hbefore, hrest⟩ := append_inj_of_head w.blank_before (head_spelling _ _)
      w'.blank_before (head_spelling _ _) (w.toList_eq.symm.trans w'.toList_eq)
    have hsign := sign?_spelling_append w.sign (w.head_between w.after)
    rw [hrest, sign?_spelling_append w'.sign (w'.head_between w'.after)] at hsign
    obtain ⟨hsign, hrest⟩ := Prod.mk.inj (Option.some.inj hsign)
    obtain ⟨hbetween, hrest⟩ := append_inj_of_head w.blank_between (w.head_numeral _)
      w'.blank_between (w'.head_numeral _) hrest.symm
    obtain ⟨hnumeral, hafter⟩ := append_inj_of_head w.numeral_solid w.head_after
      w'.numeral_solid w'.head_after hrest
    have hthreshold : w.threshold = w'.threshold := by
      have hread := w.read_numeral
      rw [hnumeral, w'.read_numeral] at hread
      exact (Option.some.inj hread).symm
    exact Spelling.ext hbefore hsign.symm hbetween hnumeral hafter hthreshold

end Spelling

/-- A text that is read as a condition spells it. -/
theorem exists_spelling {s : String} {c : Comparator} {threshold : Float}
    (h : parse? s = some (c, threshold)) :
    ∃ w : Spelling s, w.sign = c ∧ w.threshold = threshold := by
  obtain ⟨⟨c', rest⟩, hsign, hthreshold⟩ := Option.bind_eq_some_iff.1 h
  obtain ⟨t, hread, heq⟩ := Option.map_eq_some_iff.1 hthreshold
  obtain ⟨rfl, rfl⟩ := Prod.mk.inj heq
  obtain ⟨before, after, hbefore, hafter, houter⟩ := exists_trimChars s.toList
  obtain ⟨between, after', hbetween, hafter', hinner⟩ := exists_trimChars rest
  refine ⟨⟨before, c', between, trimChars rest, after' ++ after, t, hbefore, hbetween, ?_, hread,
    ?_⟩, rfl, rfl⟩
  · exact fun d hd => (List.mem_append.1 hd).elim (hafter' d) (hafter d)
  · calc s.toList = before ++ trimChars s.toList ++ after := houter
      _ = before ++ (c'.spelling ++ rest) ++ after := by
        rw [← eq_spelling_append_of_sign? hsign]
      _ = before ++ (c'.spelling ++ (between ++ trimChars rest ++ after')) ++ after := by
        rw [← hinner]
      _ = before ++ (c'.spelling ++ (between ++ (trimChars rest ++ (after' ++ after)))) := by
        simp only [List.append_assoc]

/-- A text is read as a condition exactly if it spells it: blanks, an order sign, blanks, a numeral
and blanks. It does so in one way only, and every other text is matched as it stands. -/
theorem parse?_grammar (s : String) :
    (∀ c threshold, parse? s = some (c, threshold) ↔
      ∃ w : Spelling s, w.sign = c ∧ w.threshold = threshold) ∧
    Subsingleton (Spelling s) ∧
    (IsEmpty (Spelling s) → parse? s = none ∧
      ∀ offered, (Characteristic.text s).accepts offered = true ↔
        offered = some (.text s)) := by
  have hiff (c : Comparator) (threshold : Float) : parse? s = some (c, threshold) ↔
      ∃ w : Spelling s, w.sign = c ∧ w.threshold = threshold := by
    constructor
    · exact exists_spelling
    · rintro ⟨w, rfl, rfl⟩
      exact w.parse?_eq
  refine ⟨hiff, inferInstance, fun hempty => ?_⟩
  have hnone : parse? s = none := Option.eq_none_iff_forall_ne_some.2 fun ⟨c, threshold⟩ h =>
    let ⟨w, _⟩ := exists_spelling h
    hempty.false w
  exact ⟨hnone, fun offered => Characteristic.accepts_text_iff hnone⟩

theorem parse?_grammar_broken_sign :
    IsEmpty (Spelling "> =5") ∧ parse? "> =5" = none ∧
      ∀ offered, (Characteristic.text "> =5").accepts offered = true ↔
        offered = some (.text "> =5") := by
  have hnone : parse? "> =5" = none := by decide
  have hempty : IsEmpty (Spelling "> =5") := ⟨fun w => by
    have hsome := w.parse?_eq
    rw [hnone] at hsome
    cases hsome⟩
  exact ⟨hempty, (parse?_grammar "> =5").2.2 hempty⟩

end Comparator

end Foreman
