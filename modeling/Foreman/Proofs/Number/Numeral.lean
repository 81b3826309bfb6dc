import Foreman.Decimal.Numeral
import Foreman.Text.Blank
/-!
# The characters of numerals

A numeral is made of digits, letters, signs and points, so no character of it is blank.

## Main definitions

* `Foreman.Decimal.Unbroken`: a text without blanks.

## Main results

* `Foreman.Decimal.Unbroken.of_read?`: a numeral has no blanks.
-/

namespace Foreman.Decimal

open Text

/-- No character is blank. -/
def Unbroken (cs : List Char) : Prop :=
  ∀ c ∈ cs, isBlank c = false

/-- Only capital letters have another letter as their small one, and neither is blank. -/
theorem isBlank_of_toLower {c : Char} (h : isBlank c.toLower = false) : isBlank c = false := by
  unfold Char.toLower at h
  split at h
  · next hcapital =>
    have hrange : 65 ≤ c.toNat ∧ c.toNat ≤ 90 := by
      simpa [UInt32.le_iff_toNat_le] using hcapital
    simp only [isBlank, Bool.or_eq_false_iff, Bool.and_eq_false_iff, decide_eq_false_iff_not,
      beq_eq_false_iff_ne]
    omega
  · exact h

namespace Unbroken

variable {cs ds : List Char}

theorem nil : Unbroken [] :=
  List.forall_mem_nil _

theorem cons {c : Char} (hc : isBlank c = false) (h : Unbroken cs) : Unbroken (c :: cs) :=
  List.forall_mem_cons.2 ⟨hc, h⟩

theorem append (hcs : Unbroken cs) (hds : Unbroken ds) : Unbroken (cs ++ ds) :=
  fun c hc => (List.mem_append.1 hc).elim (hcs c) (hds c)

theorem of_all (h : (cs.all fun c => !isBlank c) = true) : Unbroken cs :=
  fun c hc => (Bool.not_eq_true' _).mp (List.all_eq_true.1 h c hc)

theorem of_isDigit (h : ds.all Char.isDigit = true) : Unbroken ds :=
  fun c hc => isBlank_eq_false_of_isDigit (List.all_eq_true.1 h c hc)

theorem of_small (h : Unbroken (small cs)) : Unbroken cs :=
  fun _ hc => isBlank_of_toLower (h _ (List.mem_map_of_mem hc))

theorem of_splitSign (h : Unbroken (splitSign cs).2) : Unbroken cs := by
  unfold splitSign at h
  split at h
  · exact cons (by decide) h
  · exact cons (by decide) h
  · exact h

theorem of_splitExponent? {e : Int} (h : splitExponent? cs = some e) : Unbroken cs := by
  cases cs with
  | nil => exact nil
  | cons c rest =>
    simp only [splitExponent?] at h
    split at h
    · next hletter =>
      split at h
      · cases h
      · next hdigits =>
        have hds : Unbroken rest := of_splitSign (of_isDigit (by simp_all))
        obtain rfl | rfl := hletter
        · exact cons (by decide) hds
        · exact cons (by decide) hds
    · cases h

/-- What follows the digits has no blanks, and so the whole has none. -/
theorem of_afterDigits (h : Unbroken (afterDigits cs)) : Unbroken cs := by
  rw [← List.takeWhile_append_dropWhile (p := Char.isDigit) (l := cs)]
  exact (of_isDigit List.all_takeWhile).append h

theorem of_split? {n : Numeral} (h : Numeral.split? cs = some n) : Unbroken cs := by
  refine of_afterDigits ?_
  simp only [Numeral.split?] at h
  split at h
  · next rest hpoint =>
    split at h
    · cases h
    · obtain ⟨e, he, -⟩ := Option.map_eq_some_iff.1 h
      rw [hpoint]
      exact cons (by decide) (of_afterDigits (of_splitExponent? he))
  · split at h
    · cases h
    · obtain ⟨e, he, -⟩ := Option.map_eq_some_iff.1 h
      exact of_splitExponent? he

theorem of_readUnsigned? {x : Float} (h : readUnsigned? cs = some x) : Unbroken cs := by
  unfold readUnsigned? at h
  split at h
  · next hword =>
    refine of_small ?_
    obtain hword | hword := hword <;> rw [hword] <;> exact of_all (by decide)
  · split at h
    · next hword =>
      refine of_small ?_
      rw [hword]
      exact of_all (by decide)
    · obtain ⟨n, hn, -⟩ := Option.map_eq_some_iff.1 h
      exact of_split? hn

/-- A numeral has no blanks. -/
theorem of_read? {x : Float} (h : read? cs = some x) : Unbroken cs := by
  obtain ⟨y, hy, -⟩ := Option.map_eq_some_iff.1 h
  exact of_splitSign (of_readUnsigned? hy)

end Unbroken

end Foreman.Decimal
