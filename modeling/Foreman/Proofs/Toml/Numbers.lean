import Foreman.Proofs.Time.Timestamp
import Foreman.Toml.Printer
/-!
# Numbers of sectioned texts are read back

A whole number is written in base ten, without zeros in front, and ends with its line. It is not
taken for a date, a time of day or a number with a point, which may start in the same way.

## Main results

* `Foreman.Toml.moment?_number`, `Foreman.Toml.float?_number`: a whole number that is written is
  read as nothing else.
* `Foreman.Toml.integer?_number`: it is read back if it has 64 bits.
-/

namespace Foreman.Toml

variable {c : Char} {ds cs rest : List Char}

/-! ### Digits -/

/-- The digits of a number do not start with a zero, unless it is zero. -/
theorem head?_toDigits_ne_zero {n : ℕ} (h : 0 < n) : (Nat.toDigits 10 n).head? ≠ some '0' := by
  induction n using Nat.strongRecOn with
  | ind n ih =>
    by_cases hsmall : n < 10
    · rw [Nat.toDigits_of_lt_base hsmall, List.head?_cons]
      interval_cases n <;> decide
    · rw [Nat.toDigits_of_base_le (by decide) (by omega),
        List.head?_append_of_ne_nil _ Nat.toDigits_ne_nil]
      exact ih (n / 10) (by omega) (by omega)

theorem isDigit_of_mem_toDigits {n : ℕ} (h : c ∈ Nat.toDigits 10 n) : c.isDigit = true :=
  Nat.isDigit_of_mem_toDigits (by decide) (by decide) h

theorem grouped_cons_of_not {ok : Char → Bool} (h : ok c = false) (cs : List Char) :
    grouped ok (c :: cs) = ([], c :: cs) := by
  unfold grouped
  split
  · next heq => cases heq
  · next heq =>
    obtain ⟨rfl, rfl⟩ := List.cons.inj heq
    simp [h]
  · next heq =>
    obtain ⟨rfl, rfl⟩ := List.cons.inj heq
    simp [h]

theorem grouped_cons {ok : Char → Bool} (h : ok c = true) (hcs : ∀ d ∈ cs.head?, d ≠ '_') :
    grouped ok (c :: cs) = (c :: (grouped ok cs).1, (grouped ok cs).2) := by
  rw [grouped.eq_def]
  split
  · next heq => cases heq
  · next heq =>
    obtain ⟨rfl, rfl⟩ := List.cons.inj heq
    exact absurd rfl (hcs '_' rfl)
  · next heq =>
    obtain ⟨rfl, rfl⟩ := List.cons.inj heq
    simp [h]

/-- Digits are read as one group up to the end of the line. -/
theorem grouped_digits (h : ∀ c ∈ ds, c.isDigit = true) (rest : List Char) :
    grouped Char.isDigit (ds ++ '\n' :: rest) = (ds, '\n' :: rest) := by
  induction ds with
  | nil => exact grouped_cons_of_not (by decide) rest
  | cons d ds ih =>
    obtain ⟨hd, hds⟩ := List.forall_mem_cons.1 h
    have hnext : ∀ c ∈ (ds ++ '\n' :: rest).head?, c ≠ '_' := by
      rintro c hc rfl
      cases ds with
      | nil => cases hc
      | cons e ds =>
        cases hc
        exact absurd (hds '_' List.mem_cons_self) (by decide)
    rw [List.cons_append, grouped_cons hd hnext, ih hds]

/-- The digits of a number are read as such. -/
theorem wholeDigits_toDigits (n : ℕ) (rest : List Char) :
    wholeDigits (Nat.toDigits 10 n ++ '\n' :: rest) = (Nat.toDigits 10 n, '\n' :: rest) := by
  rcases Nat.eq_zero_or_pos n with rfl | hpos
  · rfl
  · have hhead := head?_toDigits_ne_zero hpos
    have hread := grouped_digits (fun _ => isDigit_of_mem_toDigits (n := n)) rest
    unfold wholeDigits
    split
    · next heq =>
      cases hds : Nat.toDigits 10 n with
      | nil => exact absurd hds Nat.toDigits_ne_nil
      | cons d ds =>
        rw [hds] at heq hhead
        rw [(List.cons.inj heq).1] at hhead
        exact absurd rfl hhead
    · exact hread

/-! ### Whole numbers -/

/-- A whole number is written as its digits, after a sign if it is below zero. -/
theorem toList_toString (n : ℤ) : (toString n).toList =
    if n < 0 then '-' :: Nat.toDigits 10 n.natAbs else Nat.toDigits 10 n.natAbs := by
  rw [Int.toString_eq_repr, Int.repr_eq_if]
  split_ifs with hnonneg hneg hneg
  · omega
  · have habs : n.toNat = n.natAbs := by omega
    rw [Nat.toList_repr, habs]
  · have habs : (-n).toNat = n.natAbs := by omega
    simp [habs]
  · omega

/-- The first digit of a number. -/
theorem exists_toDigits_eq (n : ℕ) : ∃ d ds, Nat.toDigits 10 n = d :: ds ∧ d.isDigit = true := by
  obtain ⟨d, ds, h⟩ := List.exists_cons_of_ne_nil (Nat.toDigits_ne_nil (n := n) (b := 10))
  exact ⟨d, ds, h, isDigit_of_mem_toDigits (h ▸ List.mem_cons_self)⟩

/-- A whole number starts with its sign or a digit. -/
theorem exists_toString_eq (n : ℤ) :
    ∃ c cs, (toString n).toList = c :: cs ∧ (c = '-' ∨ c.isDigit = true) := by
  rw [toList_toString]
  split_ifs
  · exact ⟨_, _, rfl, .inl rfl⟩
  · obtain ⟨d, ds, hds, hd⟩ := exists_toDigits_eq n.natAbs
    exact ⟨d, ds, hds, .inr hd⟩

theorem ne_of_starts (h : c = '-' ∨ c.isDigit = true) {d : Char} (hminus : d ≠ '-')
    (hdigit : d.isDigit = false) : c ≠ d := by
  rintro rfl
  rcases h with h | h
  · exact hminus h
  · rw [hdigit] at h
    cases h

theorem signed_cons_of_isDigit (h : c.isDigit = true) (cs : List Char) :
    signed (c :: cs) = (false, c :: cs) := by
  unfold signed
  split
  · next heq =>
    obtain ⟨rfl, -⟩ := List.cons.inj heq
    exact absurd h (by decide)
  · next heq =>
    obtain ⟨rfl, -⟩ := List.cons.inj heq
    exact absurd h (by decide)
  · rfl

/-- The sign of a number and its digits. -/
theorem signed_toString (n : ℤ) (rest : List Char) : signed ((toString n).toList ++ rest) =
    (decide (n < 0), Nat.toDigits 10 n.natAbs ++ rest) := by
  rw [toList_toString]
  split_ifs with hneg
  · simp [signed, hneg]
  · obtain ⟨d, ds, hds, hd⟩ := exists_toDigits_eq n.natAbs
    rw [hds, List.cons_append, signed_cons_of_isDigit hd]
    simp [hneg]

/-- What follows a zero that a number starts with is the end of the line. -/
theorem eq_of_toString_eq_zero_cons {n : ℤ} {more : List Char}
    (h : (toString n).toList ++ '\n' :: rest = '0' :: c :: more) : c = '\n' := by
  rw [toList_toString] at h
  split_ifs at h with hneg
  · cases (List.cons.inj h).1
  · rcases Nat.eq_zero_or_pos n.natAbs with hzero | hpos
    · rw [hzero] at h
      exact (List.cons.inj (List.cons.inj h).2).1.symm
    · have hhead := head?_toDigits_ne_zero hpos
      have hsame : (Nat.toDigits 10 n.natAbs ++ '\n' :: rest).head? =
          (Nat.toDigits 10 n.natAbs).head? := List.head?_append_of_ne_nil _ Nat.toDigits_ne_nil
      rw [← hsame, h] at hhead
      exact absurd rfl hhead

/-- A whole number of 64 bits that is written is read back. -/
theorem integer?_number {n : ℤ} (h : -(Int.pow 2 63) ≤ n ∧ n < Int.pow 2 63) (rest : List Char) :
    integer? ((toString n).toList ++ '\n' :: rest) = some (.int n, '\n' :: rest) := by
  have hvalue : (if decide (n < 0) = true then
      -(Decimal.valueOf (Nat.toDigits 10 n.natAbs) : ℤ)
        else Decimal.valueOf (Nat.toDigits 10 n.natAbs)) = n := by
    simp only [Decimal.valueOf_toDigits, decide_eq_true_eq]
    split_ifs <;> omega
  have hrange : inRange n = some (.int n) := if_pos h
  unfold integer?
  split
  · next heq => exact absurd (eq_of_toString_eq_zero_cons heq) (by decide)
  · next heq => exact absurd (eq_of_toString_eq_zero_cons heq) (by decide)
  · next heq => exact absurd (eq_of_toString_eq_zero_cons heq) (by decide)
  · simp only [signed_toString, wholeDigits_toDigits, hvalue]
    simp [Nat.toDigits_ne_nil, hrange]

/-- A whole number has neither a point nor an exponent. -/
theorem float?_number (n : ℤ) (rest : List Char) :
    float? ((toString n).toList ++ '\n' :: rest) = none := by
  have hexponent : exponent? ('\n' :: rest) = some ([], '\n' :: rest) := rfl
  simp only [float?, signed_toString, wholeDigits_toDigits]
  simp [Nat.toDigits_ne_nil, hexponent]

/-! ### No dates and no times of day -/

/-- A fixed number of digits leaves digits up to the end of the line. -/
theorem field?_digits {width low high : ℕ} {field more : List Char}
    (hds : ∀ c ∈ ds, c.isDigit = true)
    (h : field? width low high (ds ++ '\n' :: rest) = some (field, more)) :
    ∃ ds', more = ds' ++ '\n' :: rest ∧ ∀ c ∈ ds', c.isDigit = true := by
  have hline : ('\n').isDigit = false := by decide
  rcases Nat.lt_or_ge ds.length width with hshort | hlong
  · -- the line ends before there are enough of them
    obtain ⟨k, rfl⟩ := Nat.exists_eq_add_of_lt hshort
    have hleading : Decimal.leadingDigits ((ds ++ '\n' :: rest).take (ds.length + k + 1)) = ds := by
      rw [Nat.add_assoc, List.take_length_add_append, List.take_succ_cons]
      exact Decimal.leadingDigits_append hds (by simp [hline])
    rw [field?, hleading, if_neg (by omega)] at h
    cases h
  · rw [field?] at h
    split at h
    · obtain ⟨-, rfl⟩ := Prod.mk.inj (Option.some.inj h)
      exact ⟨ds.drop width, List.drop_append_of_le_length hlong,
        fun c hc => hds c (List.mem_of_mem_drop hc)⟩
    · cases h

theorem after?_digits (hds : ∀ c ∈ ds, c.isDigit = true) (hc : c.isDigit = false)
    (hline : c ≠ '\n') : after? [c] (ds ++ '\n' :: rest) = none := by
  cases ds with
  | nil => simp [after?, hline]
  | cons d ds =>
    have hd : c ≠ d := by
      rintro rfl
      rw [hds c List.mem_cons_self] at hc
      cases hc
    simp [after?, hd]

/-- Digits up to the end of the line are no date and no time of day. -/
theorem moment?_digits (hds : ∀ c ∈ ds, c.isDigit = true) :
    moment? (ds ++ '\n' :: rest) = none := by
  have hdate : date? (ds ++ '\n' :: rest) = none := by
    cases hfield : field? 4 0 9999 (ds ++ '\n' :: rest) with
    | none => simp [date?, hfield]
    | some year =>
      obtain ⟨ds', hmore, hds'⟩ := field?_digits hds hfield
      simp [date?, hfield, hmore, after?_digits hds']
  have htime : time? (ds ++ '\n' :: rest) = none := by
    cases hfield : field? 2 0 23 (ds ++ '\n' :: rest) with
    | none => simp [time?, hfield]
    | some hour =>
      obtain ⟨ds', hmore, hds'⟩ := field?_digits hds hfield
      simp [time?, hfield, hmore, after?_digits hds']
  simp [moment?, hdate, htime]

theorem moment?_minus (cs : List Char) : moment? ('-' :: cs) = none := by
  have hdate : date? ('-' :: cs) = none := by
    simp [date?, field?, Decimal.leadingDigits]
  have htime : time? ('-' :: cs) = none := by
    simp [time?, field?, Decimal.leadingDigits]
  simp [moment?, hdate, htime]

/-- A whole number is no date and no time of day. -/
theorem moment?_number (n : ℤ) (rest : List Char) :
    moment? ((toString n).toList ++ '\n' :: rest) = none := by
  rw [toList_toString]
  split_ifs with hneg
  · exact moment?_minus _
  · exact moment?_digits fun _ => isDigit_of_mem_toDigits

end Foreman.Toml
