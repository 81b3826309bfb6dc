import Foreman.Proofs.Number.Difference
/-!
# How close numbers are to each other

From one on upwards numbers are at least the least step apart, so of two numbers beyond one that are
within reach of each other both are the same. From one on downwards every number has another one
within reach, on the side of zero or, if it is zero, on both sides.

## Main results

* `Foreman.Number.value_eq_of_reach`: beyond one no two numbers are within reach of each other.
* `Foreman.Number.exists_within_reach`: up to one every number has another one within reach.
-/

namespace Foreman.Number

open Float.Model Float.Model.UnpackedFloat

/-! ### Beyond one -/

/-- From one on upwards, numbers are whole multiples of the least step. -/
theorem exists_steps {u : UnpackedFloat} (hu : Canonical u) (h : 1 ≤ |amount u|) :
    ∃ n : ℤ, amount u = n * 2 ^ (-52 : ℤ) := by
  cases hu with
  | @finite s m e hm hlt hleast hfull =>
    rw [abs_amount_finite] at h
    have he : -52 ≤ e := by
      by_contra hsmall
      have hpow : (2 : ℚ) ^ e ≤ 2 ^ (-53 : ℤ) := zpow_le_zpow_right₀ (by norm_num) (by omega)
      have hm' : (m : ℚ) < 2 ^ 53 := by exact_mod_cast hlt
      refine absurd h (not_le.2 ?_)
      calc (m : ℚ) * 2 ^ e ≤ m * 2 ^ (-53 : ℤ) := by gcongr
        _ < 2 ^ 53 * 2 ^ (-53 : ℤ) := by gcongr
        _ = 1 := by norm_num
    obtain ⟨k, rfl⟩ := Int.le.dest he
    refine ⟨s.apply m * 2 ^ k, ?_⟩
    rw [amount, zpow_add₀ two_ne_zero, zpow_natCast]
    push_cast
    ring
  | _ => exact absurd h (by norm_num [amount])

/-- A number beyond one has no other number within reach. -/
theorem amount_eq_of_reach {u v : UnpackedFloat} (hu : Canonical u) (hv : Canonical v)
    (hone : 1 < |amount u|) (h : |amount u - amount v| < reach) : amount u = amount v := by
  have hstep : (0 : ℚ) < 2 ^ (-52 : ℤ) := by positivity
  obtain ⟨n, hn⟩ := exists_steps hu hone.le
  rw [hn, abs_mul, abs_of_pos hstep] at hone
  by_cases hone' : 1 ≤ |amount v|
  · obtain ⟨k, hk⟩ := exists_steps hv hone'
    have hdist : |((n - k : ℤ) : ℚ)| * 2 ^ (-52 : ℤ) < 1 * 2 ^ (-52 : ℤ) :=
      calc |((n - k : ℤ) : ℚ)| * 2 ^ (-52 : ℤ) = |amount u - amount v| := by
            rw [hn, hk, ← sub_mul, abs_mul, abs_of_pos hstep, Int.cast_sub]
        _ < 2 ^ (-52 : ℤ) := h.trans reach_lt
        _ = 1 * 2 ^ (-52 : ℤ) := (one_mul _).symm
    have hlt : |n - k| < 1 := by exact_mod_cast lt_of_mul_lt_mul_right hdist hstep.le
    have hnk : n = k := by
      have := Int.abs_lt_one_iff.1 hlt
      omega
    rw [hn, hk, hnk]
  · -- the number is a whole step beyond one, and the other one falls short of one
    have hbeyond : 2 ^ 52 < |n| := by
      have hlt : (2 ^ 52 : ℚ) * 2 ^ (-52 : ℤ) < |(n : ℚ)| * 2 ^ (-52 : ℤ) := by
        calc (2 ^ 52 : ℚ) * 2 ^ (-52 : ℤ) = 1 := by norm_num
          _ < _ := hone
      exact_mod_cast lt_of_mul_lt_mul_right hlt hstep.le
    have hstepBeyond : 1 + 2 ^ (-52 : ℤ) ≤ |amount u| :=
      calc (1 : ℚ) + 2 ^ (-52 : ℤ) = (2 ^ 52 + 1) * 2 ^ (-52 : ℤ) := by norm_num
        _ ≤ |(n : ℚ)| * 2 ^ (-52 : ℤ) := by gcongr; exact_mod_cast hbeyond
        _ = |amount u| := by rw [hn, abs_mul, abs_of_pos hstep]
    have hreach := reach_lt
    have htriangle := abs_sub_abs_le_abs_sub (amount u) (amount v)
    linarith

/-- Numbers within reach of one that is beyond one are equal to it. -/
theorem value_eq_of_reach {x y : Float} (hone : 1 < |value x|)
    (h : |value y - value x| < reach) : value y = value x :=
  (amount_eq_of_reach (canonical_unpack x.toModel) (canonical_unpack y.toModel) hone
    (by rwa [abs_sub_comm] at h)).symm

/-! ### Up to one -/

theorem two_zpow_lt_reach {e : ℤ} (he : e ≤ -53) : (2 : ℚ) ^ e < reach :=
  calc (2 : ℚ) ^ e ≤ 2 ^ (-53 : ℤ) := zpow_le_zpow_right₀ (by norm_num) he
    _ < reach := by norm_num [reach]

/-- The number next to one of at most one, on the side of zero, is a step of its own away. -/
theorem exists_next {m : ℕ} {e : ℤ} (hm : 0 < m) (hlt : m < 2 ^ 53) (hleast : -1074 ≤ e)
    (hfull : 2 ^ 52 ≤ m ∨ e = -1074) (hone : (m : ℚ) * 2 ^ e ≤ 1) :
    ∃ (n : ℕ) (f : ℤ), n < 2 ^ 53 ∧ -1074 ≤ f ∧ (2 ^ 52 ≤ n ∨ f = -1074) ∧ f ≤ -53 ∧
      (m : ℚ) * 2 ^ e = n * 2 ^ f + 2 ^ f := by
  by_cases hsame : 2 ^ 52 < m ∨ e = -1074
  · -- one less in the last place
    refine ⟨m - 1, e, by omega, hleast, by omega, ?_, ?_⟩
    · by_contra he
      have hpow : (2 : ℚ) ^ (-52 : ℤ) ≤ 2 ^ e := zpow_le_zpow_right₀ (by norm_num) (by omega)
      have hm' : (2 ^ 52 : ℚ) < m := by exact_mod_cast hsame.resolve_right (by omega)
      refine absurd hone (not_le.2 ?_)
      calc (1 : ℚ) = 2 ^ 52 * 2 ^ (-52 : ℤ) := by norm_num
        _ < m * 2 ^ (-52 : ℤ) := by gcongr
        _ ≤ m * 2 ^ e := by gcongr
    · rw [Nat.cast_pred hm]
      ring
  · -- the mantissa is the least one, and the next number has a smaller exponent
    obtain rfl : m = 2 ^ 52 := by omega
    have he : e ≤ -52 := by
      by_contra he
      have hpow : (2 : ℚ) ^ (-51 : ℤ) ≤ 2 ^ e := zpow_le_zpow_right₀ (by norm_num) (by omega)
      refine absurd hone (not_le.2 ?_)
      calc (1 : ℚ) < 2 ^ 52 * 2 ^ (-51 : ℤ) := by norm_num
        _ ≤ 2 ^ 52 * 2 ^ e := by gcongr
        _ = ((2 ^ 52 : ℕ) : ℚ) * 2 ^ e := by norm_cast
    refine ⟨2 ^ 53 - 1, e - 1, by omega, by omega, .inl (by omega), by omega, ?_⟩
    rw [zpow_sub_one₀ two_ne_zero]
    push_cast
    ring

/-- A number up to one has another one within reach. -/
theorem exists_amount_within_reach {u : UnpackedFloat} (hu : Canonical u)
    (hfinite : u.isFinite = true) (hone : |amount u| ≤ 1) :
    ∃ v, Canonical v ∧ v.isFinite = true ∧ bounded v = v ∧ amount v ≠ amount u ∧
      |amount v - amount u| < reach := by
  cases hu with
  | notANumber => cases hfinite
  | infinity => cases hfinite
  | zero s =>
    have hpos : (0 : ℚ) < 2 ^ (-1074 : ℤ) := by positivity
    have hleast : amount (.finite .positive 1 (-1074) one_pos) = 2 ^ (-1074 : ℤ) := by
      rw [amount_positive, Nat.cast_one, one_mul]
    refine ⟨.finite .positive 1 (-1074) one_pos, .finite (by norm_num) le_rfl (.inr rfl), rfl, rfl,
      ?_, ?_⟩
    · rw [hleast]
      exact hpos.ne'
    · rw [hleast]
      calc |(2 : ℚ) ^ (-1074 : ℤ) - 0| = 2 ^ (-1074 : ℤ) := by rw [sub_zero, abs_of_pos hpos]
        _ < reach := two_zpow_lt_reach (by norm_num)
  | @finite s m e hm hlt hleast hfull =>
    rw [abs_amount_finite] at hone
    obtain ⟨n, f, hn, hf, hnf, hsmall, hnext⟩ := exists_next hm hlt hleast hfull hone
    have hpos : (0 : ℚ) < 2 ^ f := by positivity
    have hdist : |amount (ofParts s n f) - amount (.finite s m e hm)| = 2 ^ f := by
      cases s with
      | positive =>
        rw [amount_ofParts, amount_positive, hnext]
        simp [Sign.apply]
      | negative =>
        rw [amount_ofParts, amount_negative, hnext]
        simp [Sign.apply]
    refine ⟨ofParts s n f, canonical_ofParts s hn hf hnf, ?_, ?_, ?_, ?_⟩
    · unfold ofParts
      split <;> rfl
    · unfold ofParts
      split
      · rfl
      · exact if_pos (by omega)
    · intro heq
      rw [heq, sub_self, abs_zero] at hdist
      exact hpos.ne hdist
    · rw [hdist]
      exact two_zpow_lt_reach hsmall

/-- Up to one, every number has another one within reach. -/
theorem exists_within_reach {x : Float} (hx : x.isFinite = true) (hone : |value x| ≤ 1) :
    ∃ y : Float, y.isFinite = true ∧ value y ≠ value x ∧ |value y - value x| < reach := by
  obtain ⟨v, hv, hfinite, hbounded, hne, hreach⟩ :=
    exists_amount_within_reach (canonical_unpack x.toModel) hx hone
  have hunpack : (Float.Model.pack v).unpack = v := (unpack_pack hv).trans hbounded
  refine ⟨.ofModel (Float.Model.pack v), ?_, ?_, ?_⟩
  · change (Float.Model.pack v).unpack.isFinite = true
    rw [hunpack, hfinite]
  · change amount (Float.Model.pack v).unpack ≠ _
    rwa [hunpack]
  · change |amount (Float.Model.pack v).unpack - _| < _
    rwa [hunpack]

end Foreman.Number
