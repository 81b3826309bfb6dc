import Mathlib
/-!
# Whole numbers as numbers

A whole number of 64 bits stands for the number nearest to it, and that number is finite: rounding
adds at most one binary place to the magnitude of a number, and a product has one place more than
its factors have together, which is far from where the finite numbers end.

## Main definitions

* `Foreman.Magnitude.Below`: a number is zero, or finite and of at most so many binary places.

## Main results

* `Foreman.Magnitude.below_roundWithAccuracy`: rounding adds at most one place.
* `Foreman.Magnitude.Below.mul`: the places of a product.
* `Foreman.Magnitude.Below.unpack_pack`: packing keeps what is well below the largest number.
* `Foreman.Magnitude.isFinite_ofInt`: the number nearest to a whole number of 64 bits is finite.
-/

namespace Foreman.Magnitude

open Float.Model Float.Model.UnpackedFloat

/-- A number is zero, or finite and less than two to the power of `k`. -/
inductive Below (k : Int) : UnpackedFloat → Prop
  | zero (s : Sign) : Below k (.zero s)
  | finite {s : Sign} {m : Nat} {e : Int} (hm : 0 < m) (h : totalExponent m e ≤ k) :
    Below k (.finite s m e hm)

theorem Below.mono {j k : Int} {x : UnpackedFloat} (h : Below j x) (hjk : j ≤ k) : Below k x := by
  cases h with
  | zero s => exact .zero s
  | finite hm h => exact .finite hm (h.trans hjk)

theorem Below.isFinite {k : Int} {x : UnpackedFloat} (h : Below k x) : x.isFinite = true := by
  cases h <;> rfl

theorem Below.neg {k : Int} {x : UnpackedFloat} (h : Below k x) : Below k x.neg := by
  cases h with
  | zero s => exact .zero _
  | finite hm h => exact .finite hm h

/-! ### Binary places -/

theorem log2_mono {m n : Nat} (h : m ≤ n) : m.log2 ≤ n.log2 := by
  rcases Nat.eq_zero_or_pos m with rfl | hm
  · simp
  · exact (Nat.le_log2 (by omega)).2 ((Nat.log2_self_le (by omega)).trans h)

theorem log2_succ_le (m : Nat) : (m + 1).log2 ≤ m.log2 + 1 := by
  have hlt := Nat.lt_log2_self (n := m)
  have hpow : 2 ^ (m.log2 + 2) = 2 * 2 ^ (m.log2 + 1) := by rw [Nat.pow_succ]; omega
  have := (Nat.log2_lt (n := m + 1) (k := m.log2 + 2) (by omega)).2 (by omega)
  omega

theorem log2_mul_le {m n : Nat} (hm : m ≠ 0) (hn : n ≠ 0) :
    (m * n).log2 ≤ m.log2 + n.log2 + 1 := by
  have hlt := Nat.mul_lt_mul'' (Nat.lt_log2_self (n := m)) (Nat.lt_log2_self (n := n))
  rw [← Nat.pow_add] at hlt
  have := (Nat.log2_lt (Nat.mul_ne_zero hm hn)).2 hlt
  omega

theorem log2_div_pow {m k : Nat} (h : m / 2 ^ k ≠ 0) : (m / 2 ^ k).log2 + k ≤ m.log2 := by
  have hm : m ≠ 0 := by rintro rfl; simp at h
  rw [Nat.le_log2 hm, Nat.pow_add]
  exact (Nat.mul_le_mul_right _ (Nat.log2_self_le h)).trans (Nat.div_mul_le_self m _)

theorem totalExponent_shiftLeft {m : Nat} (hm : m ≠ 0) (k : Nat) (e : Int) :
    totalExponent (m <<< k) e = totalExponent m (e + k) := by
  have hlog : (m * 2 ^ k).log2 = m.log2 + k := by
    rw [Nat.log2_eq_iff (by positivity)]
    have hle := Nat.mul_le_mul_right (2 ^ k) (Nat.log2_self_le hm)
    have hlt := Nat.mul_lt_mul_of_pos_right (Nat.lt_log2_self (n := m)) (Nat.two_pow_pos k)
    rw [← Nat.pow_add] at hle hlt
    exact ⟨hle, by rwa [show m.log2 + k + 1 = m.log2 + 1 + k by omega]⟩
  unfold totalExponent
  rw [Nat.shiftLeft_eq, hlog]
  omega

/-! ### Rounding -/

theorem shift_mantissa (em : ExtendedMantissa) (k : Nat) :
    (em >>> k).mantissa = em.mantissa / 2 ^ k := by
  induction k generalizing em with
  | zero => simp [HShiftRight.hShiftRight, Nat.repeat]
  | succ k ih =>
    change (em >>> k).mantissa / 2 = _
    rw [ih, Nat.div_div_eq_div_mul, Nat.pow_succ]

theorem roundedMantissa_le (em : ExtendedMantissa) : em.roundedMantissa ≤ em.mantissa + 1 := by
  obtain ⟨m, r, s⟩ := em
  cases r <;> cases s <;>
    simp [ExtendedMantissa.roundedMantissa, ExtendedMantissa.accuracy, Accuracy.roundToNearestEven]
  omega

theorem mantissa_ofMantissaAndAccuracy (m : Nat) (a : Accuracy) :
    (ExtendedMantissa.ofMantissaAndAccuracy m a).mantissa = m := by
  cases a with
  | exact => rfl
  | inexact o => cases o <;> rfl

/-- A mantissa is shifted to the exponent that its magnitude asks for, if that is larger than its
own, and loses the places below it. -/
theorem shiftToTargetExponent_eq {m : Nat} {e e' : Int} {a : Accuracy} {em : ExtendedMantissa}
    (h : shiftToTargetExponent Format.binary64 m e a = (em, e')) :
    ∃ k : Nat, em.mantissa = m / 2 ^ k ∧ e' = e + k ∧
      (k = 0 ∨ e + k = max (totalExponent m e - 53) (-1074)) := by
  refine ⟨(max (totalExponent m e - 53) (-1074) - e).toNat, ?_, ?_, by omega⟩
  · have := congrArg (fun p => p.1.mantissa) h
    simpa [shiftToTargetExponent, shiftToExponent, shift_mantissa, mantissa_ofMantissaAndAccuracy,
      Format.targetExponent, Format.mantissaBits, Format.minExponent, eq_comm] using this
  · have := congrArg Prod.snd h
    simpa [shiftToTargetExponent, shiftToExponent,
      Format.targetExponent, Format.mantissaBits, Format.minExponent, eq_comm] using this

/-- Rounding adds at most one place. -/
theorem below_roundWithAccuracy (s : Sign) {m : Nat} {e k : Int} (a : Accuracy)
    (h : totalExponent m e ≤ k) (hk : 0 ≤ k) :
    Below (k + 1) (roundWithAccuracy Format.binary64 s m e a) := by
  unfold roundWithAccuracy
  rcases hfirst : shiftToTargetExponent Format.binary64 m e a with ⟨em, e'⟩
  obtain ⟨j, hm, he, hj⟩ := shiftToTargetExponent_eq hfirst
  -- the first shift leaves `em`; rounding it up may carry into one more place
  have hround := log2_mono (roundedMantissa_le em)
  have htotal : totalExponent em.roundedMantissa e' ≤ k + 1 := by
    by_cases hz : em.mantissa = 0
    · rw [hz, show Nat.log2 (0 + 1) = 0 by decide] at hround
      unfold totalExponent at h hj ⊢
      omega
    · have hdiv := log2_div_pow (hm ▸ hz)
      rw [← hm] at hdiv
      have hsucc := log2_succ_le em.mantissa
      unfold totalExponent at h ⊢
      omega
  -- the second shift, which undoes a carry, adds none
  rcases hsecond : shiftToTargetExponent Format.binary64 em.roundedMantissa e' .exact with
    ⟨em', e''⟩
  obtain ⟨j', hm', he', -⟩ := shiftToTargetExponent_eq hsecond
  simp only [hsecond]
  split
  · exact .zero s
  · next hne =>
    have hdiv := log2_div_pow (hm' ▸ hne)
    rw [← hm'] at hdiv
    refine .finite _ ?_
    unfold totalExponent at htotal ⊢
    omega

/-- A product has at most one place more than its factors have together. -/
theorem Below.mul {j k : Int} {x y : UnpackedFloat} (hx : Below j x) (hy : Below k y)
    (h : 0 ≤ j + k) : Below (j + k + 1) (UnpackedFloat.mul Format.binary64 x y) := by
  cases hx with
  | zero s => cases hy <;> exact .zero _
  | finite hm hx =>
    cases hy with
    | zero s => exact .zero _
    | finite hm' hy =>
      refine below_roundWithAccuracy _ .exact ?_ h
      have hlog := log2_mul_le hm.ne' hm'.ne'
      unfold totalExponent at hx hy ⊢
      omega

/-! ### Packing -/

theorem toNat_append_one (b : BitVec 52) : (1#1 ++ b).toNat = 2 ^ 52 + b.toNat := by
  rw [BitVec.toNat_append, ← Nat.shiftLeft_add_eq_or_of_lt b.isLt]
  simp [Nat.shiftLeft_eq]

/-- The number of given components is finite unless all bits of the exponent are set. -/
theorem below_unpack_packComponents (s : Sign) (exponent : BitVec 11) (mantissa : BitVec 52)
    {k : Int} (he : exponent.toNat < 2047) (hle : (exponent.toNat : Int) - 1022 ≤ k) :
    Below k (UnpackedFloat.unpack Format.binary64
      (packComponents Format.binary64 s exponent mantissa)) := by
  have hne : exponent ≠ -1#11 := by
    rintro rfl
    exact absurd he (by decide)
  have hmantissa := mantissa.isLt
  unfold UnpackedFloat.unpack
  simp only [unpackMantissa_packComponents, unpackExponent_packComponents]
  rw [if_neg hne]
  split
  · split
    · exact .zero _
    · next hz =>
      have hlog := (Nat.log2_lt fun h => hz (BitVec.eq_of_toNat_eq h)).2 hmantissa
      refine .finite _ ?_
      simp [totalExponent, Format.exponentBias]
      omega
  · have hlog := (Nat.log2_lt (n := (1#1 ++ mantissa).toNat) (k := 53)
      (by rw [toNat_append_one]; omega)).2 (by rw [toNat_append_one]; omega)
    refine .finite _ ?_
    simp [totalExponent, Format.exponentBias]
    omega

/-- A number that is packed and unpacked is as large as before. -/
theorem Below.unpack_pack {k : Int} {x : UnpackedFloat} (h : Below k x) (hk : 0 ≤ k)
    (hk' : k < 972) : Below k (Float.Model.pack x).unpack := by
  change Below k (UnpackedFloat.unpack Format.binary64 (UnpackedFloat.pack Format.binary64 x))
  cases h with
  | zero s => exact below_unpack_packComponents s 0 0 (by decide) (by simp; omega)
  | @finite s m e hm h =>
    have hbiased : (e + (Format.exponentBias Format.binary64 : Nat) + (52 : Nat)).toNat < 2047 ∧
        (m.log2 + 1 = 53 →
          ((e + (Format.exponentBias Format.binary64 : Nat) + (52 : Nat)).toNat : Int) - 1022 ≤
            k) := by
      rw [show Format.exponentBias Format.binary64 = 1023 by decide]
      unfold totalExponent at h
      omega
    unfold UnpackedFloat.pack
    dsimp only
    generalize (e + (Format.exponentBias Format.binary64 : Nat) + (52 : Nat)).toNat = biased
      at hbiased ⊢
    rw [if_neg (show ¬ 2 ^ 11 ≤ biased + 1 by omega)]
    split
    · next hnormal =>
      have htoNat : (BitVec.ofNat 11 biased).toNat = biased := by
        rw [BitVec.toNat_ofNat, Nat.mod_eq_of_lt (by omega)]
      exact below_unpack_packComponents s _ _ (by omega) (by rw [htoNat]; exact hbiased.2 hnormal)
    · exact below_unpack_packComponents s _ _ (by decide) (by simp; omega)

/-! ### Whole numbers -/

theorem below_ofUInt64 (n : UInt64) : Below 65 (Float.Model.ofUInt64 n).unpack := by
  refine Below.unpack_pack ?_ (by omega) (by omega)
  unfold UnpackedFloat.ofUInt64 UnpackedFloat.ofNat UnpackedFloat.ofInt
    UnpackedFloat.normalize
  split
  · next hlt => rw [Int.compare_eq_lt] at hlt; omega
  · exact .zero _
  · next hgt =>
    rw [Int.compare_eq_gt] at hgt
    refine below_roundWithAccuracy (k := 64) _ .exact ?_ (by omega)
    have hn : n.toNat ≠ 0 := by omega
    have hlog := (Nat.log2_lt hn).2 n.toNat_lt
    rw [Int.toNat_natCast, totalExponent_shiftLeft hn]
    unfold totalExponent
    omega

theorem below_ofScientific {n : Nat} (h : n < 2 ^ 64) :
    Below 67 (UnpackedFloat.ofScientific Format.binary64 n 0) := by
  unfold UnpackedFloat.ofScientific
  split
  · exact .zero _
  · next hn =>
    rw [if_neg (by decide), if_neg (by simp only [Int.not_lt]; omega), if_pos (by decide)]
    have hlog := (Nat.log2_lt hn).2 h
    refine (Below.mul (j := 64) (k := 1) (.finite _ ?_) (.finite _ ?_) (by omega)).mono (by omega)
    · rw [totalExponent_shiftLeft hn]
      unfold totalExponent
      omega
    · decide

/-- The number nearest to a natural number of 64 bits is finite. -/
theorem below_ofNat {n : Nat} (h : n < 2 ^ 64) : Below 67 (Float.ofNat n).toModel.unpack := by
  change Below 67 (Float.ofScientific n false 0).toModel.unpack
  unfold Float.ofScientific
  split
  · have hone : Below 1 (Float.exactlyRepresentablePowersOfTen[0]).toModel.unpack :=
      .finite (m := 2 ^ 52) (e := -52) (by decide) (by decide)
    simp only [Bool.false_eq_true, if_false]
    exact ((below_ofUInt64 n.toUInt64).mul hone (by omega)).unpack_pack (by omega) (by omega)
  · exact (below_ofScientific h).unpack_pack (by omega) (by omega)

/-- The number nearest to a whole number of 64 bits is finite. -/
theorem isFinite_ofInt {n : Int} (h : -(2 ^ 63) ≤ n ∧ n < 2 ^ 64) :
    (Float.ofInt n).isFinite = true := by
  cases n with
  | ofNat n => exact (below_ofNat (n := n) (by simp at h; omega)).isFinite
  | negSucc n =>
    have hneg := (below_ofNat (n := n.succ) (by omega)).neg
    exact (hneg.unpack_pack (by omega) (by omega)).isFinite

end Foreman.Magnitude
