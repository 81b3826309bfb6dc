import Foreman.Proofs.Number.Value
/-!
# Rounding

A magnitude that has too many binary places is cut off, and two further bits remember what has been
cut off: the first place that is gone, and whether anything comes after it. With them the mantissa
is rounded to the nearest whole number, and to the even one of two. Rounding up may carry into one
more place, which is a zero and is cut off without a loss.

## Main definitions

* `Foreman.Number.NearestEven`: a whole number is the nearest one, and even if there are two.
* `Foreman.Number.CutOff`: what a mantissa and its two bits say of the number they are cut off from.
* `Foreman.Number.lastPlace`: the exponent that the last place of a magnitude has.

## Main results

* `Foreman.Number.CutOff.shiftRight`, `Foreman.Number.CutOff.nearestEven`: cutting off more places,
  and rounding.
* `Foreman.Number.round_nearestEven`: a magnitude is rounded at its last place.
-/

namespace Foreman.Number

open Float.Model Float.Model.UnpackedFloat

/-- A whole number is the nearest one to `q`, and it is even if another one is as near. -/
structure NearestEven (q : ℚ) (r : ℕ) : Prop where
  /-- It is no farther away than one half. -/
  near : |q - r| ≤ 1 / 2
  /-- If it is one half away, it is even. -/
  even : |q - r| = 1 / 2 → Even r

namespace NearestEven

variable {q : ℚ} {r n : ℕ}

theorem natCast (m : ℕ) : NearestEven m m := by
  constructor <;> norm_num

theorem le_of_le (h : NearestEven q r) (hq : q ≤ n) : r ≤ n := by
  have hnear := (abs_le.1 h.near).1
  have hlt : (r : ℚ) < (n + 1 : ℕ) := by push_cast; linarith
  exact Nat.lt_succ_iff.1 (by exact_mod_cast hlt)

theorem le_of_ge (h : NearestEven q r) (hq : n ≤ q) : n ≤ r := by
  have hnear := (abs_le.1 h.near).2
  have hlt : (n : ℚ) < (r + 1 : ℕ) := by push_cast; linarith
  exact Nat.lt_succ_iff.1 (by exact_mod_cast hlt)

/-- One half above an odd number is rounded up. -/
theorem le_iff_of_odd (h : NearestEven q r) (hn : Odd n) : r ≤ n ↔ q < n + 1 / 2 := by
  constructor
  · intro hr
    by_contra hge
    have hge : n + 1 / 2 ≤ q := not_lt.1 hge
    have hnear := (abs_le.1 h.near).2
    have hr' : (r : ℚ) ≤ n := by exact_mod_cast hr
    have htie : |q - r| = 1 / 2 := by rw [abs_of_nonneg] <;> linarith
    obtain rfl : r = n := le_antisymm hr (by exact_mod_cast (by linarith : (n : ℚ) ≤ r))
    exact Nat.not_even_iff_odd.2 hn (h.even htie)
  · intro hq
    have hnear := (abs_le.1 h.near).1
    have hlt : (r : ℚ) < (n + 1 : ℕ) := by push_cast; linarith
    exact Nat.lt_succ_iff.1 (by exact_mod_cast hlt)

end NearestEven

/-! ### Mantissas that are cut off -/

/-- What a mantissa with its two bits says of the number that it is cut off from. -/
def CutOff (em : ExtendedMantissa) (q : ℚ) : Prop :=
  match em.roundBit, em.stickyBit with
  | false, false => q = em.mantissa
  | false, true => em.mantissa < q ∧ q < em.mantissa + 1 / 2
  | true, false => q = em.mantissa + 1 / 2
  | true, true => em.mantissa + 1 / 2 < q ∧ q < em.mantissa + 1

namespace CutOff

variable {em : ExtendedMantissa} {q : ℚ}

theorem exact (m : ℕ) : CutOff (.ofMantissaAndAccuracy m .exact) m := rfl

theorem shiftRightOne (h : CutOff em q) : CutOff em.shiftRightOne (q / 2) := by
  obtain ⟨m, roundBit, stickyBit⟩ := em
  obtain ⟨k, rfl | rfl⟩ := m.even_or_odd'
  · -- the place that is cut off is a zero
    have hhalf : 2 * k / 2 = k := by omega
    cases roundBit <;> cases stickyBit <;>
      simp only [CutOff, ExtendedMantissa.shiftRightOne, hhalf, Nat.mul_mod_right,
        bne_self_eq_false, Bool.or_false, Bool.or_true] at h ⊢ <;>
      push_cast at h
    · linarith
    · exact ⟨by linarith, by linarith⟩
    · exact ⟨by linarith, by linarith⟩
    · exact ⟨by linarith, by linarith⟩
  · have hhalf : (2 * k + 1) / 2 = k := by omega
    have hplace : ((2 * k + 1) % 2 != 0) = true := by simp
    cases roundBit <;> cases stickyBit <;>
      simp only [CutOff, ExtendedMantissa.shiftRightOne, hhalf, hplace, Bool.or_false,
        Bool.or_true] at h ⊢ <;>
      push_cast at h
    · linarith
    · exact ⟨by linarith, by linarith⟩
    · exact ⟨by linarith, by linarith⟩
    · exact ⟨by linarith, by linarith⟩

/-- More places are cut off. -/
theorem shiftRight (h : CutOff em q) (k : ℕ) : CutOff (em >>> k) (q / 2 ^ k) := by
  induction k with
  | zero =>
    rw [pow_zero, div_one]
    exact h
  | succ k ih =>
    rw [pow_succ, ← div_div]
    exact ih.shiftRightOne

/-- A mantissa is rounded to the nearest whole number. -/
theorem nearestEven (h : CutOff em q) : NearestEven q em.roundedMantissa := by
  obtain ⟨m, roundBit, stickyBit⟩ := em
  cases roundBit <;> cases stickyBit
  · obtain rfl : q = m := h
    exact .natCast m
  · obtain ⟨hlt, hlt'⟩ : m < q ∧ q < m + 1 / 2 := h
    have hq : |q - m| < 1 / 2 := abs_lt.2 ⟨by linarith, by linarith⟩
    exact ⟨hq.le, fun htie => absurd htie hq.ne⟩
  · obtain rfl : q = m + 1 / 2 := h
    change NearestEven _ (m + m % 2)
    have hq : |(m : ℚ) + 1 / 2 - (m + m % 2 : ℕ)| = 1 / 2 := by
      rcases Nat.mod_two_eq_zero_or_one m with hmod | hmod <;> rw [hmod] <;> push_cast
      · rw [abs_of_pos] <;> linarith
      · rw [abs_of_neg] <;> linarith
    exact ⟨hq.le, fun _ => Nat.even_iff.2 (by omega)⟩
  · obtain ⟨hlt, hlt'⟩ : m + 1 / 2 < q ∧ q < m + 1 := h
    have hq : |q - (m + 1 : ℕ)| < 1 / 2 := abs_lt.2 (by push_cast; constructor <;> linarith)
    exact ⟨hq.le, fun htie => absurd htie hq.ne⟩

end CutOff

/-! ### Rounding a magnitude -/

section Round

variable {m : ℕ} {e : ℤ} (s : Sign)

/-- The exponent of the last place that a magnitude has once it is rounded. -/
def lastPlace (m : ℕ) (e : ℤ) : ℤ :=
  max (totalExponent m e - 53) (-1074)

theorem targetExponent_eq_lastPlace (m : ℕ) (e : ℤ) :
    Format.binary64.targetExponent (totalExponent m e) = lastPlace m e := rfl

theorem magnitude_lt_two_zpow (m : ℕ) (e : ℤ) : (m : ℚ) * 2 ^ e < 2 ^ totalExponent m e := by
  rw [totalExponent, zpow_add₀ two_ne_zero]
  gcongr
  exact_mod_cast Nat.lt_log2_self

theorem two_zpow_le_magnitude (hm : 0 < m) (e : ℤ) :
    (2 : ℚ) ^ (totalExponent m e - 1) ≤ m * 2 ^ e := by
  rw [totalExponent, show (m.log2 : ℤ) + 1 + e - 1 = m.log2 + e by ring, zpow_add₀ two_ne_zero]
  gcongr
  exact_mod_cast Nat.log2_self_le hm.ne'

/-- Counted in its last place, a magnitude has at most fifty-three places. -/
theorem lastPlaces_lt (m : ℕ) (e : ℤ) : (m : ℚ) * 2 ^ e / 2 ^ lastPlace m e < 2 ^ 53 := by
  rw [div_lt_iff₀ (by positivity), ← zpow_natCast, ← zpow_add₀ two_ne_zero]
  refine (magnitude_lt_two_zpow m e).trans_le (zpow_le_zpow_right₀ (by norm_num) ?_)
  rw [lastPlace]
  push_cast
  omega

/-- It has all of them unless its last place is the least one. -/
theorem le_lastPlaces (hm : 0 < m) (h : -1074 < lastPlace m e) :
    2 ^ 52 ≤ (m : ℚ) * 2 ^ e / 2 ^ lastPlace m e := by
  rw [le_div_iff₀ (by positivity), ← zpow_natCast, ← zpow_add₀ two_ne_zero]
  refine (zpow_le_zpow_right₀ (by norm_num) ?_).trans (two_zpow_le_magnitude hm e)
  rw [lastPlace] at h ⊢
  push_cast
  omega

/-- The number with a sign, a mantissa and an exponent, where the mantissa may be zero. -/
def ofParts (s : Sign) (m : ℕ) (e : ℤ) : UnpackedFloat :=
  if h : m = 0 then .zero s else .finite s m e (Nat.pos_of_ne_zero h)

@[simp] theorem amount_ofParts (m : ℕ) (e : ℤ) :
    amount (ofParts s m e) = (s.apply m : ℤ) * 2 ^ e := by
  unfold ofParts
  split
  · next h => cases s <;> simp [amount, Sign.apply, h]
  · rfl

theorem canonical_ofParts (hlt : m < 2 ^ 53) (hleast : -1074 ≤ e)
    (hfull : 2 ^ 52 ≤ m ∨ e = -1074) : Canonical (ofParts s m e) := by
  unfold ofParts
  split
  · exact .zero s
  · exact .finite hlt hleast hfull

/-- A mantissa that is not cut off, and one that is cut off by one place. -/
theorem shiftToTargetExponent_fits {r : ℕ} {t : ℤ} (hr : r ≤ 2 ^ 53) (ht : -1074 ≤ t) :
    shiftToTargetExponent Format.binary64 r t .exact =
      if r = 2 ^ 53 then (⟨2 ^ 52, false, false⟩, t + 1) else (⟨r, false, false⟩, t) := by
  unfold shiftToTargetExponent
  rw [targetExponent_eq_lastPlace]
  split
  · next h =>
    subst h
    have hplace : lastPlace (2 ^ 53) t = t + 1 := by
      rw [lastPlace, totalExponent, Nat.log2_two_pow]
      omega
    rw [hplace, shiftToExponent, show (t + 1 - t).toNat = 1 by omega]
    rfl
  · next h =>
    have hlog : r.log2 ≤ 52 := by
      rcases Nat.eq_zero_or_pos r with rfl | hpos
      · decide
      · have := (Nat.log2_lt hpos.ne').2 (lt_of_le_of_ne hr h)
        omega
    have hplace : lastPlace r t ≤ t := by
      rw [lastPlace, totalExponent]
      omega
    rw [shiftToExponent, show (lastPlace r t - t).toNat = 0 by omega]
    exact congrArg (Prod.mk _) (add_zero t)

/-- The first shift cuts a magnitude off at its last place. -/
theorem shiftToTargetExponent_cutOff (he : e ≤ lastPlace m e) :
    ∃ em, shiftToTargetExponent Format.binary64 m e .exact = (em, lastPlace m e) ∧
      CutOff em (m * 2 ^ e / 2 ^ lastPlace m e) := by
  obtain ⟨k, hk⟩ := Int.le.dest he
  unfold shiftToTargetExponent
  rw [targetExponent_eq_lastPlace, shiftToExponent, ← hk, show (e + k - e).toNat = k by omega]
  refine ⟨_, rfl, ?_⟩
  have hcut := (CutOff.exact m).shiftRight k
  rwa [← zpow_natCast, show (k : ℤ) = e + k - e by ring, zpow_sub₀ two_ne_zero, ← div_mul,
    div_mul_eq_mul_div] at hcut

/-- What has been rounded is shifted once more. -/
theorem roundWithAccuracy_eq_ofParts {em : ExtendedMantissa} {t : ℤ}
    (h : shiftToTargetExponent Format.binary64 m e .exact = (em, t)) :
    roundWithAccuracy Format.binary64 s m e .exact =
      ofParts s (shiftToTargetExponent Format.binary64 em.roundedMantissa t .exact).1.mantissa
        (shiftToTargetExponent Format.binary64 em.roundedMantissa t .exact).2 := by
  unfold roundWithAccuracy
  rw [h]
  rfl

/-- A magnitude without too large an exponent is rounded at its last place. -/
theorem roundWithAccuracy_nearestEven (hm : 0 < m) (he : e ≤ lastPlace m e) :
    ∃ r, NearestEven (m * 2 ^ e / 2 ^ lastPlace m e) r ∧
      amount (roundWithAccuracy Format.binary64 s m e .exact) =
        (s.apply r : ℤ) * 2 ^ lastPlace m e ∧
      Canonical (roundWithAccuracy Format.binary64 s m e .exact) := by
  obtain ⟨em, hshift, hcut⟩ := shiftToTargetExponent_cutOff he
  have hnear := hcut.nearestEven
  have hleast : -1074 ≤ lastPlace m e := le_max_right _ _
  have hle : em.roundedMantissa ≤ 2 ^ 53 :=
    hnear.le_of_le (by exact_mod_cast (lastPlaces_lt m e).le)
  have hfull : 2 ^ 52 ≤ em.roundedMantissa ∨ lastPlace m e = -1074 := by
    rcases hleast.eq_or_lt with heq | hlt
    · exact .inr heq.symm
    · exact .inl (hnear.le_of_ge (by exact_mod_cast le_lastPlaces hm hlt))
  refine ⟨em.roundedMantissa, hnear, ?_⟩
  rw [roundWithAccuracy_eq_ofParts s hshift, shiftToTargetExponent_fits hle hleast]
  by_cases hcarry : em.roundedMantissa = 2 ^ 53
  · -- rounding up has carried into one more place
    rw [if_pos hcarry, hcarry]
    refine ⟨?_, canonical_ofParts s (by norm_num) (by omega) (.inl le_rfl)⟩
    rw [amount_ofParts, zpow_add_one₀ two_ne_zero]
    cases s <;> simp [Sign.apply] <;> ring
  · rw [if_neg hcarry]
    exact ⟨amount_ofParts s _ _, canonical_ofParts s (lt_of_le_of_ne hle hcarry) hleast hfull⟩

theorem lastPlace_shiftLeft (hm : 0 < m) (k : ℕ) :
    lastPlace (m <<< k) (e - k) = lastPlace m e := by
  rw [lastPlace, Magnitude.totalExponent_shiftLeft hm.ne', sub_add_cancel, lastPlace]

/-- A magnitude is rounded at its last place. -/
theorem round_nearestEven (hm : 0 < m) (e : ℤ) :
    ∃ r, NearestEven (m * 2 ^ e / 2 ^ lastPlace m e) r ∧
      amount (round Format.binary64 s m e) = (s.apply r : ℤ) * 2 ^ lastPlace m e ∧
      Canonical (round Format.binary64 s m e) := by
  have hplace := lastPlace_shiftLeft (e := e) hm (e - lastPlace m e).toNat
  have hmagnitude : ((m <<< (e - lastPlace m e).toNat : ℕ) : ℚ) *
      2 ^ (e - (e - lastPlace m e).toNat) = m * 2 ^ e := by
    rw [Nat.shiftLeft_eq]
    push_cast
    rw [← zpow_natCast, mul_assoc, ← zpow_add₀ two_ne_zero, add_sub_cancel]
  have hround := roundWithAccuracy_nearestEven s
    (m := m <<< (e - lastPlace m e).toNat) (e := e - (e - lastPlace m e).toNat)
    (by rw [Nat.shiftLeft_eq]; positivity) (by rw [hplace]; omega)
  rwa [hplace, hmagnitude] at hround

end Round

end Foreman.Number
