import Foreman.Matching
import Foreman.Proofs.Number.Rounding
/-!
# Numbers that are close to each other

Two numbers are taken for the same if they differ by less than the least step above one. Their
difference is rounded before it is compared with that step, and just below the step the numbers lie
so close that less than half a place is lost: the difference is found to be smaller than the step if
and only if it is smaller by more than half the place before it.

## Main definitions

* `Foreman.Number.reach`: how far apart two numbers are that are just not taken for the same.

## Main results

* `Foreman.Number.abs_amount_round_lt_iff`: what is rounded to less than the least step.
* `Foreman.Number.sub_spec`: the difference of two finite numbers.
* `Foreman.Number.abs_sub_lt_leastStep_iff`: when two numbers are taken for the same.
-/

namespace Foreman.Number

open Float.Model Float.Model.UnpackedFloat

/-- The least step above one, less half the last place of the number before it. -/
def reach : ℚ :=
  2 ^ (-52 : ℤ) - 2 ^ (-106 : ℤ)

theorem reach_pos : 0 < reach := by
  norm_num [reach]

theorem reach_lt : reach < 2 ^ (-52 : ℤ) := by
  norm_num [reach]

/-! ### What is rounded to less than the least step -/

section Magnitudes

variable {m : ℕ} {e : ℤ}

/-- A magnitude is rounded to less than the least step if and only if it is within reach. -/
theorem abs_amount_round_lt_iff (s : Sign) (hm : 0 < m) (e : ℤ) :
    |amount (UnpackedFloat.round Format.binary64 s m e)| < 2 ^ (-52 : ℤ) ↔
      (m : ℚ) * 2 ^ e < reach := by
  obtain ⟨r, hnear, hamount, -⟩ := round_nearestEven s hm e
  have habs : |amount (UnpackedFloat.round Format.binary64 s m e)| = r * 2 ^ lastPlace m e := by
    rw [hamount, abs_mul, abs_of_pos (a := (2 : ℚ) ^ lastPlace m e) (by positivity)]
    cases s <;> simp [Sign.apply]
  have hlt := lastPlaces_lt m e
  have hfull := le_lastPlaces (e := e) hm
  have hpow : (0 : ℚ) < 2 ^ lastPlace m e := by positivity
  obtain ⟨q, hq⟩ : ∃ q, q = (m : ℚ) * 2 ^ e / 2 ^ lastPlace m e := ⟨_, rfl⟩
  have hmagnitude : (m : ℚ) * 2 ^ e = q * 2 ^ lastPlace m e := by
    rw [hq, div_mul_cancel₀ _ hpow.ne']
  rw [← hq] at hnear hlt hfull
  rw [habs, hmagnitude]
  rcases lt_trichotomy (lastPlace m e) (-105) with hbelow | hplace | habove
  · -- neither comes near the step
    have hr : (r : ℚ) ≤ 2 ^ 53 := by exact_mod_cast hnear.le_of_le (by exact_mod_cast hlt.le)
    have hpow' : (2 : ℚ) ^ lastPlace m e ≤ 2 ^ (-106 : ℤ) :=
      zpow_le_zpow_right₀ (by norm_num) (by omega)
    refine iff_of_true ?_ ?_
    · calc (r : ℚ) * 2 ^ lastPlace m e ≤ 2 ^ 53 * 2 ^ (-106 : ℤ) := by gcongr
        _ < 2 ^ (-52 : ℤ) := by norm_num
    · calc q * 2 ^ lastPlace m e ≤ 2 ^ 53 * 2 ^ (-106 : ℤ) := by gcongr
        _ < reach := by norm_num [reach]
  · -- the step is one place beyond the largest mantissa, and that mantissa is odd
    rw [hplace]
    calc (r : ℚ) * 2 ^ (-105 : ℤ) < 2 ^ (-52 : ℤ) ↔ (r : ℚ) < 2 ^ 53 := by
          rw [show (2 : ℚ) ^ (-52 : ℤ) = 2 ^ 53 * 2 ^ (-105 : ℤ) by norm_num,
            mul_lt_mul_iff_left₀ (by positivity)]
      _ ↔ r ≤ 2 ^ 53 - 1 := by norm_cast; omega
      _ ↔ q < (2 ^ 53 - 1 : ℕ) + 1 / 2 := hnear.le_iff_of_odd (by decide)
      _ ↔ q * 2 ^ (-105 : ℤ) < reach := by
          rw [show reach = ((2 ^ 53 - 1 : ℕ) + 1 / 2) * 2 ^ (-105 : ℤ) by norm_num [reach],
            mul_lt_mul_iff_left₀ (by positivity)]
  · -- both are at least the step
    have hq' : 2 ^ 52 ≤ q := hfull (by omega)
    have hr : (2 : ℚ) ^ 52 ≤ r := by exact_mod_cast hnear.le_of_ge (by exact_mod_cast hq')
    have hpow' : (2 : ℚ) ^ (-104 : ℤ) ≤ 2 ^ lastPlace m e :=
      zpow_le_zpow_right₀ (by norm_num) (by omega)
    have hstep : (2 : ℚ) ^ (-52 : ℤ) = 2 ^ 52 * 2 ^ (-104 : ℤ) := by norm_num
    refine iff_of_false (not_lt.2 ?_) (not_lt.2 (reach_lt.le.trans ?_)) <;> rw [hstep] <;> gcongr

/-- A canonical magnitude is less than the least step if and only if it is within reach. -/
theorem lt_step_iff_lt_reach (hlt : m < 2 ^ 53) (hfull : 2 ^ 52 ≤ m ∨ e = -1074) :
    (m : ℚ) * 2 ^ e < 2 ^ (-52 : ℤ) ↔ (m : ℚ) * 2 ^ e < reach := by
  refine ⟨fun h => ?_, fun h => h.trans reach_lt⟩
  have he : e ≤ -105 := by
    by_contra hge
    have hm : (2 : ℚ) ^ 52 ≤ m := by exact_mod_cast hfull.resolve_right (by omega)
    have hpow : (2 : ℚ) ^ (-104 : ℤ) ≤ 2 ^ e := zpow_le_zpow_right₀ (by norm_num) (by omega)
    refine absurd h (not_lt.2 ?_)
    calc (2 : ℚ) ^ (-52 : ℤ) = 2 ^ 52 * 2 ^ (-104 : ℤ) := by norm_num
      _ ≤ m * 2 ^ e := by gcongr
  have hm : (m : ℚ) ≤ 2 ^ 53 - 1 := by
    have hle : (m : ℚ) + 1 ≤ 2 ^ 53 := by exact_mod_cast hlt
    linarith
  have hpow : (2 : ℚ) ^ e ≤ 2 ^ (-105 : ℤ) := zpow_le_zpow_right₀ (by norm_num) he
  calc (m : ℚ) * 2 ^ e ≤ (2 ^ 53 - 1) * 2 ^ (-105 : ℤ) := by gcongr
    _ < reach := by norm_num [reach]

theorem abs_amount_finite (s : Sign) (e : ℤ) (hm : 0 < m) :
    |amount (.finite s m e hm)| = m * 2 ^ e := by
  cases s
  · rw [amount_negative, abs_neg, abs_of_pos (magnitude_pos hm e)]
  · rw [amount_positive, abs_of_pos (magnitude_pos hm e)]

theorem isFinite_round (s : Sign) (m : ℕ) (e : ℤ) :
    (UnpackedFloat.round Format.binary64 s m e).isFinite = true := by
  unfold UnpackedFloat.round roundWithAccuracy
  dsimp only
  split <;> rfl

/-- A difference that is put down as one mantissa. -/
theorem abs_amount_normalize_lt_iff (n : ℤ) (e : ℤ) (s : Sign) :
    |amount (UnpackedFloat.normalize Format.binary64 n e s)| < 2 ^ (-52 : ℤ) ↔
      |(n : ℚ) * 2 ^ e| < reach := by
  have habs : |(n : ℚ) * 2 ^ e| = n.natAbs * 2 ^ e := by
    rw [abs_mul, abs_of_pos (a := (2 : ℚ) ^ e) (by positivity), Nat.cast_natAbs, Int.cast_abs]
  rw [habs]
  unfold UnpackedFloat.normalize
  split
  · next hneg =>
    have hlt : n < 0 := Int.compare_eq_lt.1 hneg
    rw [show (-n).toNat = n.natAbs by omega]
    exact abs_amount_round_lt_iff _ (by omega) e
  · next hzero =>
    obtain rfl : n = 0 := Int.compare_eq_eq.1 hzero
    norm_num [amount, reach]
  · next hpos =>
    have hlt : 0 < n := Int.compare_eq_gt.1 hpos
    rw [show n.toNat = n.natAbs by omega]
    exact abs_amount_round_lt_iff _ (by omega) e

theorem canonical_normalize (n : ℤ) (e : ℤ) (s : Sign) :
    Canonical (UnpackedFloat.normalize Format.binary64 n e s) := by
  unfold UnpackedFloat.normalize
  split
  · next hneg =>
    have hlt : n < 0 := Int.compare_eq_lt.1 hneg
    obtain ⟨-, -, -, hcanonical⟩ := round_nearestEven .negative (m := (-n).toNat) (by omega) e
    exact hcanonical
  · exact .zero s
  · next hpos =>
    have hlt : 0 < n := Int.compare_eq_gt.1 hpos
    obtain ⟨-, -, -, hcanonical⟩ := round_nearestEven .positive (m := n.toNat) (by omega) e
    exact hcanonical

theorem isFinite_normalize (n : ℤ) (e : ℤ) (s : Sign) :
    (UnpackedFloat.normalize Format.binary64 n e s).isFinite = true := by
  unfold UnpackedFloat.normalize
  split
  · exact isFinite_round _ _ _
  · rfl
  · exact isFinite_round _ _ _

end Magnitudes

/-! ### Differences -/

/-- A mantissa with a smaller exponent stands for the same number. -/
theorem decreaseExponent_amount (s : Sign) (m : ℕ) {e t : ℤ} (h : t ≤ e) :
    ((s.apply (decreaseExponent m e t).1 : ℤ) : ℚ) * 2 ^ t = (s.apply m : ℤ) * 2 ^ e := by
  obtain ⟨k, rfl⟩ := Int.le.dest h
  have hshift : (decreaseExponent m (t + k) t).1 = m * 2 ^ k := by
    rw [decreaseExponent, show (t + k - t).toNat = k by omega, Nat.shiftLeft_eq]
  rw [hshift, zpow_add₀ two_ne_zero, zpow_natCast]
  cases s <;> simp only [Sign.apply] <;> push_cast <;> ring

/-- The difference of finite numbers is put down as less than the least step if and only if they
are within reach of each other. -/
theorem sub_spec {u v : UnpackedFloat} (hu : Canonical u) (hv : Canonical v)
    (hfu : u.isFinite = true) (hfv : v.isFinite = true) :
    Canonical (UnpackedFloat.sub Format.binary64 u v) ∧
      (UnpackedFloat.sub Format.binary64 u v).isFinite = true ∧
      (|amount (UnpackedFloat.sub Format.binary64 u v)| < 2 ^ (-52 : ℤ) ↔
        |amount u - amount v| < reach) := by
  cases hu with
  | notANumber => cases hfu
  | infinity => cases hfu
  | zero s =>
    cases hv with
    | notANumber => cases hfv
    | infinity => cases hfv
    | zero s' =>
      have hzero (t : Sign) : Canonical (.zero t) ∧ UnpackedFloat.isFinite (.zero t) = true ∧
          (|amount (.zero t)| < 2 ^ (-52 : ℤ) ↔ |amount (.zero s) - amount (.zero s')| < reach) :=
        ⟨.zero t, rfl, by norm_num [amount, reach]⟩
      cases s <;> cases s' <;> exact hzero _
    | @finite s' m e hm hlt hleast hfull =>
      refine ⟨.finite hlt hleast hfull, rfl, ?_⟩
      rw [show amount (.zero s) = 0 from rfl, zero_sub, abs_neg, abs_amount_finite]
      exact (abs_amount_finite (-s') e hm).symm ▸ lt_step_iff_lt_reach hlt hfull
  | @finite s m e hm hlt hleast hfull =>
    cases hv with
    | notANumber => cases hfv
    | infinity => cases hfv
    | zero s' =>
      refine ⟨.finite hlt hleast hfull, rfl, ?_⟩
      rw [show amount (.zero s') = 0 from rfl, sub_zero, abs_amount_finite]
      exact (abs_amount_finite s e hm).symm ▸ lt_step_iff_lt_reach hlt hfull
    | @finite s' n f hn hltn hleastn hfulln =>
      refine ⟨canonical_normalize _ _ _, isFinite_normalize _ _ _, ?_⟩
      have hiff := abs_amount_normalize_lt_iff (s.apply (decreaseExponent m e (min e f)).1 -
        s'.apply (decreaseExponent n f (min e f)).1) (min e f) .positive
      rwa [Int.cast_sub, sub_mul, decreaseExponent_amount s m (min_le_left e f),
        decreaseExponent_amount s' n (min_le_right e f)] at hiff

/-! ### Numbers that are taken for the same -/

/-- A finite number that has been packed is found to be less than the least step, whatever its
sign, if and only if it is. -/
theorem compare_abs_leastStep {d : UnpackedFloat} (hd : Canonical d) (hfinite : d.isFinite = true) :
    (bounded (bounded d).abs).compare leastStep.toModel.unpack = some .lt ↔
      |amount d| < 2 ^ (-52 : ℤ) := by
  have hstep : leastStep.toModel.unpack = .finite .positive (2 ^ 52) (-104) (by norm_num) := rfl
  have hcanonical : Canonical leastStep.toModel.unpack := canonical_unpack _
  have hamount : amount leastStep.toModel.unpack = 2 ^ (-52 : ℤ) := by
    rw [hstep, amount_positive]
    norm_num
  cases hd with
  | notANumber => cases hfinite
  | infinity => cases hfinite
  | zero s => exact iff_of_true rfl (by norm_num [amount])
  | @finite s m e hm hlt hleast hfull =>
    rw [abs_amount_finite]
    by_cases hrange : e ≤ 971
    · have hbounded : bounded (bounded (.finite s m e hm)).abs = .finite .positive m e hm := by
        simp [bounded, UnpackedFloat.abs, hrange]
      rw [hbounded, compare_eq_compare_amount (.finite hlt hleast hfull) hcanonical rfl rfl,
        Option.some.injEq, compare_lt_iff_lt, hamount, amount_positive]
    · -- an infinity is not less than the step, nor is what it stands for
      have hbounded : bounded (bounded (.finite s m e hm)).abs = .infinity .positive := by
        simp [bounded, UnpackedFloat.abs, hrange]
      have hlarge : (2 : ℚ) ^ (-52 : ℤ) < m * 2 ^ e := by
        rw [← hamount, hstep, amount_positive]
        exact magnitude_lt_of_exponent_lt (by norm_num) (by norm_num) hfull (by omega)
      rw [hbounded, hstep]
      exact iff_of_false (by decide) (not_lt.2 hlarge.le)

/-- A difference with a number that is not finite is not finite. -/
theorem sub_of_not_isFinite {u v : UnpackedFloat}
    (h : ¬ (u.isFinite = true ∧ v.isFinite = true)) :
    UnpackedFloat.sub Format.binary64 u v = .notANumber ∨
      ∃ s, UnpackedFloat.sub Format.binary64 u v = .infinity s := by
  cases u with
  | notANumber => exact .inl rfl
  | infinity s =>
    cases v with
    | notANumber => exact .inl rfl
    | infinity s' =>
      have hsub : UnpackedFloat.sub Format.binary64 (.infinity s) (.infinity s') =
          if s == -s' then .infinity s else .notANumber := rfl
      rw [hsub]
      split
      · exact .inr ⟨s, rfl⟩
      · exact .inl rfl
    | zero => exact .inr ⟨s, rfl⟩
    | finite => exact .inr ⟨s, rfl⟩
  | _ =>
    cases v with
    | notANumber => exact .inl rfl
    | infinity s => exact .inr ⟨-s, rfl⟩
    | zero => exact absurd ⟨rfl, rfl⟩ h
    | finite => exact absurd ⟨rfl, rfl⟩ h

theorem Canonical.bounded {u : UnpackedFloat} (hu : Canonical u) : Canonical (bounded u) := by
  cases hu with
  | notANumber => exact .notANumber
  | infinity s => exact .infinity s
  | zero s => exact .zero s
  | @finite s m e hm hlt hleast hfull =>
    change Canonical (if e ≤ 971 then .finite s m e hm else .infinity s)
    split
    · exact .finite hlt hleast hfull
    · exact .infinity _

theorem Canonical.abs {u : UnpackedFloat} (hu : Canonical u) : Canonical u.abs := by
  cases hu with
  | notANumber => exact .notANumber
  | infinity s => exact .infinity _
  | zero s => exact .zero _
  | finite hlt hleast hfull => exact .finite hlt hleast hfull

/-- The magnitude of a difference, packed and unpacked. -/
theorem unpack_abs_sub {x y : Float}
    (h : Canonical (UnpackedFloat.sub Format.binary64 x.toModel.unpack y.toModel.unpack)) :
    (x - y).abs.toModel.unpack =
      bounded (bounded (UnpackedFloat.sub Format.binary64 x.toModel.unpack
        y.toModel.unpack)).abs := by
  change (Float.Model.pack (Float.Model.pack (UnpackedFloat.sub Format.binary64 x.toModel.unpack
    y.toModel.unpack)).unpack.abs).unpack = _
  rw [unpack_pack h, unpack_pack h.bounded.abs]

/-- Two numbers are taken for the same if and only if they are finite and within reach of each
other. -/
theorem abs_sub_lt_leastStep_iff (x y : Float) :
    (x - y).abs < leastStep ↔
      x.isFinite = true ∧ y.isFinite = true ∧ |value x - value y| < reach := by
  rw [lt_iff_compare]
  by_cases hfinite : x.isFinite = true ∧ y.isFinite = true
  · obtain ⟨hx, hy⟩ := hfinite
    obtain ⟨hcanonical, hsub, hreach⟩ :=
      sub_spec (canonical_unpack x.toModel) (canonical_unpack y.toModel) hx hy
    rw [unpack_abs_sub hcanonical, compare_abs_leastStep hcanonical hsub, hreach]
    exact ⟨fun h => ⟨hx, hy, h⟩, fun h => h.2.2⟩
  · refine iff_of_false ?_ fun h => hfinite ⟨h.1, h.2.1⟩
    rcases sub_of_not_isFinite (u := x.toModel.unpack) hfinite with hsub | ⟨s, hsub⟩
    · rw [unpack_abs_sub (hsub ▸ .notANumber), hsub]
      decide
    · rw [unpack_abs_sub (hsub ▸ .infinity s), hsub]
      exact (by decide : (bounded (bounded (.infinity .positive))).compare
        leastStep.toModel.unpack ≠ some .lt)

end Foreman.Number
