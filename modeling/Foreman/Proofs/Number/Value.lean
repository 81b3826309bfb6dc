import Foreman.Proofs.Document.Magnitude
/-!
# The values of numbers

A number of the floating format is zero, infinite, undefined, or a whole mantissa times a power of
two. The mantissa has fifty-three binary places, or fewer if the exponent is the least there is; so
a number is put down in one way only, and finite numbers are ordered as the rational numbers that
they stand for.

## Main definitions

* `Foreman.Number.amount`, `Foreman.Number.value`: the rational number that a number stands for.
* `Foreman.Number.Canonical`: the mantissa and the exponent are those of the format.
* `Foreman.Number.bounded`: a number, or an infinity if it is out of range.

## Main results

* `Foreman.Number.canonical_unpack`: every number is canonical once it is unpacked.
* `Foreman.Number.compare_eq_compare_amount`: finite numbers compare as their values do.
* `Foreman.Number.unpack_pack`: what becomes of a number that is packed and unpacked.
* `Foreman.Number.beq_iff_value_eq`: finite numbers are equal if and only if their values are.
-/

namespace Foreman.Number

open Float.Model Float.Model.UnpackedFloat

/-- The rational number that an unpacked number stands for, and zero if it is not finite. -/
def amount : UnpackedFloat → ℚ
  | .finite s m e _ => (s.apply m : ℤ) * 2 ^ e
  | _ => 0

/-- The rational number that a number stands for, and zero if it is not finite. -/
def value (x : Float) : ℚ :=
  amount x.toModel.unpack

/-- The mantissa of a number has fifty-three binary places, or fewer if its exponent is the least
one. How large the exponent may be is left open. -/
inductive Canonical : UnpackedFloat → Prop
  | notANumber : Canonical .notANumber
  | infinity (s : Sign) : Canonical (.infinity s)
  | zero (s : Sign) : Canonical (.zero s)
  | finite {s : Sign} {m : ℕ} {e : ℤ} {hm : 0 < m} (hlt : m < 2 ^ 53) (hleast : -1074 ≤ e)
    (hfull : 2 ^ 52 ≤ m ∨ e = -1074) : Canonical (.finite s m e hm)

/-- Every number is canonical once it is unpacked. -/
theorem canonical_unpack (x : Float.Model) : Canonical x.unpack := by
  unfold Float.Model.unpack
  fun_cases UnpackedFloat.unpack Format.binary64 x.toBits.toBitVec with
  | case1 => exact .infinity _
  | case2 => exact .notANumber
  | case3 => exact .zero _
  | case4 mantissa exponent e signBit s _ hzero hmantissa =>
    -- the exponent is the least one
    have hlt : mantissa.toNat < 2 ^ 52 := mantissa.isLt
    have he : e + 1 = -1074 := by simp [e, hzero, Format.exponentBias]
    exact .finite (by omega) he.ge (.inr he)
  | case5 mantissa exponent e signBit s _ hpos =>
    -- the leading place of the mantissa is implicit
    have hlt : mantissa.toNat < 2 ^ 52 := mantissa.isLt
    have hone : (1#1 ++ mantissa).toNat = 2 ^ 52 + mantissa.toNat :=
      Magnitude.toNat_append_one mantissa
    have hne : exponent.toNat ≠ 0 := fun h => hpos (BitVec.eq_of_toNat_eq h)
    have he : e = exponent.toNat - 1075 := rfl
    exact .finite (by omega) (by omega) (.inl (by omega))

/-! ### The order of numbers -/

section Order

variable {m n : ℕ} {e f : ℤ}

theorem magnitude_pos (hm : 0 < m) (e : ℤ) : (0 : ℚ) < m * 2 ^ e :=
  mul_pos (by exact_mod_cast hm) (by positivity)

/-- Of two canonical magnitudes the one with the larger exponent is the larger. -/
theorem magnitude_lt_of_exponent_lt (hm : m < 2 ^ 53) (he : -1074 ≤ e)
    (hn : 2 ^ 52 ≤ n ∨ f = -1074) (h : e < f) : (m : ℚ) * 2 ^ e < n * 2 ^ f := by
  have hfull : 2 ^ 52 ≤ n := hn.resolve_right (by omega)
  calc (m : ℚ) * 2 ^ e < 2 ^ 53 * 2 ^ e := by gcongr; exact_mod_cast hm
    _ = 2 ^ 52 * 2 ^ (e + 1) := by rw [zpow_add_one₀ two_ne_zero]; ring
    _ ≤ n * 2 ^ f := by
      gcongr
      · exact_mod_cast hfull
      · norm_num
      · omega

/-- Canonical magnitudes are compared by their exponents first. -/
theorem compare_magnitude (hm : m < 2 ^ 53) (he : -1074 ≤ e) (hme : 2 ^ 52 ≤ m ∨ e = -1074)
    (hn : n < 2 ^ 53) (hf : -1074 ≤ f) (hnf : 2 ^ 52 ≤ n ∨ f = -1074) :
    (compare e f).then (compare m n) = compare ((m : ℚ) * 2 ^ e) (n * 2 ^ f) := by
  rcases lt_trichotomy e f with hlt | rfl | hgt
  · rw [compare_lt_iff_lt.2 hlt, compare_lt_iff_lt.2 (magnitude_lt_of_exponent_lt hm he hnf hlt)]
    rfl
  · have hpow : (0 : ℚ) < 2 ^ e := by positivity
    rw [compare_eq_iff_eq.2 rfl, Ordering.eq_then]
    rcases lt_trichotomy m n with hlt | rfl | hgt
    · rw [compare_lt_iff_lt.2 hlt, compare_lt_iff_lt.2 (by gcongr)]
    · rw [compare_eq_iff_eq.2 rfl, compare_eq_iff_eq.2 rfl]
    · rw [compare_gt_iff_gt.2 hgt, compare_gt_iff_gt.2 (by gcongr)]
  · rw [compare_gt_iff_gt.2 hgt, compare_gt_iff_gt.2 (magnitude_lt_of_exponent_lt hn hf hme hgt)]
    rfl

end Order

theorem compare_neg (q r : ℚ) : compare (-q) (-r) = (compare q r).swap := by
  rw [← Std.OrientedCmp.eq_swap]
  rcases lt_trichotomy r q with hlt | rfl | hgt
  · rw [compare_lt_iff_lt.2 hlt, compare_lt_iff_lt.2 (neg_lt_neg hlt)]
  · rw [compare_eq_iff_eq.2 rfl, compare_eq_iff_eq.2 rfl]
  · rw [compare_gt_iff_gt.2 hgt, compare_gt_iff_gt.2 (neg_lt_neg hgt)]

@[simp] theorem amount_positive {m : ℕ} (e : ℤ) (hm : 0 < m) :
    amount (.finite .positive m e hm) = m * 2 ^ e := rfl

@[simp] theorem amount_negative {m : ℕ} (e : ℤ) (hm : 0 < m) :
    amount (.finite .negative m e hm) = -(m * 2 ^ e) := by
  simp [amount, Sign.apply]

/-- Finite numbers compare as their values do. -/
theorem compare_eq_compare_amount {u v : UnpackedFloat} (hu : Canonical u) (hv : Canonical v)
    (hfu : u.isFinite = true) (hfv : v.isFinite = true) :
    u.compare v = some (compare (amount u) (amount v)) := by
  cases hu with
  | notANumber => cases hfu
  | infinity => cases hfu
  | zero s =>
    cases hv with
    | notANumber => cases hfv
    | infinity => cases hfv
    | zero => rfl
    | @finite s' n f hn =>
      have hpos := magnitude_pos hn f
      cases s' with
      | positive => exact congrArg some (compare_lt_iff_lt.2 hpos).symm
      | negative =>
        rw [amount_negative]
        exact congrArg some (compare_gt_iff_gt.2 (neg_lt_zero.2 hpos)).symm
  | @finite s m e hm hltm hleastm hfullm =>
    have hposm := magnitude_pos hm e
    cases hv with
    | notANumber => cases hfv
    | infinity => cases hfv
    | zero =>
      cases s with
      | positive => exact congrArg some (compare_gt_iff_gt.2 hposm).symm
      | negative =>
        rw [amount_negative]
        exact congrArg some (compare_lt_iff_lt.2 (neg_lt_zero.2 hposm)).symm
    | @finite s' n f hn hltn hleastn hfulln =>
      have hposn := magnitude_pos hn f
      have hcompare := compare_magnitude hltm hleastm hfullm hltn hleastn hfulln
      cases s with
      | positive =>
        cases s' with
        | positive => exact congrArg some hcompare
        | negative =>
          rw [amount_negative, amount_positive]
          exact congrArg some (compare_gt_iff_gt.2 (by linarith)).symm
      | negative =>
        cases s' with
        | positive =>
          rw [amount_negative, amount_positive]
          exact congrArg some (compare_lt_iff_lt.2 (by linarith)).symm
        | negative =>
          rw [amount_negative, amount_negative, compare_neg, ← hcompare]
          rfl

theorem lt_iff_compare {x y : Float} :
    x < y ↔ x.toModel.unpack.compare y.toModel.unpack = some .lt := by
  change decide (x.toModel < y.toModel) = true ↔ _
  rw [decide_eq_true_iff]
  exact beq_iff_eq

theorem le_iff_compare {x y : Float} :
    x ≤ y ↔ (x.toModel.unpack.compare y.toModel.unpack).any Ordering.isLE = true := by
  change decide (x.toModel ≤ y.toModel) = true ↔ _
  rw [decide_eq_true_iff]
  rfl

/-- Finite numbers are equal if and only if their values are. -/
theorem beq_iff_value_eq {x y : Float} (hx : x.isFinite = true) (hy : y.isFinite = true) :
    (x == y) = true ↔ value x = value y := by
  have hcompare := compare_eq_compare_amount (canonical_unpack x.toModel)
    (canonical_unpack y.toModel) hx hy
  change (UnpackedFloat.compare _ _ == some .eq) = true ↔ _
  rw [hcompare, beq_iff_eq, Option.some.injEq, compare_eq_iff_eq]
  rfl

/-- Equal numbers are the same number, or zeros of both signs. -/
theorem eq_or_zero_of_beq {x y : Float} (h : (x == y) = true) :
    x = y ∨ ∃ s t, x.toModel.unpack = .zero s ∧ y.toModel.unpack = .zero t := by
  obtain rfl | ⟨rfl, rfl⟩ | ⟨rfl, rfl⟩ := (Float.beq_iff_ne_nan_and_eq.1 h).2.2
  · exact .inl rfl
  · exact .inr ⟨_, _, rfl, rfl⟩
  · exact .inr ⟨_, _, rfl, rfl⟩

theorem isFinite_eq_of_beq {x y : Float} (h : (x == y) = true) : x.isFinite = y.isFinite := by
  obtain rfl | ⟨s, t, hx, hy⟩ := eq_or_zero_of_beq h
  · rfl
  · change x.toModel.unpack.isFinite = y.toModel.unpack.isFinite
    rw [hx, hy]
    rfl

/-- Equal numbers have one value, even if they are infinite. -/
theorem value_eq_of_beq {x y : Float} (h : (x == y) = true) : value x = value y := by
  obtain rfl | ⟨s, t, hx, hy⟩ := eq_or_zero_of_beq h
  · rfl
  · rw [value, value, hx, hy]
    rfl

/-- Equal numbers compare alike to every number. -/
theorem compare_eq_of_beq {x y : Float} (h : (x == y) = true) (u : UnpackedFloat) :
    x.toModel.unpack.compare u = y.toModel.unpack.compare u ∧
      u.compare x.toModel.unpack = u.compare y.toModel.unpack := by
  obtain rfl | ⟨s, t, hx, hy⟩ := eq_or_zero_of_beq h
  · exact ⟨rfl, rfl⟩
  · rw [hx, hy]
    cases u with
    | notANumber => exact ⟨rfl, rfl⟩
    | infinity s => cases s <;> exact ⟨rfl, rfl⟩
    | zero => exact ⟨rfl, rfl⟩
    | finite s => cases s <;> exact ⟨rfl, rfl⟩

/-! ### Packing -/

/-- A number, or an infinity if it is out of range. -/
def bounded : UnpackedFloat → UnpackedFloat
  | .finite s m e hm => if e ≤ 971 then .finite s m e hm else .infinity s
  | u => u

/-- The number with given components, where not all places of the exponent are set. -/
theorem unpack_packComponents (s : Sign) {exponent : BitVec 11} (mantissa : BitVec 52)
    (hlt : exponent.toNat < 2047) :
    UnpackedFloat.unpack Format.binary64
        (packComponents Format.binary64 s exponent mantissa) =
      if 0 < exponent.toNat then
        .finite s (2 ^ 52 + mantissa.toNat) (exponent.toNat - 1075) (by positivity)
      else if h : 0 < mantissa.toNat then .finite s mantissa.toNat (-1074) h
      else .zero s := by
  have hne : exponent ≠ -1#11 := by
    rintro rfl
    exact absurd hlt (by decide)
  unfold UnpackedFloat.unpack
  simp only [unpackMantissa_packComponents, unpackExponent_packComponents,
    unpackSign_packComponents, Sign.ofBitVec_toBitVec, if_neg hne]
  by_cases hzero : exponent = 0#11
  · rw [if_pos hzero, if_neg (by simp [hzero])]
    by_cases hnone : mantissa = 0#52
    · rw [dif_pos hnone, dif_neg (by simp [hnone])]
    · have hpos : 0 < mantissa.toNat :=
        Nat.pos_of_ne_zero fun h => hnone (BitVec.eq_of_toNat_eq h)
      rw [dif_neg hnone, dif_pos hpos]
      simp [hzero, Format.exponentBias]
  · have hpos : 0 < exponent.toNat := Nat.pos_of_ne_zero fun h => hzero (BitVec.eq_of_toNat_eq h)
    rw [if_neg hzero, if_pos hpos]
    simp only [Magnitude.toNat_append_one]
    rfl

/-- A canonical number is the same after it has been packed and unpacked, unless it is out of
range. -/
theorem unpack_pack {u : UnpackedFloat} (hu : Canonical u) :
    (Float.Model.pack u).unpack = bounded u := by
  change UnpackedFloat.unpack Format.binary64 (UnpackedFloat.pack Format.binary64 u) = _
  cases hu with
  | notANumber => exact unpack_packedNaN
  | infinity s => cases s <;> rfl
  | zero s => exact unpack_packedZero
  | @finite s m e hm hlt hleast hfull =>
    have hbias : (Format.binary64.exponentBias : ℤ) = 1023 := by decide
    unfold UnpackedFloat.pack bounded
    dsimp only
    rw [hbias]
    by_cases hrange : e ≤ 971
    · rw [if_pos hrange, if_neg (show ¬ 2 ^ 11 ≤ (e + 1023 + (52 : ℕ)).toNat + 1 by omega)]
      have hexponent : (BitVec.ofNat 11 (e + 1023 + (52 : ℕ)).toNat).toNat = (e + 1075).toNat := by
        rw [BitVec.toNat_ofNat, Nat.mod_eq_of_lt (by omega)]
        omega
      split
      · next hnormal =>
        have hlog : m.log2 = 52 := Nat.succ.inj hnormal
        have hlow : 2 ^ 52 ≤ m := (Nat.le_log2 hm.ne').1 hlog.ge
        have hmantissa : (BitVec.ofNat 52 m).toNat = m - 2 ^ 52 := by
          rw [BitVec.toNat_ofNat]
          omega
        rw [unpack_packComponents s _ (by omega), if_pos (by omega), finite.injEq, hexponent]
        exact ⟨rfl, by omega, by omega⟩
      · next hnotfull =>
        have hlow : m < 2 ^ 52 := by
          by_contra hge
          have hlog : m.log2 = 52 := (Nat.log2_eq_iff hm.ne').2 ⟨by omega, hlt⟩
          exact hnotfull (congrArg (· + 1) hlog)
        obtain rfl : e = -1074 := hfull.resolve_left (by omega)
        have hmantissa : (BitVec.ofNat 52 m).toNat = m := by
          rw [BitVec.toNat_ofNat]
          omega
        rw [unpack_packComponents s _ (by decide), if_neg (by decide), dif_pos (by omega),
          finite.injEq]
        exact ⟨rfl, hmantissa, rfl⟩
    · rw [if_neg hrange, if_pos (show 2 ^ 11 ≤ (e + 1023 + (52 : ℕ)).toNat + 1 by omega)]
      cases s <;> rfl

end Foreman.Number
