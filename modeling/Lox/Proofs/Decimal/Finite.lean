import Lox.Proofs.Decimal.ReadBack

/-!
# Short numerals are finite

A numeral of up to fifteen digits, with a point or without, is read as a finite double. Its digits
are a whole number that the format holds, and so is its power of ten, so that only one product or
quotient is rounded, and its exponent stays far below the greatest one.

* `IsModerate`: numbers with an exponent that the format has.
* `isModerate_roundWithAccuracy`: rounding gives such a number if the exponent was small before.
* `isFinite_nearest`: a decimal with a small coefficient and a small power is a finite double.
* `isFinite_ofDigits`: the main statement.
-/

namespace Lox.Decimal

open Float.Model Float.Model.UnpackedFloat

/-! ## Rounding -/

/-- The number is zero, or it has an exponent that the format has. -/
def IsModerate : UnpackedFloat → Prop
  | .zero s => s = .positive
  | .finite s _ e _ => s = .positive ∧ e ≤ 971
  | .infinity _ | .notANumber => False

theorem mantissa_shiftRight_le (em : ExtendedMantissa) (k : Nat) :
    (em >>> k).mantissa ≤ em.mantissa := by
  show (Nat.repeat ExtendedMantissa.shiftRightOne k em).mantissa ≤ em.mantissa
  induction k with
  | zero => exact Nat.le_refl _
  | succ k ih => exact (Nat.div_le_self _ 2).trans ih

theorem roundedMantissa_le (em : ExtendedMantissa) : em.roundedMantissa ≤ em.mantissa + 1 := by
  obtain ⟨m, r, s⟩ := em
  cases r <;> cases s <;>
    simp [ExtendedMantissa.roundedMantissa, ExtendedMantissa.accuracy, Accuracy.roundToNearestEven]
  omega

/-- Shifting a number to the exponent that the format gives to it makes the exponent greater by the
number of its bits at most. -/
theorem shiftToTargetExponent_le {m b : Nat} (hm : m < 2 ^ b) (e : Int) (a : Accuracy) :
    (shiftToTargetExponent Format.binary64 m e a).1.mantissa ≤ m ∧
      (shiftToTargetExponent Format.binary64 m e a).2 ≤ max e (-1074) + b := by
  have bits : m.log2 ≤ b := by
    obtain rfl | some := Nat.eq_zero_or_pos m
    · simp
    · exact ((Nat.log2_lt some.ne').mpr hm).le
  constructor
  · have start : (ExtendedMantissa.ofMantissaAndAccuracy m a).mantissa = m := by
      cases a with
      | exact => rfl
      | inexact o => cases o <;> rfl
    exact (mantissa_shiftRight_le _ _).trans start.le
  · show e + ((Format.binary64.targetExponent (totalExponent m e) - e).toNat : Int) ≤ _
    unfold Format.targetExponent totalExponent
    rw [show (Format.binary64.mantissaBits : Int) = 53 from rfl,
      show Format.binary64.minExponent = -1074 from rfl]
    omega

/-- Rounding a number of two hundred bits with a small exponent leaves the exponent small. -/
theorem isModerate_roundWithAccuracy {m : Nat} (hm : m < 2 ^ 200) {e : Int} (he : e ≤ 300)
    (a : Accuracy) : IsModerate (roundWithAccuracy Format.binary64 .positive m e a) := by
  obtain ⟨mantissa₁, exponent₁⟩ := shiftToTargetExponent_le hm e a
  unfold roundWithAccuracy
  generalize shiftToTargetExponent Format.binary64 m e a = first at mantissa₁ exponent₁
  have rounded : first.1.roundedMantissa < 2 ^ 201 := by
    have := roundedMantissa_le first.1
    omega
  obtain ⟨-, exponent₂⟩ := shiftToTargetExponent_le rounded first.2 .exact
  obtain ⟨em, e₁⟩ := first
  dsimp only at *
  generalize
    shiftToTargetExponent Format.binary64 em.roundedMantissa e₁ .exact = second at exponent₂
  by_cases zero : second.1.mantissa = 0
  · rw [dif_pos zero]
    rfl
  · rw [dif_neg zero]
    exact ⟨rfl, by omega⟩

/-! ## Packing -/

theorem isFinite_unpack {b : BitVec Format.binary64.numBits} (h : unpackExponent b ≠ -1#_) :
    (UnpackedFloat.unpack Format.binary64 b).isFinite = true := by
  by_cases small : unpackExponent b = 0#_
  · by_cases empty : unpackMantissa b = 0#_
    · have zero : UnpackedFloat.unpack Format.binary64 b = .zero (.ofBitVec (unpackSign b)) :=
        (if_neg h).trans ((if_pos small).trans (dif_pos empty))
      rw [zero]
      rfl
    · have subnormal : UnpackedFloat.unpack Format.binary64 b = .finite _ _ _ _ :=
        (if_neg h).trans ((if_pos small).trans (dif_neg empty))
      rw [subnormal]
      rfl
  · have normal : UnpackedFloat.unpack Format.binary64 b = .finite _ _ _ _ :=
      (if_neg h).trans (if_neg small)
    rw [normal]
    rfl

theorem isFinite_pack {u : UnpackedFloat} (h : IsModerate u) :
    (Float.ofModel (.pack u)).isFinite = true := by
  show (UnpackedFloat.unpack Format.binary64 (UnpackedFloat.pack Format.binary64 u)).isFinite = true
  apply isFinite_unpack
  cases u with
  | zero s =>
    cases h
    decide
  | finite s m e hm =>
    obtain ⟨rfl, he⟩ := h
    rw [pack_finite, if_neg (by omega)]
    split
    · rw [unpackExponent_packComponents]
      intro same
      have greatest := congrArg BitVec.toNat same
      rw [BitVec.toNat_ofNat, show (-1#11).toNat = 2047 from rfl] at greatest
      omega
    · rw [unpackExponent_packComponents]
      decide
  | infinity s | notANumber => exact h.elim

/-! ## Small decimals -/

/-- A number with a mantissa of full length that is at least one and less than a power of two has an
exponent between. -/
theorem exponent_bounds {f : Nat} (hf : f < 2 ^ 52) {e t : Int} {x : ℚ}
    (h : scaled (2 ^ 52 + f) e = x) (lower : 1 ≤ x) (upper : x < 2 ^ t) : -53 < e ∧ 52 + e < t := by
  constructor
  · have above : (2 : ℚ) ^ (0 : Int) < 2 ^ totalExponent (2 ^ 52 + f) e := by
      rw [zpow_zero]
      exact lower.trans_lt (h ▸ scaled_lt_upper _ e)
    have positive := (zpow_lt_zpow_iff_right₀ (a := (2 : ℚ)) one_lt_two).mp above
    unfold totalExponent at positive
    rw [log2_full hf] at positive
    omega
  · have below : (2 : ℚ) ^ (52 + e) < 2 ^ t := (le_scaled_full f e).trans_lt (h ▸ upper)
    exact (zpow_lt_zpow_iff_right₀ (a := (2 : ℚ)) one_lt_two).mp below

theorem isModerate_mul {f g : Nat} (hf : f < 2 ^ 52) (hg : g < 2 ^ 52) {e e' : Int}
    (he : e + e' ≤ 300) (hf' : 0 < 2 ^ 52 + f) (hg' : 0 < 2 ^ 52 + g) :
    IsModerate (UnpackedFloat.mul Format.binary64 (.finite .positive (2 ^ 52 + f) e hf')
      (.finite .positive (2 ^ 52 + g) e' hg')) := by
  rw [mul_finite]
  refine isModerate_roundWithAccuracy ?_ he _
  calc (2 ^ 52 + f) * (2 ^ 52 + g) < 2 ^ 53 * 2 ^ 53 := Nat.mul_lt_mul'' (by omega) (by omega)
    _ ≤ 2 ^ 200 := by norm_num

theorem isModerate_div {f g : Nat} (hf : f < 2 ^ 52) (hg : g < 2 ^ 52) {e e' : Int}
    (he : e - e' ≤ 300) (hf' : 0 < 2 ^ 52 + f) (hg' : 0 < 2 ^ 52 + g) :
    IsModerate (UnpackedFloat.div Format.binary64 (.finite .positive (2 ^ 52 + f) e hf')
      (.finite .positive (2 ^ 52 + g) e' hg')) := by
  rw [div_finite, divCore]
  dsimp only
  unfold Format.targetExponent totalExponent
  rw [log2_full hf, log2_full hg, show (Format.binary64.mantissaBits : Int) = 53 from rfl,
    show Format.binary64.minExponent = -1074 from rfl]
  generalize target : min (e - e')
    (max (((52 : Nat) : Int) + 1 + e - (((52 : Nat) : Int) + 1 + e') - 53) (-1074)) = t
  have shift : (e - e' - t).toNat ≤ 53 := by omega
  refine isModerate_roundWithAccuracy ?_ (by omega) _
  rw [Nat.shiftLeft_eq]
  calc (2 ^ 52 + f) * 2 ^ (e - e' - t).toNat / (2 ^ 52 + g)
      ≤ (2 ^ 52 + f) * 2 ^ (e - e' - t).toNat := Nat.div_le_self _ _
    _ < 2 ^ 53 * 2 ^ 54 :=
      Nat.mul_lt_mul'' (by omega) (Nat.pow_lt_pow_right (by norm_num) (by omega))
    _ ≤ 2 ^ 200 := by norm_num

/-- A decimal with a small coefficient and a small power is a finite double. -/
theorem isFinite_nearest {c : Nat} {t : Int} (hc : c < 2 ^ 53) (ht : t.natAbs ≤ 22) :
    (nearest c t).isFinite = true := by
  unfold nearest
  by_cases zero : c = 0
  · rw [if_pos zero]
    decide +kernel
  rw [if_neg zero, if_neg (by omega), if_neg (by omega)]
  obtain ⟨f, g, e, e', hf, hg, hf', hg', coefficient, power, result⟩ :=
    ofScientific_small (decide (t < 0)) (Nat.pos_of_ne_zero zero) hc ht
  have hpower : (10 : ℚ) ^ t.natAbs < 2 ^ (74 : Int) :=
    calc (10 : ℚ) ^ t.natAbs ≤ 10 ^ 22 := pow_le_pow_right₀ (by norm_num) ht
      _ < 2 ^ (74 : Int) := by norm_num
  have hcoefficient : (c : ℚ) < 2 ^ (53 : Int) := by exact_mod_cast hc
  have := exponent_bounds hf' coefficient
    (by exact_mod_cast Nat.pos_of_ne_zero zero) hcoefficient
  have := exponent_bounds hg' power (one_le_pow₀ (by norm_num)) hpower
  rw [result]
  apply isFinite_pack
  by_cases negative : decide (t < 0) = true
  · rw [if_pos negative]
    exact isModerate_div hf' hg' (by omega) hf hg
  · rw [if_neg negative]
    exact isModerate_mul hf' hg' (by omega) hf hg

/-! ## Numerals -/

theorem valueOfDigits_lt {ds : List Char} (digits : ∀ c ∈ ds, c.isDigit) :
    valueOfDigits ds < 10 ^ ds.length := by
  induction ds using List.reverseRecOn with
  | nil => exact Nat.one_pos
  | append_singleton ds c ih =>
    rw [List.forall_mem_append, List.forall_mem_singleton] at digits
    have digit : c.toNat ≤ 57 := by
      have bounds := digits.2
      simp only [Char.isDigit, Bool.and_eq_true, decide_eq_true_eq,
        UInt32.le_iff_toNat_le] at bounds
      exact bounds.2
    have front := ih digits.1
    have value : valueOfDigits (ds ++ [c]) = 10 * valueOfDigits ds + (c.toNat - 48) := by
      rw [valueOfDigits, List.foldl_append]
      rfl
    rw [value, List.length_append, List.length_singleton, Nat.pow_succ]
    omega

/-- The zeros at the end of a coefficient move its power by less than the number of its digits. -/
theorem trim_bounds {c k : Nat} (hc : 0 < c) (hk : c < 10 ^ k) (t : Int) :
    (trim c t).1 ≤ c ∧ t ≤ (trim c t).2 ∧ (trim c t).2 < t + k := by
  induction c, t using trim.induct generalizing k with
  | case1 c t h ih =>
    cases k with
    | zero => omega
    | succ k =>
      rw [Nat.pow_succ] at hk
      obtain ⟨coefficient, lower, upper⟩ := ih (by omega) (by omega : c / 10 < 10 ^ k)
      rw [trim, dif_pos h]
      omega
  | case2 => exact absurd hc (Nat.lt_irrefl 0)
  | case3 c t h nonzero =>
    have some : 0 < k := by
      by_contra none
      rw [Nat.eq_zero_of_not_pos none] at hk
      omega
    rw [trim, dif_neg h, if_neg nonzero]
    omega

/-- A numeral of up to fifteen digits is read as a finite double. -/
theorem isFinite_ofDigits {whole fraction : List Char} (digits : ∀ c ∈ whole ++ fraction, c.isDigit)
    (short : (whole ++ fraction).length ≤ 15) :
    (ofDigits whole fraction).toFloat.isFinite = true := by
  have value : valueOfDigits (whole ++ fraction) < 10 ^ 15 :=
    (valueOfDigits_lt digits).trans_le (Nat.pow_le_pow_right (by norm_num) short)
  rw [List.length_append] at short
  show (nearest (trim (valueOfDigits (whole ++ fraction)) (-fraction.length)).1
    (trim (valueOfDigits (whole ++ fraction)) (-fraction.length)).2).isFinite = true
  obtain zero | some := Nat.eq_zero_or_pos (valueOfDigits (whole ++ fraction))
  · rw [zero, trim]
    exact isFinite_nearest (by norm_num) (by simp)
  · obtain ⟨coefficient, lower, upper⟩ := trim_bounds some value (-fraction.length)
    exact isFinite_nearest (by omega) (by omega)

end Lox.Decimal
