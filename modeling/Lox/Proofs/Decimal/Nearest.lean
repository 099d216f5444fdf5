import Lox.Proofs.Decimal.Binary

/-!
# The double nearest to a decimal

A decimal is rounded in one of two ways: small coefficients and powers are divided or multiplied as
doubles, and all others as whole numbers. Both round once, so a decimal that is a double is read as
that double.

* `unpack_ofNat`: a whole number of at most 53 bits, with zeros behind them, is a double.
* `nearest_eq_of_scaled`: a decimal that is a double is read as that double.
* `toBits_nearest_lt`: no decimal is read as a double with a sign.
-/

namespace Lox.Decimal

open Float.Model Float.Model.UnpackedFloat

theorem isCanonical_normal {b f : Nat} (hb : 0 < b) (hf : f < 2 ^ 52) :
    IsCanonical (2 ^ 52 + f) (b - 1075) := by
  unfold IsCanonical Format.targetExponent totalExponent
  rw [log2_full hf, show (Format.binary64.mantissaBits : Int) = 53 from rfl,
    show Format.binary64.minExponent = -1074 from rfl]
  omega

theorem isCanonical_subnormal {f : Nat} (hf : f < 2 ^ 52) (hm : 0 < f) :
    IsCanonical f (-1074) := by
  have short := (Nat.log2_lt hm.ne').mpr hf
  unfold IsCanonical Format.targetExponent totalExponent
  rw [show (Format.binary64.mantissaBits : Int) = 53 from rfl,
    show Format.binary64.minExponent = -1074 from rfl]
  omega

/-- A mantissa of full length for a whole number of at most 53 bits. -/
theorem exists_full_mantissa {o : Nat} (ho : 0 < o) (ho' : o < 2 ^ 53) :
    ∃ k f : Nat, k ≤ 52 ∧ f < 2 ^ 52 ∧ o * 2 ^ k = 2 ^ 52 + f := by
  have length : o.log2 < 53 := (Nat.log2_lt ho.ne').mpr ho'
  have total : (o * 2 ^ (52 - o.log2)).log2 = 52 := by
    rw [log2_mul_two_pow ho]
    omega
  obtain ⟨lower, upper⟩ := (Nat.log2_eq_iff (by positivity)).mp total
  exact ⟨52 - o.log2, o * 2 ^ (52 - o.log2) - 2 ^ 52, by omega, by omega, by omega⟩

/-- A whole number of at most 53 bits, with zeros behind them, is a double. -/
theorem unpack_ofNat {o j : Nat} (ho : 0 < o) (ho' : o < 2 ^ 53) (hj : j ≤ 22) :
    ∃ (f : Nat) (e : Int) (hm : 0 < 2 ^ 52 + f), f < 2 ^ 52 ∧ scaled (2 ^ 52 + f) e = o * 2 ^ j ∧
      (Float.Model.ofNat (o * 2 ^ j)).unpack = .finite .positive (2 ^ 52 + f) e hm := by
  obtain ⟨k, f, hk, hf, full⟩ := exists_full_mantissa ho ho'
  obtain ⟨b, hb, hb', exponent⟩ : ∃ b : Nat, 0 < b ∧ b < 2047 ∧ (j : Int) - k = b - 1075 :=
    ⟨1075 + j - k, by omega, by omega, by omega⟩
  have hm : 0 < 2 ^ 52 + f := by omega
  have whole : 0 < o * 2 ^ j := by positivity
  have value : scaled (o * 2 ^ j) 0 = scaled (2 ^ 52 + f) (b - 1075) := by
    rw [← full, ← exponent, scaled_shift, scaled_zero]
    unfold scaled
    push_cast
    rw [zpow_natCast]
  refine ⟨f, b - 1075, hm, hf, by rw [← value, scaled_zero]; push_cast; rfl, ?_⟩
  have rounded : UnpackedFloat.ofNat Format.binary64 (o * 2 ^ j) =
      .finite .positive (2 ^ 52 + f) (b - 1075) hm := by
    unfold UnpackedFloat.ofNat UnpackedFloat.ofInt UnpackedFloat.normalize
    rw [show compare ((o * 2 ^ j : Nat) : Int) 0 = .gt from Int.compare_eq_gt.mpr (by omega)]
    exact round_exact .positive whole hm (isCanonical_normal hb hf) value
  calc (Float.Model.ofNat (o * 2 ^ j)).unpack
      = UnpackedFloat.unpack Format.binary64 (UnpackedFloat.pack Format.binary64
          (.finite .positive (2 ^ 52 + f) (b - 1075) hm)) := by rw [← rounded]; rfl
    _ = .finite .positive (2 ^ 52 + f) (b - 1075) hm := by
        rw [pack_normal hb' hf, unpack_normal hb hb' hf hm]

/-! ## Small coefficients and powers -/

/-- The table of powers of ten holds the doubles that they are. -/
theorem powersOfTen_eq : ∀ n : Fin 23, Float.exactlyRepresentablePowersOfTen[n] =
    .ofModel (.ofNat (5 ^ n.val * 2 ^ n.val)) := by
  decide +kernel

theorem toFloat_toUInt64 {n : Nat} (h : n < 2 ^ 53) :
    n.toUInt64.toFloat = .ofModel (.ofNat n) := by
  have small : n.toUInt64.toNat = n := Nat.mod_eq_of_lt (by omega)
  show Float.ofModel (.ofUInt64 n.toUInt64) = _
  unfold Float.Model.ofUInt64 UnpackedFloat.ofUInt64
  rw [small]
  rfl

/-- The two doubles that a small decimal is made of. -/
theorem ofScientific_small {c n : Nat} (negative : Bool) (hc : 0 < c) (hc' : c < 2 ^ 53)
    (hn : n ≤ 22) :
    ∃ (f g : Nat) (e e' : Int) (hf : 0 < 2 ^ 52 + f) (hg : 0 < 2 ^ 52 + g),
      f < 2 ^ 52 ∧ g < 2 ^ 52 ∧
      scaled (2 ^ 52 + f) e = c ∧ scaled (2 ^ 52 + g) e' = 10 ^ n ∧
      Float.ofScientific c negative n = .ofModel (.pack
        (if negative then UnpackedFloat.div Format.binary64 (.finite .positive (2 ^ 52 + f) e hf)
            (.finite .positive (2 ^ 52 + g) e' hg)
          else UnpackedFloat.mul Format.binary64 (.finite .positive (2 ^ 52 + f) e hf)
            (.finite .positive (2 ^ 52 + g) e' hg))) := by
  have power : 5 ^ n < 2 ^ 53 :=
    (Nat.pow_le_pow_right (by norm_num) hn).trans_lt (by norm_num)
  obtain ⟨f, e, hf, hf', value, unpacked⟩ := unpack_ofNat hc hc' (Nat.zero_le 22)
  obtain ⟨g, e', hg, hg', value', unpacked'⟩ := unpack_ofNat (by positivity) power hn
  rw [pow_zero, mul_one] at unpacked
  refine ⟨f, g, e, e', hf, hg, hf', hg', by simpa using value, ?_, ?_⟩
  · rw [value']
    push_cast
    rw [← mul_pow]
    norm_num
  · unfold Float.ofScientific
    rw [dif_pos ⟨hc', hn⟩]
    have entry := powersOfTen_eq ⟨n, by omega⟩
    dsimp only [Fin.getElem_fin] at entry ⊢
    rw [entry, toFloat_toUInt64 hc']
    cases negative
    · show Float.ofModel (.pack (UnpackedFloat.mul _ _ _)) = _
      rw [unpacked, unpacked']
      rfl
    · show Float.ofModel (.pack (UnpackedFloat.div _ _ _)) = _
      rw [unpacked, unpacked']
      rfl

/-! ## Decimals that are doubles -/

/-- A double has at most 53 bits. -/
theorem IsCanonical.totalExponent_le {m : Nat} {e : Int} (hc : IsCanonical m e) :
    totalExponent m e ≤ e + 53 := by
  unfold IsCanonical Format.targetExponent at hc
  rw [show (Format.binary64.mantissaBits : Int) = 53 from rfl] at hc
  omega

theorem IsCanonical.lt_of_le_scaled {m : Nat} {e t : Int} (hc : IsCanonical m e)
    (h : 2 ^ t ≤ scaled m e) : t < e + 53 := by
  have upper := h.trans_lt (scaled_lt_upper m e)
  have := (zpow_lt_zpow_iff_right₀ (a := (2 : ℚ)) one_lt_two).mp upper
  have := hc.totalExponent_le
  omega

theorem le_scaled_full (f : Nat) (e : Int) : (2 : ℚ) ^ (52 + e) ≤ scaled (2 ^ 52 + f) e := by
  unfold scaled
  rw [zpow_add₀ two_ne_zero]
  apply mul_le_mul_of_nonneg_right _ (by positivity)
  push_cast
  have : (0 : ℚ) ≤ f := Nat.cast_nonneg f
  norm_num

theorem exponents_le {m f g : Nat} {e e₁ e₂ : Int} (hc : IsCanonical m e)
    (h : scaled (2 ^ 52 + f) e₁ * scaled (2 ^ 52 + g) e₂ = scaled m e) : e₁ + e₂ ≤ e := by
  have lower : (2 : ℚ) ^ (52 + e₁ + (52 + e₂)) ≤ scaled m e := by
    rw [zpow_add₀ two_ne_zero, ← h]
    exact mul_le_mul (le_scaled_full f e₁) (le_scaled_full g e₂) (by positivity)
      (scaled_pos (by omega) e₁).le
  have := hc.lt_of_le_scaled lower
  omega

/-- A power of ten that does not divide has the other factor on the other side. -/
theorem eq_mul_of_div {a x : ℚ} {t : Int} (ht : t < 0) (h : a * 10 ^ t = x) :
    a = x * 10 ^ t.natAbs := by
  have flipped : (10 : ℚ) ^ t * 10 ^ t.natAbs = 1 := by
    rw [← zpow_natCast, ← zpow_add₀ (by norm_num), show t + (t.natAbs : Int) = 0 by omega,
      zpow_zero]
  rw [← h, mul_assoc, flipped, mul_one]

theorem zpow_eq_natAbs {t : Int} (ht : 0 ≤ t) : (10 : ℚ) ^ t = 10 ^ t.natAbs := by
  rw [← zpow_natCast, Int.natAbs_of_nonneg ht]

/-- A small decimal that is a double is read as that double. -/
theorem ofScientific_small_of_scaled {c m : Nat} {t e : Int} (hc : 0 < c) (hc' : c < 2 ^ 53)
    (ht : t.natAbs ≤ 22) (hm : 0 < m) (canonical : IsCanonical m e)
    (h : c * 10 ^ t = scaled m e) :
    Float.ofScientific c (t < 0) t.natAbs = .ofModel (.pack (.finite .positive m e hm)) := by
  obtain ⟨f, g, e₁, e₂, hf, hg, -, -, value, power, result⟩ :=
    ofScientific_small (decide (t < 0)) hc hc' ht
  rw [result]
  by_cases negative : t < 0
  · have quotient : scaled (2 ^ 52 + f) e₁ = scaled m e * scaled (2 ^ 52 + g) e₂ := by
      rw [value, power]
      exact eq_mul_of_div negative h
    rw [if_pos (by simpa using negative), div_exact hf hg hm canonical quotient]
  · have product : scaled (2 ^ 52 + f) e₁ * scaled (2 ^ 52 + g) e₂ = scaled m e := by
      rw [value, power, ← zpow_eq_natAbs (not_lt.mp negative)]
      exact h
    rw [if_neg (by simpa using negative),
      mul_exact hf hg hm canonical (exponents_le canonical product) product]

/-- A decimal that is a double is read as that double by whole numbers, too. -/
theorem ofScientific_large_of_scaled {c m : Nat} {t e : Int} (hc : 0 < c)
    (low : -(2048 + (c.log2 : Int)) ≤ t) (high : t ≤ 2048) (hm : 0 < m)
    (canonical : IsCanonical m e) (h : c * 10 ^ t = scaled m e) :
    UnpackedFloat.ofScientific Format.binary64 c t = .finite .positive m e hm := by
  unfold UnpackedFloat.ofScientific
  rw [dif_neg hc.ne', if_neg (by norm_num; omega), if_neg (by norm_num; omega)]
  by_cases negative : t < 0
  · rw [if_neg (by omega)]
    apply div_exact _ _ hm canonical
    rw [scaled_zero, scaled_zero]
    push_cast
    rw [show (-t).toNat = t.natAbs by omega]
    exact eq_mul_of_div negative h
  · rw [if_pos (by omega)]
    have whole : (1 : ℚ) ≤ c * 10 ^ t := by
      rw [zpow_eq_natAbs (by omega)]
      exact_mod_cast Nat.mul_pos hc (by positivity)
    have exponent := canonical.lt_of_le_scaled (t := 0) (by rw [zpow_zero, ← h]; exact whole)
    apply mul_exact _ _ hm canonical
    · show -53 + 0 ≤ e
      omega
    · rw [← h, scaled_zero, Nat.shiftLeft_eq, show (-(Format.binary64.mantissaBits : Int)) =
        0 - (Format.binary64.mantissaBits : Nat) by omega, scaled_shift, scaled_zero,
        zpow_eq_natAbs (by omega), show t.toNat = t.natAbs by omega]
      push_cast
      rfl

/-- A decimal with this power is too large for a double. -/
theorem not_le_exponent {c m : Nat} {t e : Int} (hc : 0 < c) (canonical : IsCanonical m e)
    (he : e ≤ 971) (h : c * 10 ^ t = scaled m e) : ¬ 400 ≤ t := by
  intro large
  have big : (2 : ℚ) ^ ((3 * 400 : Nat) : Int) ≤ scaled m e := by
    calc (2 : ℚ) ^ ((3 * 400 : Nat) : Int) = (2 ^ 3) ^ 400 := by rw [zpow_natCast, pow_mul]
      _ ≤ 10 ^ 400 := pow_le_pow_left₀ (by norm_num) (by norm_num) _
      _ = 10 ^ ((400 : Nat) : Int) := by rw [zpow_natCast]
      _ ≤ 10 ^ t := zpow_le_zpow_right₀ (by norm_num) large
      _ ≤ c * 10 ^ t := le_mul_of_one_le_left (by positivity) (by exact_mod_cast hc)
      _ = scaled m e := h
  have := canonical.lt_of_le_scaled big
  omega

theorem IsCanonical.le_exponent {m : Nat} {e : Int} (hc : IsCanonical m e) : -1074 ≤ e := by
  unfold IsCanonical Format.targetExponent at hc
  rw [show Format.binary64.minExponent = -1074 from rfl] at hc
  omega

/-- A decimal with so small a coefficient for its power is too small for a double. -/
theorem not_le_power {c m : Nat} {t e : Int} (hm : 0 < m) (canonical : IsCanonical m e)
    (h : c * 10 ^ t = scaled m e) : ¬ c.log2 + 1101 ≤ 3 * -t := by
  intro small
  have coefficient : (c : ℚ) < 2 ^ ((c.log2 : Int) + 1) := by
    exact_mod_cast Nat.lt_log2_self
  have power : (10 : ℚ) ^ t ≤ 2 ^ (3 * t) := by
    rw [zpow_mul, show t = -((-t).toNat : Int) by omega, zpow_neg, zpow_neg]
    apply inv_anti₀ (by positivity)
    rw [zpow_natCast, zpow_natCast]
    exact pow_le_pow_left₀ (by norm_num) (by norm_num) _
  have lower : (2 : ℚ) ^ e ≤ scaled m e :=
    le_mul_of_one_le_left (by positivity) (by exact_mod_cast hm)
  have tiny : (2 : ℚ) ^ e < 2 ^ ((c.log2 : Int) + 1 + 3 * t) := by
    calc (2 : ℚ) ^ e ≤ c * 10 ^ t := by rw [h]; exact lower
      _ ≤ c * 2 ^ (3 * t) := mul_le_mul_of_nonneg_left power (Nat.cast_nonneg c)
      _ < 2 ^ ((c.log2 : Int) + 1) * 2 ^ (3 * t) :=
        mul_lt_mul_of_pos_right coefficient (by positivity)
      _ = 2 ^ ((c.log2 : Int) + 1 + 3 * t) := by rw [← zpow_add₀ two_ne_zero]
  have := (zpow_lt_zpow_iff_right₀ (a := (2 : ℚ)) one_lt_two).mp tiny
  have := canonical.le_exponent
  omega

/-- A decimal that is a double is read as that double. -/
theorem nearest_eq_of_scaled {c m : Nat} {t e : Int} (hc : 0 < c) (hm : 0 < m)
    (canonical : IsCanonical m e) (he : e ≤ 971) (h : c * 10 ^ t = scaled m e) :
    nearest c t = .ofModel (.pack (.finite .positive m e hm)) := by
  have notLarge := not_le_exponent hc canonical he h
  have notSmall := not_le_power hm canonical h
  unfold nearest
  rw [if_neg hc.ne', if_neg notLarge, if_neg notSmall]
  by_cases small : c < 2 ^ 53 ∧ t.natAbs ≤ 22
  · exact ofScientific_small_of_scaled hc small.1 small.2 hm canonical h
  · have exponent :
        (if decide (t < 0) = true then Int.negOfNat t.natAbs else Int.ofNat t.natAbs) = t := by
      by_cases negative : t < 0
      · rw [if_pos (by simpa using negative), Int.negOfNat_eq]
        exact neg_eq_iff_eq_neg.mpr (Int.ofNat_natAbs_of_nonpos negative.le)
      · rw [if_neg (by simpa using negative)]
        exact Int.natAbs_of_nonneg (not_lt.mp negative)
    unfold Float.ofScientific
    rw [dif_neg small]
    dsimp only
    rw [exponent, Float.Model.ofScientific,
      ofScientific_large_of_scaled hc (by omega) (by omega) hm canonical h]

/-! ## Signs -/

/-- The number is not negative, and it is not the negative zero. -/
def IsUnsigned : UnpackedFloat → Prop
  | .infinity s | .zero s | .finite s _ _ _ => s = .positive
  | .notANumber => True

theorem toNat_packComponents_lt (exponent : BitVec 11) (mantissa : BitVec 52) :
    (packComponents Format.binary64 .positive exponent mantissa).toNat < 2 ^ 63 := by
  have := exponent.isLt
  have := mantissa.isLt
  rw [toNat_packComponents, show (Sign.toBitVec .positive).toNat = 0 from rfl]
  omega

theorem toNat_pack_lt {u : UnpackedFloat} (h : IsUnsigned u) :
    (UnpackedFloat.pack Format.binary64 u).toNat < 2 ^ 63 := by
  cases u with
  | notANumber => exact toNat_packComponents_lt _ _
  | infinity s | zero s =>
    cases h
    exact toNat_packComponents_lt _ _
  | finite s m e hm =>
    cases h
    rw [pack_finite]
    split
    · exact toNat_packComponents_lt _ _
    · split <;> exact toNat_packComponents_lt _ _

theorem isUnsigned_ite {p : Prop} [Decidable p] {u v : UnpackedFloat} (hu : IsUnsigned u)
    (hv : IsUnsigned v) : IsUnsigned (if p then u else v) := by
  split
  · exact hu
  · exact hv

theorem isUnsigned_dite (m : Nat) (e : Int) :
    IsUnsigned (if h : m = 0 then .zero .positive
      else .finite .positive m e (Nat.pos_of_ne_zero h)) := by
  by_cases zero : m = 0
  · rw [dif_pos zero]
    rfl
  · rw [dif_neg zero]
    rfl

theorem isUnsigned_roundWithAccuracy (m : Nat) (e : Int) (a : Accuracy) :
    IsUnsigned (roundWithAccuracy Format.binary64 .positive m e a) := by
  unfold roundWithAccuracy
  exact isUnsigned_dite _ _

theorem isUnsigned_ofScientific (c : Nat) (t : Int) :
    IsUnsigned (UnpackedFloat.ofScientific Format.binary64 c t) := by
  unfold UnpackedFloat.ofScientific
  by_cases zero : c = 0
  · rw [dif_pos zero]
    rfl
  · rw [dif_neg zero]
    exact isUnsigned_ite rfl (isUnsigned_ite rfl (isUnsigned_ite
      (isUnsigned_roundWithAccuracy _ _ _) (isUnsigned_roundWithAccuracy _ _ _)))

/-- What a decimal is read as has no sign. -/
theorem exists_nearest_eq (c : Nat) (t : Int) :
    ∃ u, IsUnsigned u ∧ nearest c t = .ofModel (.pack u) := by
  have zero : (0 : Float) = .ofModel (.pack (.zero .positive)) := by decide +kernel
  have infinity : (1 / 0 : Float) = .ofModel (.pack (.infinity .positive)) := by decide +kernel
  unfold nearest
  split
  · exact ⟨.zero .positive, rfl, zero⟩
  split
  · exact ⟨.infinity .positive, rfl, infinity⟩
  split
  · exact ⟨.zero .positive, rfl, zero⟩
  by_cases small : c < 2 ^ 53 ∧ t.natAbs ≤ 22
  · obtain ⟨f, g, e₁, e₂, hf, hg, -, -, -, -, result⟩ :=
      ofScientific_small (decide (t < 0)) (Nat.pos_of_ne_zero ‹c ≠ 0›) small.1 small.2
    exact ⟨_, isUnsigned_ite (isUnsigned_roundWithAccuracy _ _ _)
      (isUnsigned_roundWithAccuracy _ _ _), result⟩
  · unfold Float.ofScientific
    rw [dif_neg small]
    exact ⟨_, isUnsigned_ofScientific _ _, rfl⟩

/-- No decimal is read as a double with a sign. -/
theorem toBits_nearest_lt (c : Nat) (t : Int) : (nearest c t).toBits.toNat < 2 ^ 63 := by
  obtain ⟨u, unsigned, read⟩ := exists_nearest_eq c t
  rw [read]
  exact toNat_pack_lt unsigned

end Lox.Decimal
