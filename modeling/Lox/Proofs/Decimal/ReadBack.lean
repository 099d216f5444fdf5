import Lox.Proofs.Decimal.Nearest

/-!
# Printed numbers read back

The decimal that a double is written as reads back to it. The search for few digits tries only
decimals that do, and if it finds none the exact value is taken, which is a double.

* `toFloat_congr`: decimals for one number are read alike.
* `parts_bits`: the parts that the bits of a finite double stand for.
* `toFloat_exact`: the exact value of a double is read as that double.
* `toFloat_shortest`: so is the decimal that it is written as.
-/

namespace Lox.Decimal

open Float.Model Float.Model.UnpackedFloat

/-- The number that a decimal stands for, without its sign. -/
def magnitude (d : Decimal) : ℚ := d.coefficient * 10 ^ d.exponent

/-! ## Trimmed decimals -/

theorem trim_magnitude (c : Nat) (t : Int) :
    ((trim c t).1 : ℚ) * 10 ^ (trim c t).2 = c * 10 ^ t := by
  induction c, t using trim.induct with
  | case1 c t h ih =>
    rw [trim, dif_pos h, ih, zpow_add_one₀ (by norm_num)]
    have whole : c = c / 10 * 10 := by omega
    conv_rhs => rw [whole]
    push_cast
    ring
  | case2 t h =>
    rw [trim, dif_neg h, if_pos rfl]
    simp
  | case3 c t h nonzero => rw [trim, dif_neg h, if_neg nonzero]

/-- A decimal has no zeros at its end, or it is nothing but one zero. -/
def IsTrim (c : Nat) (t : Int) : Prop := (c = 0 ∧ t = 0) ∨ c % 10 ≠ 0

theorem isTrim_trim (c : Nat) (t : Int) : IsTrim (trim c t).1 (trim c t).2 := by
  induction c, t using trim.induct with
  | case1 c t h ih =>
    rw [trim, dif_pos h]
    exact ih
  | case2 t h =>
    rw [trim, dif_neg h, if_pos rfl]
    exact .inl ⟨rfl, rfl⟩
  | case3 c t h nonzero =>
    rw [trim, dif_neg h, if_neg nonzero]
    exact .inr (by omega)

/-- There is one decimal without zeros at its end for a number. -/
theorem eq_of_isTrim {c c' : Nat} {t t' : Int} (h : IsTrim c t) (h' : IsTrim c' t')
    (same : (c : ℚ) * 10 ^ t = c' * 10 ^ t') : c = c' ∧ t = t' := by
  wlog order : t ≤ t' generalizing c c' t t'
  · obtain ⟨coefficient, exponent⟩ := this h' h same.symm (by omega)
    exact ⟨coefficient.symm, exponent.symm⟩
  obtain ⟨k, rfl⟩ := Int.le.dest order
  have shifted : c = c' * 10 ^ k := by
    rw [zpow_add₀ (by norm_num), zpow_natCast, mul_comm (10 ^ t : ℚ), ← mul_assoc] at same
    exact_mod_cast mul_right_cancel₀ (zpow_ne_zero t (by norm_num)) same
  cases k with
  | zero => simpa using shifted
  | succ k =>
    -- Zeros at the end of `c` leave nothing but zero for both.
    have zeros : c % 10 = 0 := by
      rw [shifted, pow_succ, ← Nat.mul_assoc, Nat.mul_mod_left]
    obtain ⟨rfl, rfl⟩ := h.resolve_right (not_not.mpr zeros)
    have none : c' = 0 := by simpa using shifted
    obtain ⟨-, exponent⟩ := h'.resolve_right (by simp [none])
    exact ⟨none.symm, exponent.symm⟩

theorem magnitude_trimmed (d : Decimal) : d.trimmed.magnitude = d.magnitude :=
  trim_magnitude d.coefficient d.exponent

/-- Decimals for one number are read alike. -/
theorem toFloat_congr {d d' : Decimal} (sign : d.negative = d'.negative)
    (h : d.magnitude = d'.magnitude) : d.toFloat = d'.toFloat := by
  have same : (trim d.coefficient d.exponent).1 = (trim d'.coefficient d'.exponent).1 ∧
      (trim d.coefficient d.exponent).2 = (trim d'.coefficient d'.exponent).2 :=
    eq_of_isTrim (isTrim_trim _ _) (isTrim_trim _ _)
      (by rw [trim_magnitude, trim_magnitude]; exact h)
  unfold toFloat trimmed
  dsimp only
  rw [same.1, same.2, sign]

theorem toFloat_trimmed (d : Decimal) : d.trimmed.toFloat = d.toFloat :=
  toFloat_congr rfl d.magnitude_trimmed

/-! ## The bits of a double -/

/-- The double has a sign. -/
def hasSign (x : Float) : Bool := decide (2 ^ 63 ≤ x.toBits.toNat)

theorem hasSign_eq_false {x : Float} (h : x.toBits.toNat < 2 ^ 63) : hasSign x = false :=
  decide_eq_false (by omega)

/-- The sign that stands before a number or not. -/
def signOf (negative : Bool) : Sign := if negative then .negative else .positive

/-- The exponent in the bits of a double, as they have it. -/
def biasedExponent (x : Float) : Nat := x.toBits.toNat / 2 ^ 52 % 2 ^ 11

/-- The fraction in the bits of a double. -/
def fraction (x : Float) : Nat := x.toBits.toNat % 2 ^ 52

theorem bits_eq_packComponents (x : Float) :
    x.toBits.toBitVec = packComponents Format.binary64 (signOf (hasSign x))
      (.ofNat 11 (biasedExponent x)) (.ofNat 52 (fraction x)) := by
  have sign : (signOf (hasSign x)).toBitVec.toNat = x.toBits.toNat / 2 ^ 63 := by
    have bounded := x.toBits.toNat_lt
    cases signed : hasSign x with
    | true =>
      have large := of_decide_eq_true signed
      show 1 = _
      omega
    | false =>
      have small := of_decide_eq_false signed
      show 0 = _
      omega
  apply BitVec.eq_of_toNat_eq
  rw [toNat_packComponents, BitVec.toNat_ofNat, BitVec.toNat_ofNat, sign]
  unfold biasedExponent fraction
  show x.toBits.toNat = _
  omega

/-- A double is what its bits say. -/
theorem eq_ofModel_pack {x : Float} {u : UnpackedFloat}
    (h : UnpackedFloat.pack Format.binary64 u = x.toBits.toBitVec) : x = .ofModel (.pack u) := by
  cases x with
  | ofModel model =>
    cases model with
    | mk bits valid =>
      have same : UInt64.ofBitVec (UnpackedFloat.pack Format.binary64 u) = bits := by rw [h]; rfl
      subst same
      rfl

theorem unpack_eq (x : Float) : x.toModel.unpack = UnpackedFloat.unpack Format.binary64
    (packComponents Format.binary64 (signOf (hasSign x)) (.ofNat 11 (biasedExponent x))
      (.ofNat 52 (fraction x))) := by
  rw [← bits_eq_packComponents]
  rfl

/-- The exponent of a finite double is not the greatest one. -/
theorem biasedExponent_lt {x : Float} (finite : x.isFinite) : biasedExponent x < 2047 := by
  by_contra large
  have greatest : biasedExponent x = 2047 := by
    unfold biasedExponent at *
    omega
  have notFinite : x.toModel.unpack.isFinite = false := by
    rw [unpack_eq, greatest]
    exact isFinite_unpack_of_greatest unpackExponent_packComponents
  exact Bool.false_ne_true (notFinite.symm.trans finite)

/-- The mantissa of a finite double. -/
def mantissa (x : Float) : Nat :=
  if biasedExponent x = 0 then fraction x else fraction x + 2 ^ 52

/-- The exponent of a finite double, counted from the least one. -/
def power (x : Float) : Nat := if biasedExponent x = 0 then 0 else biasedExponent x - 1

/-- A finite double in its parts, with a sign of its own or another one. -/
def parts (x : Float) (s : Sign) : UnpackedFloat :=
  if h : 0 < mantissa x then .finite s (mantissa x) ((power x : Int) - 1074) h else .zero s

theorem neg_parts (x : Float) (s : Sign) : (parts x s).neg = parts x (-s) := by
  by_cases nonzero : 0 < mantissa x
  · rw [parts, dif_pos nonzero, parts, dif_pos nonzero]
    rfl
  · rw [parts, dif_neg nonzero, parts, dif_neg nonzero]
    rfl

theorem isCanonical_mantissa {x : Float} (nonzero : 0 < mantissa x) :
    IsCanonical (mantissa x) ((power x : Int) - 1074) := by
  have short : fraction x < 2 ^ 52 := Nat.mod_lt _ (by norm_num)
  unfold mantissa power at *
  split
  · rename_i subnormal
    rw [if_pos subnormal] at nonzero
    exact isCanonical_subnormal short nonzero
  · have e : ((biasedExponent x - 1 : Nat) : Int) - 1074 = biasedExponent x - 1075 := by omega
    rw [e, Nat.add_comm]
    exact isCanonical_normal (by omega) short

section Parts

variable {x : Float} (finite : x.isFinite) (s : Sign)
include finite

/-- The bits of a finite double put its parts together, and the parts are what the bits stand for.
-/
theorem parts_bits :
    UnpackedFloat.pack Format.binary64 (parts x s) = packComponents Format.binary64 s
        (.ofNat 11 (biasedExponent x)) (.ofNat 52 (fraction x)) ∧
      UnpackedFloat.unpack Format.binary64 (packComponents Format.binary64 s
        (.ofNat 11 (biasedExponent x)) (.ofNat 52 (fraction x))) = parts x s := by
  have exponent := biasedExponent_lt finite
  have short : fraction x < 2 ^ 52 := Nat.mod_lt _ (by norm_num)
  by_cases subnormal : biasedExponent x = 0
  · have m : mantissa x = fraction x := if_pos subnormal
    have e : (power x : Int) - 1074 = -1074 := by simp [power, subnormal]
    by_cases nonzero : 0 < mantissa x
    · have nonzero' := m ▸ nonzero
      rw [parts, dif_pos nonzero, finite_congr nonzero nonzero' rfl m e, subnormal]
      exact ⟨pack_subnormal nonzero' short, unpack_subnormal nonzero' short⟩
    · have zero : fraction x = 0 := by omega
      rw [parts, dif_neg nonzero, subnormal, zero]
      cases s <;> exact ⟨rfl, rfl⟩
  · have m : mantissa x = 2 ^ 52 + fraction x := by
      rw [mantissa, if_neg subnormal, Nat.add_comm]
    have e : (power x : Int) - 1074 = biasedExponent x - 1075 := by
      rw [power, if_neg subnormal]
      omega
    have nonzero : 0 < mantissa x := by omega
    have nonzero' := m ▸ nonzero
    rw [parts, dif_pos nonzero, finite_congr nonzero nonzero' rfl m e]
    exact ⟨pack_normal exponent short nonzero',
      unpack_normal (by omega) exponent short nonzero'⟩

theorem unpack_pack_parts :
    UnpackedFloat.unpack Format.binary64 (UnpackedFloat.pack Format.binary64 (parts x s)) =
      parts x s := by
  obtain ⟨packed, unpacked⟩ := parts_bits finite s
  rw [packed, unpacked]

omit s

/-- A finite double is what its parts are. -/
theorem unpack_eq_parts : x.toModel.unpack = parts x (signOf (hasSign x)) := by
  rw [unpack_eq]
  exact (parts_bits finite _).2

theorem eq_ofModel_pack_parts : x = .ofModel (.pack (parts x (signOf (hasSign x)))) :=
  eq_ofModel_pack (by rw [(parts_bits finite _).1, bits_eq_packComponents])

end Parts

/-! ## The exact value of a double -/

theorem exact_eq (x : Float) :
    exact x =
      { negative := x.toBits.toNat / 2 ^ 52 / 2 ^ 11 = 1
        coefficient := if 1074 ≤ power x then mantissa x <<< (power x - 1074)
          else mantissa x * 5 ^ (1074 - power x)
        exponent := if 1074 ≤ power x then 0 else -((1074 - power x : Nat) : Int) } := by
  unfold exact
  rw [show fractionCount = 2 ^ 52 from rfl, show exponentCount = 2 ^ 11 from rfl]
  by_cases large : 1074 ≤ power x
  · rw [if_pos large, if_pos large]
    exact if_pos large
  · rw [if_neg large, if_neg large]
    exact if_neg large

theorem negative_exact (x : Float) : (exact x).negative = hasSign x := by
  have bounded := x.toBits.toNat_lt
  rw [exact_eq, hasSign]
  simp only [decide_eq_decide]
  omega

theorem magnitude_exact (x : Float) :
    (exact x).magnitude = scaled (mantissa x) ((power x : Int) - 1074) := by
  rw [exact_eq, magnitude, scaled]
  by_cases large : 1074 ≤ power x
  · rw [if_pos large, if_pos large, Nat.shiftLeft_eq, zpow_zero, mul_one,
      show (power x : Int) - 1074 = ((power x - 1074 : Nat) : Int) by omega, zpow_natCast]
    push_cast
    rfl
  · have cancel : (5 : ℚ) ^ (1074 - power x) * 10 ^ (-((1074 - power x : Nat) : Int)) =
        2 ^ (-((1074 - power x : Nat) : Int)) := by
      rw [zpow_neg, zpow_neg, zpow_natCast, zpow_natCast, show (10 : ℚ) = 5 * 2 by norm_num,
        mul_pow]
      field_simp
    rw [if_neg large, if_neg large,
      show (power x : Int) - 1074 = -((1074 - power x : Nat) : Int) by omega, ← cancel, ← mul_assoc]
    push_cast
    rfl

/-- The exact value of a double is rounded to the double without its sign. -/
theorem nearest_exact {x : Float} (finite : x.isFinite) :
    nearest (exact x).trimmed.coefficient (exact x).trimmed.exponent =
      .ofModel (.pack (parts x .positive)) := by
  have small : (power x : Int) - 1074 ≤ 971 := by
    have := biasedExponent_lt finite
    unfold power
    split <;> omega
  have value : (exact x).trimmed.magnitude = scaled (mantissa x) ((power x : Int) - 1074) := by
    rw [magnitude_trimmed, magnitude_exact]
  by_cases nonzero : 0 < mantissa x
  · have positive : 0 < (exact x).trimmed.coefficient := by
      apply Nat.pos_of_ne_zero
      intro none
      have := scaled_pos nonzero ((power x : Int) - 1074)
      rw [← value, magnitude, none, Nat.cast_zero, zero_mul] at this
      exact lt_irrefl 0 this
    rw [parts, dif_pos nonzero]
    exact nearest_eq_of_scaled positive nonzero (isCanonical_mantissa nonzero) small value
  · have none : (exact x).trimmed.coefficient = 0 := by
      rw [Nat.eq_zero_of_not_pos nonzero] at value
      simpa [magnitude, scaled, zpow_ne_zero] using value
    rw [none, nearest, if_pos rfl, parts, dif_neg nonzero]
    decide +kernel

/-- The exact value of a double is read as that double. -/
theorem toFloat_exact {x : Float} (finite : x.isFinite) : (exact x).toFloat = x := by
  have negated : -Float.ofModel (.pack (parts x .positive)) =
      .ofModel (.pack (parts x .negative)) := by
    show Float.ofModel (.pack (UnpackedFloat.unpack Format.binary64
      (UnpackedFloat.pack Format.binary64 (parts x .positive))).neg) = _
    rw [unpack_pack_parts finite, neg_parts]
    rfl
  unfold toFloat
  dsimp only
  rw [negative_exact, nearest_exact finite]
  conv_rhs => rw [eq_ofModel_pack_parts finite]
  cases hasSign x
  · rfl
  · exact negated

/-- What is found for a double has the sign of its exact value. -/
theorem negative_of_shorten {x : Float} {d c : Decimal} {k : Nat} (h : shorten x d k = some c) :
    c.negative = d.negative := by
  have mem := List.mem_of_find?_eq_some h
  unfold enclosing at mem
  dsimp only at mem
  split at mem <;> simp only [List.mem_cons, List.not_mem_nil, or_false] at mem <;>
    obtain rfl | rfl := mem <;> rfl

/-- The decimal that a double is written as reads back to it and has its sign. -/
theorem toFloat_shortest {x : Float} (finite : x.isFinite) :
    (shortest x).toFloat = x ∧ (shortest x).negative = hasSign x := by
  unfold shortest
  dsimp only
  rw [toFloat_trimmed]
  cases found : (List.range' 1 ((exact x).size - 1)).findSome? (shorten x (exact x)) with
  | none => exact ⟨toFloat_exact finite, negative_exact x⟩
  | some c =>
    obtain ⟨k, -, short⟩ := List.exists_of_findSome?_eq_some found
    exact ⟨toFloat_of_shorten short, (negative_of_shorten short).trans (negative_exact x)⟩

end Lox.Decimal
