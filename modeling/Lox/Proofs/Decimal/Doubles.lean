import Lox.Proofs.Decimal.Finite

/-!
# Doubles and what they stand for

The bits of a double are put together from what they stand for, so doubles that stand for the same
are the same; there is one that stands for no number, one infinity of either sign, and two zeros.
Equality of doubles, as programs compare them, is equality but for those.

* `eq_of_not_isFinite`: the doubles that are not finite.
* `eq_of_unpack`: a double is put together from what it stands for.
* `beq_iff`: which doubles compare equal.
-/

namespace Lox.Decimal

open Float.Model Float.Model.UnpackedFloat

variable {x y : Float}

/-! ## Bits -/

/-- The exponent of a double that is not finite is the greatest one. -/
theorem biasedExponent_of_not_isFinite (h : x.isFinite = false) : biasedExponent x = 2047 := by
  by_contra other
  have bounded : biasedExponent x < 2 ^ 11 := Nat.mod_lt _ (by norm_num)
  have finite : x.toModel.unpack.isFinite = true := by
    rw [unpack_eq]
    apply isFinite_unpack
    rw [unpackExponent_packComponents]
    intro same
    have greatest := congrArg BitVec.toNat same
    rw [BitVec.toNat_ofNat, Nat.mod_eq_of_lt bounded] at greatest
    exact other (greatest.trans rfl)
  exact Bool.false_ne_true (h.symm.trans finite)

/-- A double that is not finite is an infinity, or it stands for no number. -/
theorem eq_of_not_isFinite (h : x.isFinite = false) :
    x = 0 / 0 ∨ x = 1 / 0 ∨ x = -1 / 0 := by
  have greatest := biasedExponent_of_not_isFinite h
  by_cases empty : BitVec.ofNat 52 (fraction x) = 0#52
  · right
    have bits : x.toBits.toBitVec = UnpackedFloat.pack Format.binary64
        (.infinity (signOf (hasSign x))) := by
      rw [bits_eq_packComponents, greatest, empty]
      rfl
    have packed := eq_ofModel_pack bits.symm
    cases signed : hasSign x with
    | true => exact .inr ((signed ▸ packed).trans (by decide +kernel))
    | false => exact .inl ((signed ▸ packed).trans (by decide +kernel))
  · left
    have exponent : @unpackExponent Format.binary64 x.toBits.toBitVec = -1#_ := by
      rw [bits_eq_packComponents, unpackExponent_packComponents, greatest]
      rfl
    have mantissa : @unpackMantissa Format.binary64 x.toBits.toBitVec ≠ 0#_ := by
      rwa [bits_eq_packComponents, unpackMantissa_packComponents]
    have bits : x.toBits.toBitVec = UnpackedFloat.pack Format.binary64 .notANumber :=
      x.toModel.valid.eq_packedNaN exponent mantissa
    exact (eq_ofModel_pack bits.symm).trans (by decide +kernel)

/-- A double is put together from what it stands for. -/
theorem eq_of_unpack {u : UnpackedFloat} (h : x.toModel.unpack = u) : x = .ofModel (.pack u) := by
  subst h
  by_cases finite : x.isFinite = true
  · rw [unpack_eq_parts finite]
    exact eq_ofModel_pack_parts finite
  · obtain rfl | rfl | rfl := eq_of_not_isFinite (Bool.eq_false_iff.mpr finite) <;> decide +kernel

/-- There is one double that stands for no number. -/
theorem isNaN_iff : x.isNaN = true ↔ x.toModel.unpack = .notANumber := by
  show x.toModel.unpack.isNaN = true ↔ _
  cases x.toModel.unpack with
  | notANumber => exact iff_of_true rfl rfl
  | infinity | zero | finite => exact iff_of_false Bool.false_ne_true nofun

theorem eq_of_isNaN (hx : x.isNaN) (hy : y.isNaN) : x = y :=
  (eq_of_unpack (isNaN_iff.mp hx)).trans (eq_of_unpack (isNaN_iff.mp hy)).symm

theorem toBits_inj : x.toBits = y.toBits ↔ x = y := by
  refine ⟨fun same => ?_, fun same => same ▸ rfl⟩
  obtain ⟨⟨bits, valid⟩⟩ := x
  obtain ⟨⟨bits', valid'⟩⟩ := y
  obtain rfl : bits = bits' := same
  rfl

/-- There are two doubles that stand for zero. -/
theorem unpack_eq_zero_iff : (∃ s, x.toModel.unpack = .zero s) ↔ x = 0 ∨ x = -0 := by
  constructor
  · rintro ⟨_ | _, h⟩
    · exact .inr ((eq_of_unpack h).trans (by decide +kernel))
    · exact .inl ((eq_of_unpack h).trans (by decide +kernel))
  · rintro (rfl | rfl)
    · exact ⟨.positive, rfl⟩
    · exact ⟨.negative, rfl⟩

/-! ## Equality -/

theorem compare_infinity (s : Sign) (v : UnpackedFloat) :
    UnpackedFloat.compare (.infinity s) v = some .eq ↔ .infinity s = v := by
  cases v with
  | infinity t =>
    rw [infinity.injEq]
    cases s <;> cases t <;> first | exact iff_of_true rfl rfl | exact iff_of_false nofun nofun
  | notANumber | zero | finite => cases s <;> exact iff_of_false nofun nofun

theorem compare_finite {s : Sign} {m : Nat} {e : Int} {hm : 0 < m} (v : UnpackedFloat) :
    UnpackedFloat.compare (.finite s m e hm) v = some .eq ↔ .finite s m e hm = v := by
  cases v with
  | finite t n f hn =>
    have order : (compare e f).then (compare m n) = .eq ↔ m = n ∧ e = f := by
      rw [Ordering.then_eq_eq, Std.compare_eq_iff_eq, Std.compare_eq_iff_eq, and_comm]
    rw [finite.injEq]
    cases s with
    | positive =>
      cases t with
      | positive =>
        show some ((compare e f).then (compare m n)) = some .eq ↔ _
        rw [Option.some_inj, order, and_iff_right rfl]
      | negative => exact iff_of_false nofun fun same => nomatch same.1
    | negative =>
      cases t with
      | positive => exact iff_of_false nofun fun same => nomatch same.1
      | negative =>
        show some ((compare e f).then (compare m n)).swap = some .eq ↔ _
        rw [Option.some_inj, Ordering.swap_eq_eq, order, and_iff_right rfl]
  | infinity t => cases t <;> exact iff_of_false nofun nofun
  | notANumber | zero => cases s <;> exact iff_of_false nofun nofun

/-- What compares equal is equal and a number, or both are zero. -/
theorem compare_eq_iff {u v : UnpackedFloat} :
    UnpackedFloat.compare u v = some .eq ↔
      u = v ∧ u ≠ .notANumber ∨ ∃ s t, u = .zero s ∧ v = .zero t := by
  cases u with
  | notANumber =>
    refine iff_of_false nofun ?_
    rintro (⟨-, number⟩ | ⟨_, _, ⟨⟩, -⟩)
    exact number rfl
  | zero s =>
    cases v with
    | zero t => exact iff_of_true rfl (.inr ⟨s, t, rfl, rfl⟩)
    | infinity t => cases t <;> exact iff_of_false nofun (by rintro (⟨⟨⟩, -⟩ | ⟨_, _, -, ⟨⟩⟩))
    | finite t => cases t <;> exact iff_of_false nofun (by rintro (⟨⟨⟩, -⟩ | ⟨_, _, -, ⟨⟩⟩))
    | notANumber => exact iff_of_false nofun (by rintro (⟨⟨⟩, -⟩ | ⟨_, _, -, ⟨⟩⟩))
  | infinity s =>
    rw [compare_infinity, or_iff_left (by rintro ⟨_, _, ⟨⟩, -⟩), and_iff_left nofun]
  | finite s m e hm =>
    rw [compare_finite, or_iff_left (by rintro ⟨_, _, ⟨⟩, -⟩), and_iff_left nofun]

/-- Doubles compare equal if they are the same number, or zeros. -/
theorem beq_iff : (x == y) = true ↔
    x = y ∧ x.isNaN = false ∨ (x = 0 ∨ x = -0) ∧ (y = 0 ∨ y = -0) := by
  have compared : (x == y) = true ↔
      UnpackedFloat.compare x.toModel.unpack y.toModel.unpack = some .eq := by
    show (UnpackedFloat.compare x.toModel.unpack y.toModel.unpack == some .eq) = true ↔ _
    exact beq_iff_eq
  rw [compared, compare_eq_iff, ← unpack_eq_zero_iff, ← unpack_eq_zero_iff, exists_and_exists_comm]
  refine or_congr (and_congr ⟨fun same => ?_, fun same => same ▸ rfl⟩ ?_) ?_
  · exact (eq_of_unpack same).trans (eq_of_unpack rfl).symm
  · rw [← Bool.not_eq_true, isNaN_iff]
  · rfl

end Lox.Decimal
