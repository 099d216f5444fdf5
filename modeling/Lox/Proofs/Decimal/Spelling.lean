import Mathlib.Tactic.IntervalCases
import Lox.Decimal.Layout
import Lox.Proofs.Decimal.ReadBack

/-!
# Numbers as a source spells them

A finite double is spelled as digits, or as digits with a point between them, behind its sign. Read
as a number literal, its spelling is the double again. No digit of it could be left out.

* `spell`: digits before and after a point.
* `Spells`, `Terse`: the digits stand for a decimal, and none of them is superfluous.
* `exists_spelling`: a decimal in its places is spelled so, for the same number, in any layout.
* `exists_spelling_write`: so is a double, with no superfluous digit.
-/

namespace Lox.Decimal

open Layout (digits)

/-- Digits before a point and after it; the point stands only before digits. -/
def spell (whole fraction : List Char) : List Char :=
  whole ++ if fraction = [] then [] else '.' :: fraction

theorem mem_digits_of_isDigit {c : Char} (h : c.isDigit) :
    c ∈ ['0', '1', '2', '3', '4', '5', '6', '7', '8', '9'] := by
  obtain ⟨lower, upper⟩ : 48 ≤ c.toNat ∧ c.toNat ≤ 57 := by
    simpa [Char.isDigit, UInt32.le_iff_toNat_le] using h
  rw [← Char.ofNat_toNat c]
  generalize c.toNat = n at lower upper
  interval_cases n <;> decide

theorem valueOfDigits_append_zeros (ds : List Char) (k : Nat) :
    valueOfDigits (ds ++ List.replicate k '0') = valueOfDigits ds * 10 ^ k := by
  show Nat.ofDigitChars 10 _ 0 = Nat.ofDigitChars 10 _ 0 * _
  rw [Nat.ofDigitChars_append, Nat.ofDigitChars_replicate_zero, Nat.mul_comm]

theorem valueOfDigits_zeros_append (ds : List Char) (k : Nat) :
    valueOfDigits (List.replicate k '0' ++ ds) = valueOfDigits ds := by
  show Nat.ofDigitChars 10 _ 0 = Nat.ofDigitChars 10 _ 0
  rw [Nat.ofDigitChars_append, Nat.ofDigitChars_replicate_zero, Nat.mul_zero]

theorem valueOfDigits_digits (n : Nat) : valueOfDigits (digits n) = n :=
  Nat.ofDigitChars_ten_toDigits

theorem isDigit_of_mem_digits {n : Nat} {c : Char} (h : c ∈ digits n) : c.isDigit :=
  Nat.isDigit_of_mem_toDigits (by norm_num) (by norm_num) h

theorem isDigit_of_mem_zeros {k : Nat} {c : Char} (h : c ∈ List.replicate k '0') : c.isDigit := by
  rw [List.eq_of_mem_replicate h]
  rfl

theorem getLast?_digits (n : Nat) : (digits n).getLast? = some (n % 10).digitChar := by
  rw [digits, Nat.toDigits_eq_if (by norm_num)]
  split
  · rw [Nat.mod_eq_of_lt ‹_›]
    rfl
  · rw [List.getLast?_concat]

/-- Only zero is written with a zero in front. -/
theorem head?_digits {n : Nat} (h : 0 < n) : '0' ∉ (digits n).head? := by
  induction n using Nat.strongRecOn with
  | _ n ih =>
    rw [digits, Nat.toDigits_eq_if (by norm_num)]
    split
    · simpa using h.ne'
    · have front : '0' ∉ (digits (n / 10)).head? := ih _ (by omega) (by omega)
      rwa [List.head?_append_of_ne_nil _ Nat.toDigits_ne_nil]

theorem magnitude_ofDigits (whole fraction : List Char) :
    (ofDigits whole fraction).magnitude =
      valueOfDigits (whole ++ fraction) * 10 ^ (-(fraction.length : Int)) :=
  rfl

/-- Digits before and after a point spell a decimal. -/
structure Spells (d : Decimal) (whole fraction : List Char) : Prop where
  whole_ne_nil : whole ≠ []
  isDigit : ∀ c ∈ whole ++ fraction, c.isDigit
  magnitude_eq : (ofDigits whole fraction).magnitude = d.magnitude

/-- Digits for the coefficient, with as many of them behind the point as the power says. -/
theorem spells_of_value {d : Decimal} {whole fraction : List Char} (some : whole ≠ [])
    (all : ∀ c ∈ whole ++ fraction, c.isDigit)
    (value : valueOfDigits (whole ++ fraction) = d.coefficient)
    (places : d.exponent = -(fraction.length : Int)) : Spells d whole fraction where
  whole_ne_nil := some
  isDigit := all
  magnitude_eq := by rw [magnitude_ofDigits, magnitude, value, places]

/-- No digit is superfluous: a zero in front stands alone before the point, and the last digit
behind the point is none. -/
structure Terse (whole fraction : List Char) : Prop where
  front : '0' ∈ whole.head? → whole = ['0']
  back : '0' ∉ fraction.getLast?

theorem spells_large {d : Decimal} (h : 0 ≤ d.exponent) :
    Spells d (digits d.coefficient ++ List.replicate d.exponent.toNat '0') [] where
  whole_ne_nil := by
    rw [ne_eq, List.append_eq_nil_iff]
    exact fun none => Nat.toDigits_ne_nil none.1
  isDigit := by
    intro c mem
    rw [List.append_nil, List.mem_append] at mem
    exact mem.elim isDigit_of_mem_digits isDigit_of_mem_zeros
  magnitude_eq := by
    rw [magnitude_ofDigits, List.append_nil, valueOfDigits_append_zeros, valueOfDigits_digits,
      magnitude, zpow_eq_natAbs h, show d.exponent.natAbs = d.exponent.toNat by omega]
    push_cast
    simp

theorem terse_large {d : Decimal} (trim : IsTrim d.coefficient d.exponent) :
    Terse (digits d.coefficient ++ List.replicate d.exponent.toNat '0') [] where
  front := by
    obtain ⟨zero, exponent⟩ | nonzero := trim
    · rw [zero, exponent]
      exact fun _ => rfl
    · rw [List.head?_append_of_ne_nil (digits _) Nat.toDigits_ne_nil]
      exact fun zero => absurd zero (head?_digits (by omega))
  back := nofun

theorem spells_inside {d : Decimal} (h : d.exponent < 0)
    (h' : d.exponent.natAbs < (digits d.coefficient).length) :
    Spells d
      ((digits d.coefficient).take ((digits d.coefficient).length - d.exponent.natAbs))
      ((digits d.coefficient).drop ((digits d.coefficient).length - d.exponent.natAbs)) := by
  apply spells_of_value
  · rw [ne_eq, ← List.length_eq_zero_iff, List.length_take]
    omega
  · intro c mem
    rw [List.take_append_drop] at mem
    exact isDigit_of_mem_digits mem
  · rw [List.take_append_drop, valueOfDigits_digits]
  · rw [List.length_drop]
    omega

theorem terse_inside {d : Decimal} (trim : d.coefficient % 10 ≠ 0)
    (h : d.exponent.natAbs < (digits d.coefficient).length) (h' : 0 < d.exponent.natAbs) :
    Terse
      ((digits d.coefficient).take ((digits d.coefficient).length - d.exponent.natAbs))
      ((digits d.coefficient).drop ((digits d.coefficient).length - d.exponent.natAbs)) where
  front := by
    rw [List.head?_take, if_neg (by omega)]
    exact fun zero => absurd zero (head?_digits (by omega))
  back := by
    rw [List.getLast?_drop, if_neg (by omega), getLast?_digits]
    simpa using trim

theorem spells_small {d : Decimal} (h : d.exponent < 0)
    (h' : (digits d.coefficient).length ≤ d.exponent.natAbs) :
    Spells d ['0'] (List.replicate (d.exponent.natAbs - (digits d.coefficient).length) '0' ++
      digits d.coefficient) := by
  apply spells_of_value
  · exact List.cons_ne_nil _ _
  · intro c mem
    rw [List.singleton_append, List.mem_cons, List.mem_append] at mem
    obtain rfl | zero | digit := mem
    · rfl
    · exact isDigit_of_mem_zeros zero
    · exact isDigit_of_mem_digits digit
  · rw [← List.append_assoc, show ['0'] = List.replicate 1 '0' from rfl,
      List.replicate_append_replicate, valueOfDigits_zeros_append, valueOfDigits_digits]
  · rw [List.length_append, List.length_replicate]
    omega

theorem terse_small {d : Decimal} (trim : d.coefficient % 10 ≠ 0) (k : Nat) :
    Terse ['0'] (List.replicate k '0' ++ digits d.coefficient) where
  front := fun _ => rfl
  back := by
    rw [List.getLast?_append, getLast?_digits]
    simpa using trim

theorem spell_of_ne_nil {whole fraction : List Char} (h : fraction ≠ []) :
    spell whole fraction = whole ++ '.' :: fraction := by
  rw [spell, if_neg h]

/-- A zero behind the point changes nothing. -/
theorem Spells.pointZero {d : Decimal} {whole : List Char} (h : Spells d whole []) :
    Spells d whole ['0'] where
  whole_ne_nil := h.whole_ne_nil
  isDigit := by
    intro c mem
    obtain mem | mem := List.mem_append.mp mem
    · exact h.isDigit c (List.mem_append_left _ mem)
    · rw [List.mem_singleton.mp mem]
      rfl
  magnitude_eq := by
    have value := valueOfDigits_append_zeros whole 1
    rw [List.replicate_one, pow_one] at value
    rw [← h.magnitude_eq, magnitude_ofDigits, magnitude_ofDigits, value, List.append_nil]
    simp

/-- A decimal in its places is spelled with digits before and after a point, in every layout. Where
whole numbers show no point, no digit of a trimmed decimal is superfluous. -/
theorem exists_spelling (l : Layout) (d : Decimal) :
    ∃ whole fraction, l.positionalText d = spell whole fraction ∧ Spells d whole fraction ∧
      (l.pointZero = false → IsTrim d.coefficient d.exponent → Terse whole fraction) := by
  have some : digits d.coefficient ≠ [] := Nat.toDigits_ne_nil
  unfold Layout.positionalText
  dsimp only
  by_cases large : 0 ≤ d.exponent
  · rw [if_pos large]
    cases l.pointZero with
    | true => exact ⟨_, ['0'], rfl, (spells_large large).pointZero, nofun⟩
    | false => exact ⟨_, [], rfl, spells_large large, fun _ => terse_large⟩
  rw [if_neg large]
  -- Zero has no places behind the point.
  have nonzero (trim : IsTrim d.coefficient d.exponent) : d.coefficient % 10 ≠ 0 :=
    trim.resolve_left fun zero => large zero.2.ge
  by_cases inside : d.exponent.natAbs < (digits d.coefficient).length
  · refine ⟨_, _, ?_, spells_inside (by omega) inside,
      fun _ trim => terse_inside (nonzero trim) inside (by omega)⟩
    rw [if_pos inside, spell_of_ne_nil]
    rw [ne_eq, ← List.length_eq_zero_iff, List.length_drop]
    omega
  · refine ⟨_, _, ?_, spells_small (by omega) (by omega),
      fun _ trim => terse_small (nonzero trim) _⟩
    rw [if_neg inside, spell_of_ne_nil]
    · rfl
    · simp [some]

theorem not_nan_of_isFinite {x : Float} (h : x.isFinite) : x.isNaN = false ∧ x.isInf = false := by
  have finite : x.toModel.unpack.isFinite = true := h
  show x.toModel.unpack.isNaN = false ∧ x.toModel.unpack.isInf = false
  cases unpacked : x.toModel.unpack with
  | notANumber | infinity s =>
    rw [unpacked] at finite
    exact absurd finite Bool.false_ne_true
  | zero s | finite s m e hm => exact ⟨rfl, rfl⟩

theorem write_of_isFinite (l : Layout) {x : Float} (finite : x.isFinite) :
    l.write x = String.ofList (l.decimalText (shortest x)) := by
  obtain ⟨number, bounded⟩ := not_nan_of_isFinite finite
  rw [Layout.write, number, bounded]
  rfl

theorem isTrim_shortest (x : Float) :
    IsTrim (shortest x).coefficient (shortest x).exponent := isTrim_trim _ _

/-- A finite double is spelled so behind its sign, with no superfluous digit. -/
theorem exists_spelling_write {x : Float} (finite : x.isFinite) :
    ∃ whole fraction, Layout.plain.write x =
        String.ofList ((if hasSign x then ['-'] else []) ++ spell whole fraction) ∧
      Spells (shortest x) whole fraction ∧ Terse whole fraction := by
  obtain ⟨whole, fraction, text, spelled, terse⟩ := exists_spelling Layout.plain (shortest x)
  refine ⟨whole, fraction, ?_, spelled, terse rfl (isTrim_shortest x)⟩
  rw [write_of_isFinite _ finite, Layout.decimalText, (toFloat_shortest finite).2,
    show Layout.plain.isPositional (shortest x) = true from rfl, if_pos rfl, text]

/-- What spells a double without a sign reads back to it. -/
theorem Spells.toFloat_eq {x : Float} (finite : x.isFinite) (unsigned : hasSign x = false)
    {whole fraction : List Char} (h : Spells (shortest x) whole fraction) :
    (ofDigits whole fraction).toFloat = x := by
  obtain ⟨reads, sign⟩ := toFloat_shortest finite
  exact (toFloat_congr (unsigned.symm.trans sign.symm) h.magnitude_eq).trans reads

end Lox.Decimal
