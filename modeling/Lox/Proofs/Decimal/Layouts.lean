import Lox.Proofs.Decimal.Doubles
import Lox.Proofs.Decimal.Numeral

/-!
# Numbers read back in every layout

A layout decides whether a number shows a point and an exponent, and in what form. Whatever it
decides, the text is a decimal text for the number that is written, sign included. So a double is
read back from its text, and two doubles with one text are the same double.

* `ExponentText`, `DecimalText`: what exponents and decimals are written as.
* `decimalText_decimalText`: every layout writes decimals so.
* `floatOfText?_write`: the text of a double reads back to it.
* `write_inj`: doubles are told apart by their texts.
-/

namespace Lox.Decimal

open Layout (digits)

/-! ## Exponents -/

/-- The characters are an exponent without its mark: digits, with or without a sign. -/
structure ExponentText (e : Int) (cs : List Char) : Prop where
  read : exponent? ('e' :: cs) = some e
  isNumeral : ∀ c ∈ cs, IsNumeral c

theorem exponent?_of_sign {negative : Bool} {cs ds : List Char} (signed : sign cs = (negative, ds))
    (some : ds ≠ []) (all : ∀ c ∈ ds, c.isDigit) :
    exponent? ('e' :: cs) =
      .some (if negative then -(valueOfDigits ds) else valueOfDigits ds) := by
  have digit : ds ≠ [] ∧ ds.all Char.isDigit = true := ⟨some, List.all_eq_true.mpr all⟩
  simp only [exponent?, true_or, if_true, signed]
  exact if_pos digit

/-- Every layout writes exponents, with or without a plus sign and zeros before them. -/
theorem exponentText_exponentText (l : Layout) (e : Int) : ExponentText e (l.exponentText e) := by
  obtain ⟨ds, padded⟩ : ∃ ds : List Char, ds =
    List.replicate (l.exponentWidth - (digits e.natAbs).length) '0' ++ digits e.natAbs := ⟨_, rfl⟩
  have text : l.exponentText e =
      (if e < 0 then ['-'] else if l.plus then ['+'] else []) ++ ds := by
    rw [padded, ← List.append_assoc]
    rfl
  have some : ds ≠ [] := by simp [padded, digits, Nat.toDigits_ne_nil]
  have value : valueOfDigits ds = e.natAbs := by
    rw [padded, valueOfDigits_zeros_append, valueOfDigits_digits]
  have all : ∀ c ∈ ds, c.isDigit := fun c mem =>
    (List.mem_append.mp (padded ▸ mem)).elim isDigit_of_mem_zeros isDigit_of_mem_digits
  have numeral : ∀ c ∈ ds, IsNumeral c := fun c mem => .inl (all c mem)
  by_cases negative : e < 0
  · rw [if_pos negative] at text
    refine text ▸ ⟨?_, List.forall_mem_cons.mpr ⟨.inr (by decide), numeral⟩⟩
    have signed : sign ('-' :: ds) = (true, ds) := rfl
    rw [List.singleton_append, exponent?_of_sign signed some all, value, if_pos rfl]
    congr 1
    omega
  rw [if_neg negative] at text
  have read {cs : List Char} (signed : sign cs = (false, ds)) :
      exponent? ('e' :: cs) = .some e := by
    rw [exponent?_of_sign signed some all, value, if_neg Bool.false_ne_true]
    congr 1
    omega
  cases plus : l.plus with
  | true =>
    rw [plus, if_pos rfl] at text
    exact text ▸ ⟨read rfl, List.forall_mem_cons.mpr ⟨.inr (by decide), numeral⟩⟩
  | false =>
    rw [plus, if_neg Bool.false_ne_true, List.nil_append] at text
    obtain ⟨d, rest, rfl⟩ := List.exists_cons_of_ne_nil some
    exact text ▸ ⟨read (sign_of_isDigit (all d List.mem_cons_self) rest), numeral⟩

/-! ## Decimals -/

/-- The characters are a decimal text for the number, with its sign. -/
structure DecimalText (d : Decimal) (cs : List Char) : Prop where
  read : ∃ c, ofChars? cs = some c ∧ c.negative = d.negative ∧ c.magnitude = d.magnitude
  isNumeral : ∀ c ∈ cs, IsNumeral c
  first : ∀ c ∈ (sign cs).2.head?, c.isDigit

/-- An exponent behind the digits is a power of ten. -/
theorem magnitude_ofDigits_exponent (negative : Bool) (whole fraction : List Char) (e : Int) :
    magnitude { ofDigits whole fraction with negative, exponent := e - fraction.length } =
      (ofDigits whole fraction).magnitude * 10 ^ e := by
  show (valueOfDigits (whole ++ fraction) : ℚ) * 10 ^ (e - fraction.length) = _
  rw [magnitude_ofDigits, mul_assoc, ← zpow_add₀ (by norm_num), neg_add_eq_sub]

/-- Digits that spell a number, and what stands before them and behind them. -/
theorem decimalText_spell {c d : Decimal} {whole fraction : List Char} (tail : List Char) {e : Int}
    (spelled : Spells c whole fraction) (read : exponent? tail = some e)
    (apart : ∀ c ∈ tail.head?, c.isDigit = false ∧ c ≠ '.') (plain : ∀ c ∈ tail, IsNumeral c)
    (value : c.magnitude * 10 ^ e = d.magnitude) :
    DecimalText d ((if d.negative then ['-'] else []) ++ (spell whole fraction ++ tail)) where
  read := ⟨_, ofChars?_spell d.negative tail spelled.whole_ne_nil spelled.isDigit apart read, rfl,
    by rw [magnitude_ofDigits_exponent, spelled.magnitude_eq, value]⟩
  isNumeral := by
    intro c mem
    obtain sign | inside | behind := by simpa only [List.mem_append] using mem
    · refine .inr ?_
      split at sign <;> simp_all
    · exact isNumeral_spell spelled.isDigit c inside
    · exact plain c behind
  first := by
    obtain ⟨digit, rest, rfl⟩ := List.exists_cons_of_ne_nil spelled.whole_ne_nil
    have isDigit : digit.isDigit := spelled.isDigit digit (by simp)
    cases d.negative with
    | true => rintro _ ⟨⟩; exact isDigit
    | false =>
      rw [if_neg Bool.false_ne_true, List.nil_append, spell, List.cons_append, List.cons_append,
        sign_of_isDigit isDigit]
      rintro _ ⟨⟩
      exact isDigit

/-- The digits of a coefficient with a point behind the first one. -/
theorem spells_first (d : Decimal) :
    Spells ⟨d.negative, d.coefficient, -(((digits d.coefficient).length : Int) - 1)⟩
      ((digits d.coefficient).take 1) ((digits d.coefficient).drop 1) := by
  have some : 0 < (digits d.coefficient).length := List.length_pos_iff.mpr Nat.toDigits_ne_nil
  apply spells_of_value
  · rw [ne_eq, ← List.length_eq_zero_iff, List.length_take]
    omega
  · intro c mem
    rw [List.take_append_drop] at mem
    exact isDigit_of_mem_digits mem
  · rw [List.take_append_drop, valueOfDigits_digits]
  · show -(((digits d.coefficient).length : Int) - 1) = _
    rw [List.length_drop]
    omega

/-- Every layout writes a decimal as a decimal text for its number. -/
theorem decimalText_decimalText (l : Layout) (d : Decimal) : DecimalText d (l.decimalText d) := by
  unfold Layout.decimalText
  by_cases positional : l.isPositional d = true
  · obtain ⟨whole, fraction, text, spelled, -⟩ := exists_spelling l d
    have written := decimalText_spell (d := d) [] spelled rfl nofun nofun (by simp)
    rw [List.append_nil] at written
    rwa [if_pos positional, text]
  · have exponent := exponentText_exponentText l (d.exponent + ((digits d.coefficient).length - 1))
    have text : l.scientificText d =
        spell ((digits d.coefficient).take 1) ((digits d.coefficient).drop 1) ++
          'e' :: l.exponentText (d.exponent + ((digits d.coefficient).length - 1)) := by
      simp [Layout.scientificText, spell]
    rw [if_neg positional, text]
    refine decimalText_spell _ (spells_first d) exponent.read (by rintro _ ⟨⟩; decide)
      (List.forall_mem_cons.mpr ⟨.inr (by decide), exponent.isNumeral⟩) ?_
    rw [magnitude, magnitude, mul_assoc, ← zpow_add₀ (by norm_num)]
    congr 2
    show -(((digits d.coefficient).length : Int) - 1) +
      (d.exponent + ((digits d.coefficient).length - 1)) = d.exponent
    omega

theorem DecimalText.floatOfText?_eq {d : Decimal} {cs : List Char} (h : DecimalText d cs) :
    floatOfText? (String.ofList cs) = some d.toFloat := by
  obtain ⟨c, read, sign, value⟩ := h.read
  rw [floatOfText?_of_isNumeral h.isNumeral h.first, read, Option.map_some,
    toFloat_congr sign value]

/-! ## Doubles -/

/-- A double is read back from its text, whatever the layout, if what is no number is read as such.
-/
theorem floatOfText?_write {l : Layout} (nan : floatOfText? l.nan = some (0 / 0)) (x : Float) :
    floatOfText? (l.write x) = some x := by
  by_cases finite : x.isFinite = true
  · rw [write_of_isFinite l finite, (decimalText_decimalText l _).floatOfText?_eq,
      (toFloat_shortest finite).1]
  obtain rfl | rfl | rfl := eq_of_not_isFinite (Bool.eq_false_iff.mpr finite)
  · have text : l.write (0 / 0) = l.nan := if_pos (by decide +kernel)
    rw [text, nan]
  · have text : l.write (1 / 0) = "inf" :=
      (if_neg (by decide +kernel)).trans ((if_pos (by decide +kernel)).trans
        (if_neg (by decide +kernel)))
    rw [text]
    decide +kernel
  · have text : l.write (-1 / 0) = "-inf" :=
      (if_neg (by decide +kernel)).trans ((if_pos (by decide +kernel)).trans
        (if_pos (by decide +kernel)))
    rw [text]
    decide +kernel

/-- Doubles are told apart by their texts. -/
theorem write_inj {l : Layout} (nan : floatOfText? l.nan = some (0 / 0)) {x y : Float} :
    l.write x = l.write y ↔ x = y := by
  refine ⟨fun same => ?_, fun same => same ▸ rfl⟩
  have read := congrArg floatOfText? same
  rwa [floatOfText?_write nan, floatOfText?_write nan, Option.some_inj] at read

/-- What is no number is read as such in the layouts that are in use. -/
theorem floatOfText?_nan :
    ∀ l ∈ [Layout.plain, .exact, .debug], floatOfText? l.nan = some (0 / 0) := by
  decide +kernel

end Lox.Decimal
