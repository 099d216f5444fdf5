import Lox.Proofs.Decimal.Layouts
import Lox.Proofs.Token.Legible

/-!
# The spelling of a number

A source spells a finite double without an exponent and without a superfluous digit. The spelling
stands for the very decimal that a token dump shows for the double, whether that has an exponent or
not, so that it reads back to the double; and without a sign it is a number literal.

* `Decimal.exists_same_decimal`: all layouts write one decimal for a double.
* `Decimal.scan_write`: a source that spells a double is scanned as that number and nothing else.
* `Decimal.write_plain_exact`: the main statement.
-/

namespace Lox.Decimal

variable {x : Float}

/-- Whatever the layouts are, the texts of a finite double stand for one decimal. -/
theorem exists_same_decimal (finite : x.isFinite) (l l' : Layout) :
    ∃ c d, ofChars? (l.write x).toList = some c ∧ ofChars? (l'.write x).toList = some d ∧
      c.negative = d.negative ∧ c.magnitude = d.magnitude := by
  obtain ⟨c, read, sign, value⟩ := (decimalText_decimalText l (shortest x)).read
  obtain ⟨d, read', sign', value'⟩ := (decimalText_decimalText l' (shortest x)).read
  refine ⟨c, d, ?_, ?_, sign.trans sign'.symm, value.trans value'.symm⟩
  · rw [write_of_isFinite l finite, String.toList_ofList]
    exact read
  · rw [write_of_isFinite l' finite, String.toList_ofList]
    exact read'

/-- A source that spells a double without a sign holds this number and nothing else. -/
theorem scan_write [Segmenter] (finite : x.isFinite) (unsigned : hasSign x = false) :
    (scanText (Layout.plain.write x)).errors = [] ∧
      (scanText (Layout.plain.write x)).tokens.map PlacedToken.token =
        [.number x, .mark .endOfFile] := by
  have small : x.toBits.toNat < 2 ^ 63 := by
    have sign := of_decide_eq_false unsigned
    omega
  obtain ⟨p, legible⟩ := exists_legible_number small finite
  exact tokens_of_lexed legible.lexed

/-- A finite double is spelled as a sign or none, digits, and a point with digits behind it or none;
no digit is superfluous. The spelling stands for the decimal that a token dump shows and reads back
to the double. Without a sign it is scanned as the number, without a report. -/
theorem write_plain_exact [Segmenter] (finite : x.isFinite) :
    let text := Layout.plain.write x
    (∃ whole fraction : List Char,
      text.toList = (if hasSign x then ['-'] else []) ++
        (whole ++ if fraction = [] then [] else '.' :: fraction) ∧
      whole ≠ [] ∧ (∀ c ∈ whole ++ fraction, c.isDigit) ∧
      (whole.head? = some '0' → whole = ['0']) ∧ fraction.getLast? ≠ some '0') ∧
    (∃ c d, ofChars? text.toList = some c ∧ ofChars? (Layout.exact.write x).toList = some d ∧
      c.negative = d.negative ∧ c.magnitude = d.magnitude) ∧
    floatOfText? text = some x ∧
    (hasSign x = false → (scanText text).errors = [] ∧
      (scanText text).tokens.map PlacedToken.token = [.number x, .mark .endOfFile]) := by
  intro text
  refine ⟨?_, exists_same_decimal finite .plain .exact, ?_, scan_write finite⟩
  · obtain ⟨whole, fraction, written, spelled, terse⟩ := exists_spelling_write finite
    refine ⟨whole, fraction, ?_, spelled.whole_ne_nil, spelled.isDigit, terse.front, terse.back⟩
    rw [show text = _ from written, String.toList_ofList]
    rfl
  · exact floatOfText?_write (floatOfText?_nan _ List.mem_cons_self) x

/-- A dump shows an exponent for this double, and a source has none. -/
theorem write_plain_exact_small :
    (1.5e-7 : Float).isFinite ∧ hasSign 1.5e-7 = false ∧
      Layout.exact.write 1.5e-7 = "1.5e-07" ∧ Layout.plain.write 1.5e-7 = "0.00000015" ∧
      floatOfText? "0.00000015" = some 1.5e-7 ∧
      (scanText "0.00000015").tokens.map PlacedToken.token =
        [.number 1.5e-7, .mark .endOfFile] := by
  have finite : (1.5e-7 : Float).isFinite := by decide +kernel
  have unsigned : hasSign 1.5e-7 = false := by decide +kernel
  have spelled : Layout.plain.write 1.5e-7 = "0.00000015" := by decide +kernel
  obtain ⟨-, -, reads, scanned⟩ := write_plain_exact finite
  rw [spelled] at reads scanned
  exact ⟨finite, unsigned, by decide +kernel, spelled, reads, (scanned unsigned).2⟩

end Lox.Decimal
