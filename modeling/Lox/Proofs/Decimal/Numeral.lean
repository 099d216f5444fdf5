import Lox.Proofs.Decimal.Spelling

/-!
# Numerals are decimal texts

The scanner reads digits, and digits with a point between them. As a decimal text, with all that
such a text may hold otherwise, a numeral stands for the same number. A minus sign may stand before
it and an exponent behind it.

* `Decimal.ofChars?_spell`: what digits between a sign and an exponent stand for.
* `Decimal.floatOfText?_of_isNumeral`: a text of such characters is read as it stands.
* `Decimal.floatOfText?_numeral`: the number that a numeral stands for.
-/

namespace Lox.Decimal

variable {cs whole fraction : List Char}

/-! ## Characters -/

/-- Digits, the point, signs and the mark of an exponent. -/
def IsNumeral (c : Char) : Prop := c.isDigit ∨ c ∈ ['.', '-', '+', 'e']

/-- What numerals are made of stands for itself. -/
theorem IsNumeral.plain {c : Char} (h : IsNumeral c) :
    asciiDigit c = c ∧ Text.isBlank c = false ∧ c ≠ '_' := by
  obtain digit | other := h
  · have mem := mem_digits_of_isDigit digit
    simp only [List.mem_cons, List.not_mem_nil, or_false] at mem
    obtain rfl | rfl | rfl | rfl | rfl | rfl | rfl | rfl | rfl | rfl := mem <;> decide
  · simp only [List.mem_cons, List.not_mem_nil, or_false] at other
    obtain rfl | rfl | rfl | rfl := other <;> decide

/-- A digit starts no word. -/
theorem toLower_of_isDigit {c : Char} (h : c.isDigit) : c.toLower ≠ 'i' ∧ c.toLower ≠ 'n' := by
  have mem := mem_digits_of_isDigit h
  simp only [List.mem_cons, List.not_mem_nil, or_false] at mem
  obtain rfl | rfl | rfl | rfl | rfl | rfl | rfl | rfl | rfl | rfl := mem <;> decide

theorem sign_of_isDigit {c : Char} (h : c.isDigit) (cs : List Char) :
    sign (c :: cs) = (false, c :: cs) := by
  unfold sign
  split
  · rename_i same
    rw [(List.cons.inj same).1] at h
    exact absurd h (by decide)
  · rename_i same
    rw [(List.cons.inj same).1] at h
    exact absurd h (by decide)
  · rfl

theorem trimBlanks_of_forall (h : ∀ c ∈ cs, Text.isBlank c = false) : Text.trimBlanks cs = cs := by
  have stay {ds : List Char} (h : ∀ c ∈ ds, Text.isBlank c = false) :
      ds.dropWhile Text.isBlank = ds := by
    cases ds with
    | nil => rfl
    | cons d ds => rw [List.dropWhile_cons, h d List.mem_cons_self, if_neg Bool.false_ne_true]
  rw [Text.trimBlanks, stay h, stay fun c mem => h c (List.mem_reverse.mp mem),
    List.reverse_reverse]

theorem withoutUnderscores?_of_forall (h : ∀ c ∈ cs, c ≠ '_') (b : Bool) :
    withoutUnderscores? b cs = some cs := by
  induction cs generalizing b with
  | nil => rfl
  | cons c cs ih =>
    rw [List.forall_mem_cons] at h
    rw [withoutUnderscores?, if_neg h.1, ih h.2, Option.map_some]
    rintro d ds rfl
    exact absurd rfl h.1

theorem isNumeral_spell (digits : ∀ c ∈ whole ++ fraction, c.isDigit) :
    ∀ c ∈ spell whole fraction, IsNumeral c := by
  intro c mem
  by_cases point : c = '.'
  · exact .inr (by simp [point])
  · refine .inl (digits c ?_)
    unfold spell at mem
    split at mem <;> simp_all

/-! ## Texts -/

theorem span_isDigit (h : ∀ c ∈ cs, c.isDigit) {tail : List Char}
    (apart : ∀ c ∈ tail.head?, c.isDigit = false) :
    (cs ++ tail).span Char.isDigit = (cs, tail) := by
  have stop : tail.takeWhile Char.isDigit = [] ∧ tail.dropWhile Char.isDigit = tail := by
    cases tail with
    | nil => exact ⟨rfl, rfl⟩
    | cons c tail => simp [apart c rfl]
  rw [List.span_eq_takeWhile_dropWhile, List.takeWhile_append_of_pos h,
    List.dropWhile_append_of_pos h, stop.1, stop.2, List.append_nil]

/-- Digits, with or without a point, stand for the decimal that they spell; a sign before them and
an exponent behind them count. -/
theorem ofChars?_spell (negative : Bool) (tail : List Char) {exponent : Int} (some : whole ≠ [])
    (digits : ∀ c ∈ whole ++ fraction, c.isDigit)
    (apart : ∀ c ∈ tail.head?, c.isDigit = false ∧ c ≠ '.')
    (read : exponent? tail = .some exponent) :
    ofChars? ((if negative then ['-'] else []) ++ (spell whole fraction ++ tail)) =
      .some { ofDigits whole fraction with negative, exponent := exponent - fraction.length } := by
  have front : ∀ c ∈ whole, c.isDigit := fun c mem => digits c (List.mem_append_left _ mem)
  have behind : ∀ c ∈ fraction, c.isDigit := fun c mem => digits c (List.mem_append_right _ mem)
  have signed : sign ((if negative then ['-'] else []) ++ (spell whole fraction ++ tail)) =
      (negative, spell whole fraction ++ tail) := by
    cases negative with
    | true => rfl
    | false =>
      obtain ⟨d, ds, rfl⟩ := List.exists_cons_of_ne_nil some
      exact sign_of_isDigit (front d List.mem_cons_self) _
  have ends : ∀ c ∈ tail.head?, c.isDigit = false := fun c mem => (apart c mem).1
  rw [ofChars?, signed]
  by_cases none : fraction = []
  · subst none
    have first := span_isDigit front ends
    simp only [spell, if_true, List.append_nil, first]
    split
    · exact absurd rfl (apart _ rfl).2
    · simp [ofDigits, some, read]
  · have first : (whole ++ '.' :: (fraction ++ tail)).span Char.isDigit =
        (whole, '.' :: (fraction ++ tail)) := span_isDigit front (by rintro _ ⟨⟩; rfl)
    simp only [spell_of_ne_nil none, List.append_assoc, List.cons_append, first,
      span_isDigit behind ends, read]
    simp [ofDigits, some]

theorem ofChars?_numeral (some : whole ≠ []) (digits : ∀ c ∈ whole ++ fraction, c.isDigit) :
    ofChars? (spell whole fraction) = .some (ofDigits whole fraction) := by
  have read := ofChars?_spell false [] some digits nofun rfl
  rw [List.append_nil] at read
  exact read.trans (by simp [ofDigits])

/-- A text of numerals is read as it stands, unless it might be a word. -/
theorem floatOfText?_of_isNumeral (plain : ∀ c ∈ cs, IsNumeral c)
    (first : ∀ c ∈ (sign cs).2.head?, c.isDigit) :
    floatOfText? (String.ofList cs) = (ofChars? cs).map toFloat := by
  have ascii : cs.map asciiDigit = cs :=
    (List.map_congr_left fun c mem => (plain c mem).plain.1).trans (List.map_id _)
  rw [floatOfText?, String.toList_ofList, trimBlanks_of_forall fun c mem =>
    (plain c mem).plain.2.1, ascii,
    withoutUnderscores?_of_forall fun c mem => (plain c mem).plain.2.2]
  simp only [Option.bind_eq_bind, Option.bind_some]
  -- The words for what is no decimal start with letters.
  have letter (word : String) (h : String.ofList ((sign cs).2.map Char.toLower) = word) :
      ∀ c ∈ word.toList.head?, c ≠ 'i' ∧ c ≠ 'n' := by
    rw [← h, String.toList_ofList, List.head?_map]
    intro c mem
    obtain ⟨d, head, rfl⟩ := Option.mem_map.mp mem
    exact toLower_of_isDigit (first d head)
  split
  · rename_i word
    exact absurd rfl (letter _ word 'i' rfl).1
  · rename_i word
    exact absurd rfl (letter _ word 'i' rfl).1
  · rename_i word
    exact absurd rfl (letter _ word 'n' rfl).2
  · rfl

/-- A numeral stands for the decimal of its digits. -/
theorem floatOfText?_numeral (some : whole ≠ []) (digits : ∀ c ∈ whole ++ fraction, c.isDigit) :
    floatOfText? (String.ofList (spell whole fraction)) =
      .some (ofDigits whole fraction).toFloat := by
  rw [floatOfText?_of_isNumeral (isNumeral_spell digits), ofChars?_numeral some digits]
  · rfl
  · obtain ⟨d, ds, rfl⟩ := List.exists_cons_of_ne_nil some
    have digit : d.isDigit := digits d (by simp)
    rw [spell, List.cons_append, sign_of_isDigit digit]
    rintro _ ⟨⟩
    exact digit

end Lox.Decimal
