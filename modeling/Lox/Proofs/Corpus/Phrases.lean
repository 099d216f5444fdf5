import Lox.Proofs.Corpus.Laws
import Lox.Proofs.Decimal.Finite
import Lox.Proofs.Syntax.Joining
import Lox.Proofs.Token.Lexicon
import Lox.Corpus.Generator

/-!
# Random expressions

However the draws fall, the phrase that comes out is the text of an expression: operands that stand
side by side are shared out by the levels of the operators between them. The expression is nested no
deeper than the phrase was asked to be, its numbers are finite, and its names are among those given.

* `IsName`: names of plain characters that are no keywords.
* `Phrase.Spells`: the phrase is the text of the expression.
* `Phrase.Spells.binary`, `Phrase.Spells.unary`, `Phrase.Spells.parentheses`,
  `Phrase.Spells.choice`: how phrases are put together.
* `Draw.always_name`, `Draw.spells_phrase`: what is drawn.
-/

namespace Lox.Corpus

open Grapheme (plain IsPlain)
open Token (space)

/-! ## Words and strings -/

/-- A name of plain characters that is no keyword. -/
structure IsName (s : String) : Prop where
  word : ∃ c cs, s.toList = c :: cs ∧ Grapheme.isAlpha ⟨c, []⟩ = true ∧
    (∀ d ∈ cs, Grapheme.isAlphanumeric ⟨d, []⟩ = true) ∧ ∀ d ∈ c :: cs, IsPlain d
  notKeyword : Mark.ofKeyword? s = none

/-- Such a name is legible. -/
theorem IsName.legible [Segmenter] {s : String} (h : IsName s) :
    ∃ p, Legible (.identifier s) p := by
  obtain ⟨⟨c, cs, spelled, alpha, alphanumeric, isPlain⟩, notKeyword⟩ := h
  obtain ⟨-, -, start⟩ := Piece.isWordStart_of_isAlpha alpha
  have text : Grapheme.join (plain (c :: cs)) = s := by
    rw [Grapheme.join, Grapheme.flatMap_chars_plain, ← spelled, String.ofList_toList]
  refine ⟨_, .ofChars spelled ?_ isPlain fun rest next => ?_⟩
  · show Piece.reading ⟨⟨c, []⟩, plain cs⟩ = _
    rw [Piece.reading_of_isAlpha alpha, Piece.wordOf]
    rw [show Grapheme.join (⟨c, []⟩ :: plain cs) = s from text, notKeyword]
  · refine start.ends (fun g mem => ?_) fun g mem => closers_not_alphanumeric g (next g mem)
    obtain ⟨d, inside, rfl⟩ := List.mem_map.mp mem
    exact alphanumeric d inside

theorem IsName.written [Segmenter] {s : String} (h : IsName s) :
    WrittenAs s.toList [.identifier s] := by
  have written := WrittenAs.of_legible (List.forall_mem_singleton.mpr h.legible)
  rwa [List.flatMap_singleton] at written

/-- A text of plain characters without quotes is legible as a string. -/
theorem legible_plain_string [Segmenter] {cs : List Char} (isPlain : ∀ c ∈ cs, IsPlain c)
    (inside : ∀ c ∈ cs, c ≠ '"') : ∃ p, Legible (.string (String.ofList cs)) p := by
  have spelled : (Token.string (String.ofList cs)).spelling.toList = '"' :: (cs ++ ['"']) := by
    show ("\"" ++ String.ofList cs ++ "\"").toList = _
    simp
  have closed : plain (cs ++ ['"']) = plain cs ++ [⟨'"', []⟩] := by simp [plain]
  have quote : IsPlain '"' := by decide
  refine ⟨_, .ofChars spelled ?_ ?_ fun rest _ => ?_⟩
  · show Piece.reading ⟨⟨'"', []⟩, plain (cs ++ ['"'])⟩ = _
    rw [closed, Piece.reading_closed, Grapheme.join, Grapheme.flatMap_chars_plain]
  · simp only [List.forall_mem_cons, List.forall_mem_append, List.not_mem_nil, false_imp_iff,
      implies_true, and_true]
    exact ⟨quote, isPlain, quote⟩
  · refine Piece.ends_of_quote rfl closed fun g mem => ?_
    obtain ⟨c, among, rfl⟩ := List.mem_map.mp mem
    exact bne_iff_ne.mpr fun same => inside c among (by injection same)

/-! ## Drawn characters -/

/-- What can be seen of each character that is drawn from some. -/
theorem of_drawn {drawn : List Char} {p q : Char → Prop} [DecidablePred p] [DecidablePred q]
    (h : drawn.all (fun c => decide (p c) && decide (q c)) = true) : ∀ c ∈ drawn, p c ∧ q c := by
  intro c mem
  have seen := List.all_eq_true.mp h c mem
  rwa [Bool.and_eq_true, decide_eq_true_iff, decide_eq_true_iff] at seen

/-- The characters that names are drawn from. -/
theorem isAlphanumeric_of_drawn : ∀ c ∈ 'a' :: (moreLetters ++ digits ++ ['_']),
    Grapheme.isAlphanumeric ⟨c, []⟩ = true ∧ IsPlain c :=
  of_drawn (by decide +kernel)

theorem isAlpha_of_drawn : ∀ c ∈ 'a' :: (moreLetters ++ ['_']),
    Grapheme.isAlpha ⟨c, []⟩ = true ∧ IsPlain c :=
  of_drawn (by decide +kernel)

/-- The characters that strings are drawn from. -/
theorem ne_quote_of_drawn : ∀ c ∈ 'a' :: (moreLetters ++ digits ++ [' ', '_', '-']),
    IsPlain c ∧ c ≠ '"' :=
  of_drawn (by decide +kernel)

/-- No keyword ends in an underscore. -/
theorem ofKeyword?_underscore (s : String) : Mark.ofKeyword? (s ++ "_") = none := by
  have other : ∀ m ∈ Mark.keywords, m.spelling.toList.getLast? ≠ some '_' := by decide
  refine List.find?_eq_none.mpr fun m mem same => other m mem ?_
  rw [beq_iff_eq.mp same, String.toList_append]
  exact List.getLast?_concat

/-- A name that is drawn is one. -/
theorem Draw.always_name : Draw.name.Always IsName := by
  refine (always_oneOf _ _).bind fun first start => (always_between _ _).bind fun length _ =>
    (always_times (always_oneOf _ _) length).bind fun rest ⟨_, inside⟩ => always_pure ?_
  obtain ⟨alpha, firstPlain⟩ := isAlpha_of_drawn first start
  have alphanumeric (c : Char) (mem : c ∈ rest) := isAlphanumeric_of_drawn c (inside c mem)
  unfold unlessKeyword
  split
  · refine ⟨⟨first, rest ++ ['_'], by simp, alpha, ?_, ?_⟩, ofKeyword?_underscore _⟩
    · rw [List.forall_mem_append, List.forall_mem_singleton]
      exact ⟨fun c mem => (alphanumeric c mem).1, by decide⟩
    · rw [List.forall_mem_cons, List.forall_mem_append, List.forall_mem_singleton]
      exact ⟨firstPlain, fun c mem => (alphanumeric c mem).2, by decide⟩
  · rename_i notKeyword
    refine ⟨⟨first, rest, String.toList_ofList, alpha, fun c mem => (alphanumeric c mem).1, ?_⟩,
      Option.not_isSome_iff_eq_none.mp notKeyword⟩
    exact List.forall_mem_cons.mpr ⟨firstPlain, fun c mem => (alphanumeric c mem).2⟩

/-! ## Phrases -/

/-- A number is finite, and a name is one of those given. -/
def Known (names : List String) : Token → Prop
  | .number x => x.isFinite
  | .identifier name => name ∈ names
  | _ => True

/-- The phrase is the text of the expression, which is nested as deep at most. Its numbers are
finite, and its names are among those given. -/
structure Phrase.Spells [Segmenter] (names : List String) (depth : Nat) (p : Phrase)
    (e : Expr) : Prop where
  operand : e.Operand
  nesting : e.nesting ≤ depth
  written : WrittenAs p.text.toList e.printed
  known : ∀ t ∈ e.printed, Known names t

/-- A mark is written as it is spelled. -/
theorem written_mark [Segmenter] {m : Mark} (h : m ≠ .endOfFile) :
    WrittenAs m.spelling.toList [.mark m] := by
  have written := WrittenAs.of_legible (List.forall_mem_singleton.mpr (exists_legible_mark h))
  rwa [List.flatMap_singleton] at written

theorem written_space [Segmenter] : WrittenAs [' '] [space] := by
  have written := WrittenAs.of_legible (List.forall_mem_singleton.mpr exists_legible_space)
  rwa [List.flatMap_singleton] at written

namespace Phrase.Spells

variable [Segmenter] {names : List String} {depth : Nat} {p q r : Phrase} {d e f : Expr}

theorem known_of_yield (h : p.Spells names depth e) : ∀ t ∈ e.yield, Known names t := by
  rw [← e.filter_printed]
  exact fun t mem => h.known t (List.mem_of_mem_filter mem)

/-- Deeper nesting may be allowed. -/
theorem mono {depth' : Nat} (h : p.Spells names depth e) (deeper : depth ≤ depth') :
    p.Spells names depth' e :=
  { h with nesting := h.nesting.trans deeper }

theorem literal {v : Value} (written : WrittenAs p.text.toList [v.token])
    (known : Known names v.token) : p.Spells names depth (.literal v none) :=
  ⟨⟨trivial, show 1 ≤ 6 by decide⟩, Nat.zero_le _, written, List.forall_mem_singleton.mpr known⟩

theorem named {name : String} (h : IsName name) (mem : name ∈ names) :
    (Phrase.name name).Spells names depth (.named name none) :=
  ⟨⟨trivial, show 1 ≤ 6 by decide⟩, Nat.zero_le _, h.written, List.forall_mem_singleton.mpr mem⟩

theorem binary {o : Mark} {k : Level} (operator : Level.ofOperator? (.mark o) = some k)
    (hl : p.Spells names depth d) (hr : q.Spells names depth e) :
    ∃ j, (Phrase.binary o p q).Spells names depth j := by
  obtain ⟨j, operand, nesting, printed⟩ := Expr.exists_joined hl.operand hr.operand operator
  have notEnd : o ≠ .endOfFile := by
    rintro rfl
    cases operator
  refine ⟨j, operand, ?_, ?_, ?_⟩
  · rw [nesting]
    exact Nat.max_le.mpr ⟨hl.nesting, hr.nesting⟩
  · have text : (Phrase.binary o p q).text.toList =
        p.text.toList ++ ([' '] ++ (o.spelling.toList ++ ([' '] ++ q.text.toList))) := by
      simp [Phrase.text]
    rw [text, printed]
    exact hl.written.append (written_space.append
      ((written_mark notEnd).append (written_space.append hr.written)))
  · rw [printed]
    simp only [List.forall_mem_append, List.forall_mem_cons, TokenKind.tokens]
    exact ⟨hl.known, trivial, ⟨trivial, List.forall_mem_nil _⟩, trivial, hr.known⟩

theorem unary {o : Mark} (operator : o = .bang ∨ o = .minus) (h : p.Spells names depth e) :
    ∃ j, (Phrase.unary o p).Spells names (depth + 1) j := by
  obtain ⟨j, operand, -, nesting, printed⟩ := Expr.exists_prefixed h.operand
    (operator.imp (congrArg TokenKind.mark) (congrArg TokenKind.mark))
  have notEnd : o ≠ .endOfFile := by
    obtain rfl | rfl := operator <;> decide
  refine ⟨j, operand, nesting.trans (Nat.succ_le_succ h.nesting), ?_, ?_⟩
  · rw [printed, Phrase.text, String.toList_append]
    exact (written_mark notEnd).append h.written
  · rw [printed]
    exact List.forall_mem_append.mpr ⟨List.forall_mem_singleton.mpr trivial, h.known⟩

/-- What stands between parentheses may be of any level. -/
theorem enclosed {cs : List Char} (shaped : e.Shaped) (nesting : e.nesting ≤ depth)
    (written : WrittenAs cs e.printed) (known : ∀ t ∈ e.printed, Known names t)
    (text : p.text.toList = ['('] ++ (cs ++ [')'])) :
    p.Spells names (depth + 1) (.grouping e none) where
  operand := ⟨shaped, show 1 ≤ 6 by decide⟩
  nesting := Nat.succ_le_succ nesting
  written := by
    rw [text]
    exact (written_mark (m := .leftParen) (by decide)).append
      (written.append (written_mark (m := .rightParen) (by decide)))
  known := by
    rw [Expr.printed, List.cons_append, List.forall_mem_cons, List.forall_mem_append,
      List.forall_mem_singleton]
    exact ⟨trivial, known, trivial⟩

theorem parentheses (h : p.Spells names depth e) :
    (Phrase.parentheses p).Spells names (depth + 1) (.grouping e none) :=
  enclosed h.operand.shaped h.nesting h.written h.known (by simp [Phrase.text])

theorem choice (hc : p.Spells names depth d) (ht : q.Spells names depth e)
    (hf : r.Spells names depth f) : (Phrase.choice p q r).Spells names (depth + 1)
      (.grouping (.ternary d e f none) none) := by
  have text : (Phrase.choice p q r).text.toList = ['('] ++ ((p.text.toList ++ ([' '] ++ (['?'] ++
      ([' '] ++ (q.text.toList ++ ([' '] ++ ([':'] ++ ([' '] ++ r.text.toList)))))))) ++
        [')']) := by
    simp [Phrase.text]
  refine enclosed ⟨ht.operand.level, hf.operand.level, hc.operand.shaped, ht.operand.shaped,
    hf.operand.shaped⟩ (Nat.max_le.mpr ⟨hc.nesting, Nat.max_le.mpr ⟨ht.nesting, hf.nesting⟩⟩) ?_ ?_
    text
  · have question := written_mark (m := .question) (by decide)
    have colon := written_mark (m := .colon) (by decide)
    exact hc.written.append (written_space.append (question.append (written_space.append
      (ht.written.append (written_space.append (colon.append
        (written_space.append hf.written)))))))
  · simp only [Expr.printed, List.forall_mem_append, List.forall_mem_cons]
    exact ⟨hc.known, trivial, trivial, trivial, ht.known, trivial, trivial, trivial, hf.known⟩

end Phrase.Spells

/-! ## Drawn phrases -/

/-- A numeral of up to fifteen digits is written as a finite number. -/
theorem exists_number [Segmenter] {whole : List Char} (some : whole ≠ []) (fraction : List Char)
    (digits : ∀ c ∈ whole ++ fraction, c.isDigit) (short : (whole ++ fraction).length ≤ 15) :
    ∃ x : Float, x.isFinite ∧
      WrittenAs (whole ++ if fraction = [] then [] else '.' :: fraction) [.number x] := by
  obtain ⟨c, cs, rfl⟩ := List.exists_cons_of_ne_nil some
  have written := WrittenAs.of_readable (readable_number digits)
  rw [Readable.graphemes_ofChars, Grapheme.flatMap_chars_plain] at written
  exact ⟨_, Decimal.isFinite_ofDigits digits short, written⟩

/-- The digits of a number below a thousand. -/
theorem digits_of_lt {n : Nat} (h : n < 1000) : (toString n).toList ≠ [] ∧
    (∀ c ∈ (toString n).toList, c.isDigit) ∧ (toString n).toList.length ≤ 3 := by
  have digits : (toString n).toList = Nat.toDigits 10 n := by simp
  rw [digits]
  exact ⟨Nat.toDigits_ne_nil, fun c => Nat.isDigit_of_mem_toDigits (by norm_num) (by norm_num),
    (Nat.length_toDigits_le_iff (by norm_num) (by norm_num)).mpr h⟩

namespace Draw

/-- A phrase that is drawn is the text of an expression. -/
abbrev Spells [Segmenter] (names : List String) (depth : Nat) (d : Draw Phrase) : Prop :=
  d.Always fun p => ∃ e, p.Spells names depth e

variable {names : List String}

theorem spells_number [Segmenter] : number.Spells names 0 := by
  refine (always_between 0 999).bind fun whole hw => (always_chance _).bind fun _ _ => ?_
  obtain ⟨some, digits, short⟩ := digits_of_lt (n := whole) (by omega)
  split
  · refine (always_between 1 98).bind fun fraction hf => always_pure ?_
    obtain ⟨some', digits', short'⟩ := digits_of_lt (n := fraction) (by omega)
    obtain ⟨x, finite, written⟩ := exists_number some _
      (List.forall_mem_append.mpr ⟨digits, digits'⟩) (by rw [List.length_append]; omega)
    rw [if_neg some'] at written
    have text : (Phrase.pointed whole fraction).text.toList =
        (toString whole).toList ++ '.' :: (toString fraction).toList := by
      simp [Phrase.text]
    exact ⟨_, .literal (v := .number x) (by rw [text]; exact written) finite⟩
  · obtain ⟨x, finite, written⟩ := exists_number some []
      (by rwa [List.append_nil]) (by rw [List.append_nil]; omega)
    rw [if_pos rfl, List.append_nil] at written
    exact always_pure ⟨_, .literal (v := .number x) written finite⟩

theorem spells_string [Segmenter] : string.Spells names 0 := by
  refine (always_between _ _).bind fun length _ =>
    (always_times (always_oneOf _ _) length).bind fun cs ⟨_, drawn⟩ => always_pure ?_
  have isPlain : ∀ c ∈ cs, IsPlain c := fun c mem => (ne_quote_of_drawn c (drawn c mem)).1
  have inside : ∀ c ∈ cs, c ≠ '"' := fun c mem => (ne_quote_of_drawn c (drawn c mem)).2
  obtain ⟨p, legible⟩ := legible_plain_string isPlain inside
  have written := WrittenAs.of_readable legible.readable
  rw [legible.chars] at written
  exact ⟨_, .literal (v := .string (String.ofList cs)) written trivial⟩

theorem spells_literal [Segmenter] : literal.Spells names 0 := by
  intro x
  dsimp only
  split
  · exact spells_number
  split
  · exact spells_string
  split
  · refine (always_oneOf _ _).bind fun b _ => always_pure ⟨_, .literal (v := .boolean b) ?_ ?_⟩
    · cases b
      · exact written_mark (m := .falseWord) (by decide)
      · exact written_mark (m := .trueWord) (by decide)
    · cases b <;> trivial
  · exact ⟨_, .literal (v := .nil) (written_mark (m := .nilWord) (by decide)) trivial⟩

theorem spells_leaf [Segmenter] (h : ∀ n ∈ names, IsName n) : (leaf names).Spells names 0 := by
  cases names with
  | nil => exact spells_literal
  | cons name more =>
    refine (always_chance _).bind fun _ _ => ?_
    split
    · exact (always_oneOf _ _).bind fun n mem => always_pure ⟨_, .named (h n mem) mem⟩
    · exact spells_literal

/-- The operators that are drawn stand between operands. -/
theorem exists_level_of_drawn : ∀ o ∈ Mark.plus :: moreOperators,
    ∃ k, Level.ofOperator? (.mark o) = some k := by
  simp only [moreOperators, List.forall_mem_cons, List.not_mem_nil, false_imp_iff, implies_true,
    and_true]
  exact ⟨⟨_, rfl⟩, ⟨_, rfl⟩, ⟨_, rfl⟩, ⟨_, rfl⟩, ⟨_, rfl⟩, ⟨_, rfl⟩, ⟨_, rfl⟩, ⟨_, rfl⟩, ⟨_, rfl⟩,
    ⟨_, rfl⟩⟩

/-- A phrase over some names is the text of an expression that holds no others, and that is nested
no deeper than was asked for. -/
theorem spells_phrase [Segmenter] (h : ∀ n ∈ names, IsName n) (depth : Nat) :
    (phrase names depth).Spells names depth := by
  induction depth with
  | zero => exact spells_leaf h
  | succ depth ih =>
    refine (always_chance _).bind fun _ _ => ?_
    split
    · exact (spells_leaf h).mono fun p ⟨e, spells⟩ => ⟨e, spells.mono (Nat.zero_le _)⟩
    intro x
    dsimp only
    split
    · refine (always_oneOf _ _).bind fun o drawn => ih.bind fun p ⟨d, left⟩ =>
        ih.bind fun q ⟨e, right⟩ => always_pure ?_
      obtain ⟨k, operator⟩ := exists_level_of_drawn o drawn
      obtain ⟨j, spells⟩ := left.binary operator right
      exact ⟨j, spells.mono (Nat.le_succ depth)⟩
    split
    · exact ih.bind fun p ⟨e, body⟩ => always_pure ⟨_, body.parentheses⟩
    split
    · refine (always_oneOf _ _).bind fun o drawn => ih.bind fun p ⟨e, body⟩ => always_pure ?_
      exact body.unary (by simpa [or_comm] using drawn)
    · exact ih.bind fun p ⟨c, condition⟩ => ih.bind fun q ⟨t, whenTrue⟩ =>
        ih.bind fun r ⟨f, whenFalse⟩ => always_pure ⟨_, condition.choice whenTrue whenFalse⟩

end Draw

end Lox.Corpus
