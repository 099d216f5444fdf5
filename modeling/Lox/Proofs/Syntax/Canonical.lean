import Lox.Proofs.Syntax.Handmade

/-!
# What is read is what is written

Canonical text is faithful to the statements that it was written from, whatever text those were read
from, whatever it is split into, and however much stack there is, as long as there is enough to walk
them.

* `canonical_reads_back`: the main statement.
* `canonical_of_lt_height`: statements too deep for the stack have no canonical text.
* `canonical_sumOfNils`: such statements can be read, since chains of operators nest nothing.
-/

namespace Lox

/-- Canonical text reads back: what was read from any text, the part that could be read, is written
as a text that is scanned and read without a report, as the same statements, and written as the same
text again. This needs that the statements are not too deep for the stack. -/
theorem canonical_reads_back [Segmenter] [Stack] (text : String) (limit : Int) {p : Parsed}
    (parsed : parseMade ((withoutComments (scanText text).tokens).map .whole) limit = .ok p)
    (heights : ∀ st ∈ p.statements, st.height ≤ Stack.frames)
    (writable : ∀ st ∈ p.statements, ∀ t ∈ st.yield, t.IsWritable) :
    ∃ text' q, canonical p.statements = .ok text' ∧ (scanText text').errors = [] ∧
      parseMade ((scanText text').tokens.map .whole) limit = .ok q ∧ q.errors = [] ∧
      q.statements.map Stmt.bare = p.statements.map Stmt.bare ∧
      canonical q.statements = .ok text' := by
  have read := parse_of_parseMade parsed
  rw [MadeToken.map_filled_whole] at read
  obtain ⟨text', q, written, scanned, reparsed, clean, same, again⟩ :=
    canonical_of_parse read heights writable
  exact ⟨text', q, written, scanned, parseMade_whole_of_clean reparsed clean, clean, same, again⟩

/-- Printing a negated number reads back. -/
theorem canonical_reads_back_negation :
    ∃ p text' q, parseMade ((withoutComments (scanText (programSource
        [.print (.unary (.mark .minus) (.literal (.number 1.5) none) none) none])).tokens).map
          .whole) 48 = .ok p ∧ p.statements.length = 1 ∧ canonical p.statements = .ok text' ∧
      (scanText text').errors = [] ∧ parseMade ((scanText text').tokens.map .whole) 48 = .ok q ∧
      q.errors = [] ∧ q.statements.map Stmt.bare = p.statements.map Stmt.bare := by
  have finite : (1.5 : Float).isFinite = true := by decide +kernel
  have unsigned : (1.5 : Float).toBits.toNat < 2 ^ 63 := by decide +kernel
  -- No step below may compute with the number.
  generalize (1.5 : Float) = x at finite unsigned ⊢
  have shaped : (Stmt.print (.unary (.mark .minus) (.literal (.number x) none) none)
      none).Shaped := by
    intro e he
    cases he
    exact ⟨.inr rfl, show 5 ≤ 6 by decide, trivial⟩
  have yield : (Stmt.print (.unary (.mark .minus) (.literal (.number x) none) none) none).yield =
      [.mark .printWord, .mark .minus, .number x, .mark .semicolon] := rfl
  obtain ⟨st, read, height, tokens⟩ := @exists_parse_source _ _ 48 shaped
    (by
      intro e he
      cases he
      show 0 + 1 < 48
      decide)
    (by
      rw [yield]
      simp only [List.forall_mem_cons]
      exact ⟨exists_legible_mark (by decide), exists_legible_mark (by decide),
        exists_legible_number unsigned finite, exists_legible_mark (by decide), by simp⟩)
  have made := parseMade_whole_of_clean read rfl
  obtain ⟨text', q, written, errors, parsed, clean, equal, -⟩ := canonical_reads_back _ 48 made
    (by
      intro s hs
      rw [List.mem_singleton.1 hs, height]
      show 3 ≤ Stack.frames
      decide)
    (by
      intro s hs
      rw [List.mem_singleton.1 hs, tokens, yield]
      simp only [List.forall_mem_cons]
      exact ⟨trivial, trivial, finite, trivial, by simp⟩)
  exact ⟨_, text', q, made, rfl, written, errors, parsed, clean, equal⟩

/-! ## Statements too deep for the stack -/

/-- The sum of as many nils, and one more. -/
def Expr.sumOfNils : Nat → Expr
  | 0 => .literal .nil none
  | n + 1 => .binary (sumOfNils n) (.mark .plus) (.literal .nil none) none

theorem Expr.shaped_sumOfNils (n : Nat) : (sumOfNils n).Shaped := by
  induction n with
  | zero => trivial
  | succ n ih =>
    refine ⟨⟨.term, rfl, ?_, by decide⟩, ih, trivial⟩
    cases n with
    | zero => decide
    | succ n => exact Nat.le_refl _

theorem Expr.height_sumOfNils (n : Nat) : (sumOfNils n).height = n + 1 := by
  induction n with
  | zero => rfl
  | succ n ih => simp [sumOfNils, height, ih]

theorem Expr.nesting_sumOfNils (n : Nat) : (sumOfNils n).nesting = 0 := by
  induction n with
  | zero => rfl
  | succ n ih => simp [sumOfNils, nesting, ih]

theorem Expr.mem_yield_sumOfNils {n : Nat} {t : Token} (h : t ∈ (sumOfNils n).yield) :
    t = .mark .nilWord ∨ t = .mark .plus := by
  induction n with
  | zero => exact .inl (List.mem_singleton.1 h)
  | succ n ih =>
    simp only [sumOfNils, yield, TokenKind.tokens, List.mem_append, List.mem_singleton] at h
    obtain (h | rfl) | rfl := h
    · exact ih h
    · exact .inr rfl
    · exact .inl rfl

/-- A statement too deep for the stack has no canonical text. -/
theorem canonical_of_lt_height [Stack] {st : Stmt} (h : Stack.frames < st.height)
    (statements : List Stmt) : canonical (st :: statements) = .error .tooDeep := by
  have none : st.source? = .error .tooDeep := by
    unfold Stmt.source? obstacle?
    rw [if_pos h]
  rw [canonical, List.mapM_cons, none]
  rfl

/-- A sum with more operators than the stack has frames is read, and cannot be written. -/
theorem canonical_sumOfNils [Segmenter] [Stack] {n : Nat} (deep : Stack.frames ≤ n) :
    ∃ p, parseMade ((withoutComments
        (scanText (programSource [.expression (.sumOfNils n) none])).tokens).map .whole) 48 =
          .ok p ∧
      (∀ st ∈ p.statements, ∀ t ∈ st.yield, t.IsWritable) ∧
      canonical p.statements = .error .tooDeep := by
  have words {t : Token} (h : t ∈ (Stmt.expression (.sumOfNils n) none).yield) :
      ∃ m, t = .mark m ∧ m ≠ .endOfFile := by
    rcases List.mem_append.1 h with h | h
    · obtain rfl | rfl := Expr.mem_yield_sumOfNils h
      · exact ⟨_, rfl, by decide⟩
      · exact ⟨_, rfl, by decide⟩
    · exact ⟨.semicolon, List.mem_singleton.1 h, by decide⟩
  obtain ⟨st, read, height, tokens⟩ := @exists_parse_source _ (.expression (.sumOfNils n) none) 48
    (by
      intro e he
      cases he
      exact Expr.shaped_sumOfNils n)
    (by
      intro e he
      cases he
      rw [Expr.nesting_sumOfNils]
      decide)
    (by
      intro t ht
      obtain ⟨m, rfl, notEnd⟩ := words ht
      exact exists_legible_mark notEnd)
  refine ⟨⟨[st], []⟩, parseMade_whole_of_clean read rfl, ?_, ?_⟩
  · intro s hs t ht
    rw [List.mem_singleton.1 hs, tokens] at ht
    obtain ⟨m, rfl, -⟩ := words ht
    trivial
  · apply canonical_of_lt_height
    rw [height]
    show Stack.frames < (Expr.sumOfNils n).height + 1
    rw [Expr.height_sumOfNils]
    omega

/-- Two thousand operators are too many. -/
theorem canonical_sum_too_deep :
    ∃ p, parseMade ((withoutComments
        (scanText (programSource [.expression (.sumOfNils 2000) none])).tokens).map .whole) 48 =
          .ok p ∧
      (∀ st ∈ p.statements, ∀ t ∈ st.yield, t.IsWritable) ∧
      canonical p.statements = .error .tooDeep :=
  canonical_sumOfNils (by decide)

end Lox
