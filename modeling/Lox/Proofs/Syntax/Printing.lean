import Lox.Proofs.Syntax.Derivation
import Lox.Proofs.Token.Legible
import Lox.Syntax.Canonical

/-!
# Printed trees

A tree is printed as its yield with white space between. Every printed token may follow the one
before, if the tree has the right shape: brackets and unary operators end by themselves, and all
other tokens are followed by white space, a closing bracket or a semicolon.

* `Expr.printed`, `Stmt.printed`, `printedProgram`: the tokens of a printed tree, white space
  included.
* `Expr.toList_source`, `toList_programSource`: they spell the canonical text.
* `Expr.filter_printed`, `filter_printedProgram`: without white space they are the yield.
* `Expr.chain_printed`, `chain_printedProgram`: each may follow the one before.
-/

namespace Lox

namespace Token

/-- The space between two tokens. -/
def space : Token := .whitespace .space

/-- The line break behind a statement. -/
def newline : Token := .whitespace .newline

/-- The text of a row of tokens. -/
def spell (ts : List Token) : List Char := ts.flatMap fun t => t.spelling.toList

@[simp]
theorem spell_nil : spell [] = [] :=
  rfl

@[simp]
theorem spell_cons (t : Token) (ts : List Token) :
    spell (t :: ts) = t.spelling.toList ++ spell ts :=
  rfl

@[simp]
theorem spell_append (ts us : List Token) : spell (ts ++ us) = spell ts ++ spell us :=
  List.flatMap_append

@[simp]
theorem spelling_mark (m : Mark) : (Token.mark m).spelling = m.spelling :=
  rfl

@[simp]
theorem spelling_identifier (n : String) : (Token.identifier n).spelling = n :=
  rfl

@[simp]
theorem spelling_space : space.spelling = " " :=
  rfl

@[simp]
theorem spelling_newline : newline.spelling = "\n" :=
  rfl

end Token

open Token (space newline spell Follows)

/-! ## What is printed -/

/-- The tokens of a printed expression. -/
def Expr.printed : Expr → List Token
  | literal v _ => [v.token]
  | named n _ => [.identifier n]
  | grouping e _ => .mark .leftParen :: e.printed ++ [.mark .rightParen]
  | unary o e _ => o.tokens ++ e.printed
  | binary l o r _ => l.printed ++ space :: (o.tokens ++ space :: r.printed)
  | ternary c t f _ => c.printed ++ space :: .mark .question :: space ::
      (t.printed ++ space :: .mark .colon :: space :: f.printed)
  | stray _ => []

/-- The tokens of a printed statement. -/
def Stmt.printed : Stmt → List Token
  | expression e _ => e.printed ++ [.mark .semicolon]
  | print e _ => .mark .printWord :: space :: (e.printed ++ [.mark .semicolon])
  | declaration n none _ => [.mark .varWord, space, .identifier n, .mark .semicolon]
  | declaration n (some e) _ => .mark .varWord :: space :: .identifier n :: space ::
      .mark .equal :: space :: (e.printed ++ [.mark .semicolon])
  | stray _ => []

/-- The tokens of a printed program. -/
def printedProgram (statements : List Stmt) : List Token :=
  statements.flatMap fun st => st.printed ++ [newline]

/-! ## They spell the canonical text -/

theorem Value.spelling_token (v : Value) : v.token.spelling = v.literalText := by
  cases v with
  | boolean b => cases b <;> rfl
  | _ => rfl

/-- The tokens of a printed expression spell it. -/
theorem Expr.toList_source {e : Expr} (h : e.Shaped) : e.source.toList = spell e.printed := by
  induction e with
  | literal v s => simp [source, printed, Value.spelling_token]
  | named n s => simp [source, printed]
  | grouping e s ih => simp [source, printed, ih h, Mark.spelling]
  | unary o e s ih =>
    obtain ⟨rfl | rfl, -, shaped⟩ := h <;>
      simp [source, printed, ih shaped, TokenKind.tokens, TokenKind.spelling]
  | binary l o r s ihl ihr =>
    obtain ⟨⟨k, operator, -, -⟩, left, right⟩ := h
    cases o with
    | mark m => simp [source, printed, ihl left, ihr right, TokenKind.tokens, TokenKind.spelling]
    | _ => cases operator
  | ternary c t f s ihc iht ihf =>
    obtain ⟨-, -, condition, whenTrue, whenFalse⟩ := h
    simp [source, printed, ihc condition, iht whenTrue, ihf whenFalse, Mark.spelling]
  | stray k => exact h.elim

/-- The tokens of a printed statement spell it. -/
theorem Stmt.toList_source {st : Stmt} (h : st.Shaped) : st.source.toList = spell st.printed := by
  cases st with
  | expression e s | print e s =>
    simp [source, printed, Expr.toList_source (h e rfl), Mark.spelling]
  | declaration n e s =>
    cases e with
    | none => simp [source, printed, Mark.spelling]
    | some e => simp [source, printed, Expr.toList_source (h e rfl), Mark.spelling]
  | stray k => exact h.elim

/-- The tokens of a printed program spell its text. -/
theorem toList_programSource {statements : List Stmt} (h : ∀ st ∈ statements, st.Shaped) :
    (programSource statements).toList = spell (printedProgram statements) := by
  rw [programSource, String.toList_join, printedProgram]
  induction statements with
  | nil => rfl
  | cons st statements ih =>
    rw [List.forall_mem_cons] at h
    simp [Stmt.toList_source h.1, ih h.2]

/-! ## Without white space they are the yield -/

namespace Token

@[simp]
theorem isInk_mark (m : Mark) : (Token.mark m).isInk = true :=
  rfl

@[simp]
theorem isInk_identifier (n : String) : (Token.identifier n).isInk = true :=
  rfl

@[simp]
theorem isInk_space : space.isInk = false :=
  rfl

@[simp]
theorem isInk_newline : newline.isInk = false :=
  rfl

end Token

@[simp]
theorem Value.isInk_token (v : Value) : v.token.isInk = true := by
  cases v with
  | boolean b => cases b <;> rfl
  | _ => rfl

@[simp]
theorem TokenKind.filter_tokens (o : TokenKind) : o.tokens.filter Token.isInk = o.tokens := by
  cases o <;> rfl

/-- A printed expression without white space is its yield. -/
theorem Expr.filter_printed (e : Expr) : e.printed.filter Token.isInk = e.yield := by
  induction e with
  | literal v s => simp [printed, yield]
  | named n s => rfl
  | grouping e s ih => simp [printed, yield, List.filter_cons, ih]
  | unary o e s ih => simp [printed, yield, ih]
  | binary l o r s ihl ihr => simp [printed, yield, ihl, ihr]
  | ternary c t f s ihc iht ihf => simp [printed, yield, List.filter_cons, ihc, iht, ihf]
  | stray k => rfl

/-- A printed statement without white space is its yield. -/
theorem Stmt.filter_printed (st : Stmt) : st.printed.filter Token.isInk = st.yield := by
  cases st with
  | expression e s | print e s => simp [printed, yield, List.filter_cons, Expr.filter_printed]
  | declaration n e s =>
    cases e with
    | none => rfl
    | some e => simp [printed, yield, List.filter_cons, Expr.filter_printed]
  | stray k => rfl

/-- A printed program without white space is the yield of its statements. -/
theorem filter_printedProgram (statements : List Stmt) :
    (printedProgram statements).filter Token.isInk = statements.flatMap Stmt.yield := by
  unfold printedProgram
  induction statements with
  | nil => rfl
  | cons st statements ih => simp [ih, Stmt.filter_printed]

/-- The white space in a printed expression is spaces. -/
theorem Expr.eq_space {e : Expr} {t : Token} (h : t ∈ e.printed) (blank : t.isInk = false) :
    t = space := by
  have none (us : List Token) (ink : us.filter Token.isInk = us) (mem : t ∈ us) : t = space := by
    rw [← ink, List.mem_filter, blank] at mem
    exact absurd mem.2 Bool.false_ne_true
  induction e with
  | literal v s => exact none _ (by simp [printed]) h
  | named n s => exact none _ rfl h
  | grouping e s ih =>
    simp only [printed, List.cons_append, List.mem_cons, List.mem_append, List.not_mem_nil,
      or_false] at h
    obtain rfl | h | rfl := h
    · cases blank
    · exact ih h
    · cases blank
  | unary o e s ih =>
    obtain h | h := List.mem_append.mp h
    · exact none _ (by simp) h
    · exact ih h
  | binary l o r s ihl ihr =>
    simp only [printed, List.mem_append, List.mem_cons] at h
    obtain h | rfl | h | rfl | h := h
    · exact ihl h
    · rfl
    · exact none _ (by simp) h
    · rfl
    · exact ihr h
  | ternary c t f s ihc iht ihf =>
    simp only [printed, List.mem_append, List.mem_cons] at h
    obtain h | rfl | rfl | rfl | h | rfl | rfl | rfl | h := h
    · exact ihc h
    · rfl
    · cases blank
    · rfl
    · exact iht h
    · rfl
    · cases blank
    · rfl
    · exact ihf h
  | stray k => cases h

/-- The white space in a printed statement is spaces. -/
theorem Stmt.eq_space {st : Stmt} {t : Token} (h : t ∈ st.printed) (blank : t.isInk = false) :
    t = space := by
  cases st with
  | expression e s =>
    obtain h | h := List.mem_append.mp h
    · exact Expr.eq_space h blank
    · cases List.mem_singleton.mp h
      cases blank
  | print e s =>
    simp only [printed, List.mem_cons, List.mem_append, List.not_mem_nil, or_false] at h
    obtain rfl | rfl | h | rfl := h
    · cases blank
    · rfl
    · exact Expr.eq_space h blank
    · cases blank
  | declaration n e s =>
    cases e with
    | none =>
      simp only [printed, List.mem_cons, List.not_mem_nil, or_false] at h
      obtain rfl | rfl | rfl | rfl := h <;> first | rfl | cases blank
    | some e =>
      simp only [printed, List.mem_cons, List.mem_append, List.not_mem_nil, or_false] at h
      obtain rfl | rfl | rfl | rfl | rfl | rfl | h | rfl := h <;>
        first | rfl | cases blank | exact Expr.eq_space h blank
  | stray k => cases h

/-- A printed program holds the tokens of its statements, spaces and line breaks. -/
theorem mem_printedProgram {statements : List Stmt} {t : Token}
    (h : t ∈ printedProgram statements) :
    (∃ st ∈ statements, t ∈ st.yield) ∨ t = space ∨ t = newline := by
  obtain ⟨st, mem, h⟩ := List.mem_flatMap.mp h
  obtain h | h := List.mem_append.mp h
  · cases ink : t.isInk with
    | true =>
      refine .inl ⟨st, mem, ?_⟩
      rw [← st.filter_printed, List.mem_filter]
      exact ⟨h, ink⟩
    | false => exact .inr (.inl (Stmt.eq_space h ink))
  · exact .inr (.inr (List.mem_singleton.mp h))

/-! ## Each token may follow the one before -/

section Chain

variable {t u : Token} {ts us : List Token}

theorem follows_space (t : Token) : t.Follows space :=
  .closing List.mem_cons_self

theorem space_follows (u : Token) : space.Follows u :=
  .opening List.mem_cons_self

theorem follows_semicolon (t : Token) : t.Follows (.mark .semicolon) :=
  .closing (by simp [Token.closings])

/-- Whatever stands behind a space, the space may stand before it. -/
theorem chain_space (h : us.IsChain Follows) : (space :: us).IsChain Follows :=
  h.cons fun u _ => space_follows u

/-- Any token may stand before a space. -/
theorem chain_cons_space (t : Token) (h : us.IsChain Follows) :
    (t :: space :: us).IsChain Follows :=
  (chain_space h).cons (by rintro _ ⟨⟩; exact follows_space t)

/-- Any tokens may stand before one that ends what stands before it. -/
theorem chain_append (hu : u ∈ Token.closings) (ht : ts.IsChain Follows)
    (h : (u :: us).IsChain Follows) : (ts ++ u :: us).IsChain Follows :=
  ht.append h (by rintro t - _ ⟨⟩; exact .closing hu)

theorem chain_append_space (ht : ts.IsChain Follows) (h : us.IsChain Follows) :
    (ts ++ space :: us).IsChain Follows :=
  chain_append List.mem_cons_self ht (chain_space h)

theorem chain_append_semicolon (ht : ts.IsChain Follows) :
    (ts ++ [Token.mark .semicolon]).IsChain Follows :=
  chain_append (by simp [Token.closings]) ht (.singleton _)

end Chain

/-- The tokens start an expression: none of them can be read into the mark before. -/
def Token.Starts (ts : List Token) : Prop :=
  ts ≠ [] ∧ ∀ t ∈ ts.head?, t ≠ .mark .equal ∧ t ≠ .mark .equalEqual

theorem Token.Starts.append {ts : List Token} (h : Token.Starts ts) (us : List Token) :
    Token.Starts (ts ++ us) := by
  obtain ⟨some, first⟩ := h
  refine ⟨List.append_ne_nil_of_left_ne_nil some us, ?_⟩
  rw [List.head?_append_of_ne_nil _ some]
  exact first

theorem Value.starts_token (v : Value) : Token.Starts [v.token] := by
  refine ⟨List.cons_ne_nil _ _, ?_⟩
  rintro _ ⟨⟩
  cases v with
  | boolean b => cases b <;> exact ⟨by rintro ⟨⟩, by rintro ⟨⟩⟩
  | _ => exact ⟨by rintro ⟨⟩, by rintro ⟨⟩⟩

/-- A printed expression starts one. -/
theorem Expr.starts_printed {e : Expr} (h : e.Shaped) : Token.Starts e.printed := by
  induction e with
  | literal v s => exact v.starts_token
  | named n s =>
    exact ⟨List.cons_ne_nil _ _, by rintro _ ⟨⟩; exact ⟨by rintro ⟨⟩, by rintro ⟨⟩⟩⟩
  | grouping e s ih =>
    exact ⟨List.cons_ne_nil _ _, by rintro _ ⟨⟩; exact ⟨by rintro ⟨⟩, by rintro ⟨⟩⟩⟩
  | unary o e s ih =>
    obtain ⟨rfl | rfl, -⟩ := h <;>
      exact ⟨List.cons_ne_nil _ _, by rintro _ ⟨⟩; exact ⟨by rintro ⟨⟩, by rintro ⟨⟩⟩⟩
  | binary l o r s ihl ihr => exact (ihl h.2.1).append _
  | ternary c t f s ihc iht ihf => exact (ihc h.2.2.1).append _
  | stray k => exact h.elim

/-- In a printed expression each token may follow the one before. -/
theorem Expr.chain_printed {e : Expr} (h : e.Shaped) : e.printed.IsChain Follows := by
  induction e with
  | literal v s => exact .singleton _
  | named n s => exact .singleton _
  | grouping e s ih =>
    refine List.IsChain.cons ?_ fun u _ => .opening (by simp [Token.openings])
    exact chain_append (by simp [Token.closings]) (ih h) (.singleton _)
  | unary o e s ih =>
    obtain ⟨operator, -, shaped⟩ := h
    refine List.IsChain.append ?_ (ih shaped) ?_
    · obtain rfl | rfl := operator <;> exact .singleton _
    · obtain rfl | rfl := operator
      · rintro _ ⟨⟩ u first
        obtain ⟨notEqual, notEqualEqual⟩ := (starts_printed shaped).2 u first
        exact .bang notEqual notEqualEqual
      · rintro _ ⟨⟩ u -
        exact .opening (by simp [Token.openings])
  | binary l o r s ihl ihr =>
    obtain ⟨⟨k, operator, -⟩, left, right⟩ := h
    cases o with
    | mark m => exact chain_append_space (ihl left) (chain_cons_space _ (ihr right))
    | _ => cases operator
  | ternary c t f s ihc iht ihf =>
    obtain ⟨-, -, condition, whenTrue, whenFalse⟩ := h
    exact chain_append_space (ihc condition) (chain_cons_space _
      (chain_append_space (iht whenTrue) (chain_cons_space _ (ihf whenFalse))))
  | stray k => exact h.elim

/-- In a printed statement each token may follow the one before. -/
theorem Stmt.chain_printed {st : Stmt} (h : st.Shaped) : st.printed.IsChain Follows := by
  cases st with
  | expression e s => exact chain_append_semicolon (Expr.chain_printed (h e rfl))
  | print e s =>
    exact chain_cons_space _ (chain_append_semicolon (Expr.chain_printed (h e rfl)))
  | declaration n e s =>
    cases e with
    | none =>
      exact chain_cons_space _ ((List.IsChain.singleton _).cons
        (by rintro _ ⟨⟩; exact follows_semicolon _))
    | some e =>
      exact chain_cons_space _ (chain_cons_space _ (chain_cons_space _
        (chain_append_semicolon (Expr.chain_printed (h e rfl)))))
  | stray k => exact .nil

/-- In a printed program each token may follow the one before. -/
theorem chain_printedProgram {statements : List Stmt} (h : ∀ st ∈ statements, st.Shaped) :
    (printedProgram statements).IsChain Follows := by
  unfold printedProgram
  induction statements with
  | nil => exact .nil
  | cons st statements ih =>
    rw [List.forall_mem_cons] at h
    have newlineFollows (u : Token) : newline.Follows u :=
      .opening (by simp [Token.openings, newline])
    rw [List.flatMap_cons, List.append_assoc]
    refine chain_append (by simp [Token.closings, newline]) (Stmt.chain_printed h.1) ?_
    exact (ih h.2).cons fun u _ => newlineFollows u

end Lox
