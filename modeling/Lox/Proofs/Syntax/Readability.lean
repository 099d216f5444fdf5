import Lox.Proofs.Syntax.Onward
import Lox.Proofs.Token.Display
import Lox.Syntax.Outline

/-!
# Outlines are read in one way

An outline shows names and numbers as they are, and opens a parenthesis for four sorts of
expressions: groups, the two sorts of operators, and choices. What stands behind the parenthesis
tells them apart, even if a variable is called `group`. So an outline without strings determines the
tree that it was made from, and within a longer text also where it ends.

* `Token.IsClear`: what is no string, a finite number, or a name of plain letters.
* `Outline.Form`: the sort of an expression, as its outline tells it; `Expr.ofChars_outline`.
* `Expr.outline_append_inj`: an outline determines its tree and what stands behind it.
* `Stmt.IsParsed`: the parser returns the statement for tokens that were scanned.
* `bare_eq_of_outline`: two parsed statements with one outline differ in their spans only.
-/

namespace Lox

/-! ## Words -/

namespace Outline

/-- What names, numbers and constants are made of. -/
def isWordChar (c : Char) : Bool := c.isAlphanum || c == '_' || c == '.'

/-- The characters are a word. -/
structure IsWord (cs : List Char) : Prop where
  ne_nil : cs ≠ []
  inside : ∀ c ∈ cs, isWordChar c = true

/-- A word would end before the characters. -/
def Stops (cs : List Char) : Prop := ∀ c ∈ cs.head?, isWordChar c = false

variable {v w r s : List Char}

/-- A word is as long as it goes on. -/
theorem word_append_inj (hv : IsWord v) (hw : IsWord w) (hr : Stops r) (hs : Stops s)
    (same : v ++ r = w ++ s) : v = w ∧ r = s := by
  have word := congrArg (List.takeWhile isWordChar) same
  rw [Piece.takeWhile_append_stop hv.inside hr, Piece.takeWhile_append_stop hw.inside hs] at word
  subst word
  exact ⟨rfl, List.append_cancel_left same⟩

end Outline

open Outline (isWordChar IsWord Stops word_append_inj)

namespace Token

/-- The token is clear in an outline: it is no string, and it is a finite number if it is one and
made of ASCII letters, digits and underscores if it is a name. -/
def IsClear : Token → Prop
  | string _ => False
  | number x => x.isFinite
  | identifier n => ∀ c ∈ n.toList, c.isAlphanum ∨ c = '_'
  | _ => True

/-- The token is a name, or it stands for a value. -/
def IsLeaf (t : Token) : Prop := t.kind = .identifier ∨ t.literal?.isSome

/-- The token is clear, and it was scanned. -/
structure IsShown [Segmenter] (t : Token) : Prop where
  clear : t.IsClear
  scanned : ∃ text, t ∈ (scanText text).tokens.map PlacedToken.token

variable {t u : Token}

/-- The constants are written as words. -/
theorem all_spelling {m : Mark} (h : (mark m).literal?.isSome) :
    m.spelling.toList ≠ [] ∧ m.spelling.toList.all isWordChar = true := by
  revert h
  cases m <;> decide

theorem IsLeaf.visible (h : t.IsLeaf) : t.kind ≠ .whitespace ∧ t.kind ≠ .mark .endOfFile := by
  cases t with
  | mark m =>
    refine ⟨nofun, ?_⟩
    rintro ⟨⟩
    obtain h | h := h <;> cases h
  | whitespace b => obtain h | h := h <;> cases h
  | _ => exact ⟨nofun, nofun⟩

/-- A clear name or value comes back from its text. -/
theorem IsShown.lined [Segmenter] (h : t.IsShown) (leaf : t.IsLeaf) : t.Lined := by
  obtain ⟨text, mem⟩ := h.scanned
  have visible : t ∈ visibleTokens text :=
    List.mem_filter.mpr ⟨mem, by simpa using leaf.visible⟩
  refine lined_of_mem_visibleTokens visible ?_
  rintro x rfl
  exact h.clear

/-- Tokens that come back from their texts are told apart by them. -/
theorem Lined.eq_of_text [Segmenter] (ht : t.Lined) (hu : u.Lined) (same : t.text = u.text) :
    t = u := by
  have read : Lexed u.text.toList [t] := same ▸ ht.alone
  have tokens : [t].map Except.ok = [u].map (Except.ok (ε := Cause)) :=
    read.symm.trans hu.alone
  simpa using tokens

/-- A finite number without a sign is written as one word. -/
theorem isWord_number {x : Float} (finite : x.isFinite) (unsigned : x.toBits.toNat < 2 ^ 63) :
    IsWord (number x).text.toList := by
  obtain ⟨whole, fraction, written, spelled, -⟩ := Decimal.exists_spelling_write finite
  rw [Decimal.hasSign_eq_false unsigned] at written
  have chars : (number x).text.toList = Decimal.spell whole fraction := by
    rw [text, written, String.toList_ofList]
    rfl
  rw [chars]
  refine ⟨by simp [Decimal.spell, spelled.whole_ne_nil], fun c mem => ?_⟩
  by_cases point : c = '.'
  · rw [point]
    decide
  · have digit : c.isDigit := by
      apply spelled.isDigit
      unfold Decimal.spell at mem
      split at mem <;> simp_all
    simp [isWordChar, Char.isAlphanum, digit]

/-- A clear name or value is written as one word. -/
theorem IsShown.isWord [Segmenter] (h : t.IsShown) (leaf : t.IsLeaf) : IsWord t.text.toList := by
  obtain ⟨text, mem⟩ := h.scanned
  obtain ⟨u, scanned, rfl⟩ := List.mem_map.mp mem
  obtain ⟨p, -, reading⟩ :=
    exists_piece_of_mem_scan scanned (beq_eq_false_iff_ne.mpr leaf.visible.2)
  have clear := h.clear
  obtain ⟨token, span⟩ := u
  cases token with
  | mark m =>
    obtain ⟨⟨⟩⟩ | leaf := leaf
    exact ⟨(all_spelling leaf).1, List.all_eq_true.mp (all_spelling leaf).2⟩
  | identifier n =>
    cases Piece.readAs_of_reading reading
    refine ⟨?_, fun c mem => ?_⟩
    · show p.text.toList ≠ []
      rw [← p.chars_eq_text]
      exact List.cons_ne_nil _ _
    · obtain letter | rfl := clear c mem
      · simp [isWordChar, letter]
      · decide
  | number x =>
    cases Piece.readAs_of_reading reading
    exact isWord_number clear p.toBits_numberOf_lt
  | string s => exact clear.elim
  | comment s | whitespace b => obtain leaf | leaf := leaf <;> cases leaf

end Token

/-! ## Sorts of expressions -/

/-- The operators that an outline shows in front. -/
def Mark.prefixed : List Mark :=
  [.bang, .bangEqual, .equalEqual, .greater, .greaterEqual, .less, .lessEqual, .minus, .plus,
    .slash, .star]

theorem Mark.mem_prefixed {m : Mark} (h : (Level.ofOperator? (.mark m)).isSome) :
    m ∈ prefixed := by
  revert h
  cases m <;> decide

namespace Expr

/-- An expression whose tokens are clear in its outline. -/
def Clear [Segmenter] : Expr → Prop
  | literal v _ => v.token.IsShown
  | named n _ => (Token.identifier n).IsShown
  | grouping e _ => e.Clear
  | unary o e _ => (∃ m ∈ Mark.prefixed, o = .mark m) ∧ e.Clear
  | binary l o r _ => (∃ m ∈ Mark.prefixed, o = .mark m) ∧ l.Clear ∧ r.Clear
  | ternary c t f _ => c.Clear ∧ t.Clear ∧ f.Clear
  | stray _ => False

/-- The token of an expression that has only one. -/
def leaf? : Expr → Option Token
  | literal v _ => some v.token
  | named n _ => some (.identifier n)
  | _ => none

variable {d e : Expr} {t : Token}

theorem clear_of_shaped [Segmenter] (h : e.Shaped) (shown : ∀ t ∈ e.yield, t.IsShown) :
    e.Clear := by
  induction e with
  | literal v a => exact shown _ List.mem_cons_self
  | named n a => exact shown _ List.mem_cons_self
  | grouping e a ih => exact ih h fun t mem => shown t (by simp [yield, mem])
  | unary o e a ih =>
    obtain ⟨operator, -, shaped⟩ := h
    refine ⟨?_, ih shaped fun t mem => shown t (by simp [yield, mem])⟩
    obtain rfl | rfl := operator <;> exact ⟨_, by decide, rfl⟩
  | binary l o r a left right =>
    obtain ⟨⟨k, operator, -⟩, hl, hr⟩ := h
    refine ⟨?_, left hl fun t mem => shown t (by simp [yield, mem]),
      right hr fun t mem => shown t (by simp [yield, mem])⟩
    cases o with
    | mark m => exact ⟨m, Mark.mem_prefixed (operator ▸ rfl), rfl⟩
    | _ => cases operator
  | ternary c t f a condition whenTrue whenFalse =>
    obtain ⟨-, -, hc, ht, hf⟩ := h
    exact ⟨condition hc fun t mem => shown t (by simp [yield, mem]),
      whenTrue ht fun t mem => shown t (by simp [yield, mem]),
      whenFalse hf fun t mem => shown t (by simp [yield, mem])⟩
  | stray => exact h.elim

theorem isLeaf_of_leaf? (h : e.leaf? = some t) : t.IsLeaf := by
  cases e with
  | literal v a =>
    cases h
    exact .inr (Token.literal?_eq_some.mpr rfl ▸ rfl)
  | named n a =>
    cases h
    exact .inl rfl
  | _ => cases h

theorem Clear.isShown [Segmenter] (h : e.Clear) (leaf : e.leaf? = some t) : t.IsShown := by
  cases e with
  | literal | named =>
    cases leaf
    exact h
  | _ => cases leaf

/-- The outline of a name or a value is the text of its token. -/
theorem outline_of_leaf? [Segmenter] (h : e.Clear) (leaf : e.leaf? = some t) :
    e.outline = t.text := by
  have clear := (h.isShown leaf).clear
  cases e with
  | literal v a =>
    cases leaf
    cases v with
    | number | nil => rfl
    | boolean b => cases b <;> rfl
    | string => exact clear.elim
  | named =>
    cases leaf
    rfl
  | _ => cases leaf

/-- A name or a value is known from its token. -/
theorem bare_of_leaf? (hd : d.leaf? = some t) (he : e.leaf? = some t) : d.bare = e.bare := by
  cases d with
  | literal v a =>
    cases hd
    cases e with
    | literal w b =>
      have value : v.token.literal? = w.token.literal? := by rw [Option.some.inj he]
      rw [Token.literal?_eq_some.mpr rfl, Token.literal?_eq_some.mpr rfl] at value
      rw [bare, bare, Option.some.inj value]
    | named n b => rcases v with _ | _ | (_ | _) | _ <;> cases he
    | _ => cases he
  | named n a =>
    cases hd
    cases e with
    | literal v b => rcases v with _ | _ | (_ | _) | _ <;> cases he
    | named m b =>
      cases he
      rfl
    | _ => cases he
  | _ => cases hd

/-- An outline is a word, or it starts with a parenthesis. -/
theorem Clear.exists_front [Segmenter] (h : e.Clear) :
    (∃ t, e.leaf? = some t ∧ IsWord e.outline.toList) ∨
      e.leaf? = none ∧ ∃ cs, e.outline.toList = '(' :: cs := by
  cases e with
  | literal v a =>
    have leaf : (literal v a).leaf? = some v.token := rfl
    refine .inl ⟨_, leaf, ?_⟩
    rw [outline_of_leaf? h leaf]
    exact (h.isShown leaf).isWord (isLeaf_of_leaf? leaf)
  | named n a =>
    have leaf : (named n a).leaf? = some (.identifier n) := rfl
    exact .inl ⟨_, leaf, (h.isShown leaf).isWord (isLeaf_of_leaf? leaf)⟩
  | grouping | unary | binary | ternary => exact .inr ⟨rfl, _, by simp [outline]; rfl⟩
  | stray => exact h.elim

end Expr

namespace Outline

/-- The sorts of expressions that an outline tells apart. -/
inductive Form where
  | word
  | group
  /-- One operand or two, behind an operator. -/
  | operator
  | choice
  deriving DecidableEq

/-- The sort of an expression, from what stands behind the parenthesis. Up to a blank that is an
operator, the name of a group, or the condition of a choice. A condition may be called like a group,
but then a question mark follows. -/
def Form.behind (cs : List Char) : Form :=
  let front := cs.takeWhile (· ≠ ' ')
  if front ∈ Mark.prefixed.map (·.spelling.toList) then operator
  else if front = "group".toList ∧ (cs.drop 6).head? ≠ some '?' then group
  else choice

/-- The sort of the expression whose outline a text starts with. -/
def Form.ofChars : List Char → Form
  | '(' :: cs => behind cs
  | _ => word

/-- Words and parentheses start no operator. -/
theorem not_mem_operators {cs : List Char} (h : ∃ c ∈ cs.head?, isWordChar c = true ∨ c = '(') :
    cs ∉ Mark.prefixed.map (·.spelling.toList) := by
  obtain ⟨c, head, start⟩ := h
  intro mem
  have none : ∀ s ∈ Mark.prefixed.map (·.spelling.toList),
      s.head?.all (fun c => !isWordChar c && c != '(') = true := by decide
  have other := none cs mem
  rw [Option.mem_def.mp head] at other
  obtain word | rfl := start
  · simp [word] at other
  · simp at other

namespace Form

theorem ofChars_word (h : IsWord w) (r : List Char) : ofChars (w ++ r) = word := by
  obtain ⟨c, cs, rfl⟩ := List.exists_cons_of_ne_nil h.ne_nil
  have letter := h.inside c List.mem_cons_self
  unfold ofChars
  split
  · rename_i same
    rw [(List.cons.inj same).1] at letter
    cases letter
  · rfl

theorem behind_operator {m : Mark} (h : m ∈ Mark.prefixed) (r : List Char) :
    behind (m.spelling.toList ++ ' ' :: r) = operator := by
  have front : (m.spelling.toList ++ ' ' :: r).takeWhile (· ≠ ' ') = m.spelling.toList := by
    apply Piece.takeWhile_append_stop
    · apply List.all_eq_true.mp
      revert h
      cases m <;> decide
    · rintro _ ⟨⟩
      rfl
  rw [behind, front]
  exact if_pos (List.mem_map_of_mem h)

theorem behind_group {r : List Char} (h : r.head? ≠ some '?') :
    behind ("group".toList ++ ' ' :: r) = group := by
  have front : ("group".toList ++ ' ' :: r).takeWhile (· ≠ ' ') = "group".toList := by simp
  rw [behind, front]
  have next : (("group".toList ++ ' ' :: r).drop 6).head? ≠ some '?' := by simpa using h
  exact (if_neg (not_mem_operators ⟨'g', rfl, .inl rfl⟩)).trans (if_pos ⟨rfl, next⟩)

/-- A condition that is a word, even if it is called like a group. -/
theorem behind_word (h : IsWord w) (r : List Char) : behind (w ++ ' ' :: '?' :: r) = choice := by
  have inside : ∀ c ∈ w, decide (c ≠ ' ') = true := by
    intro c mem
    have letter := h.inside c mem
    refine decide_eq_true ?_
    rintro rfl
    cases letter
  have front : (w ++ ' ' :: '?' :: r).takeWhile (· ≠ ' ') = w :=
    Piece.takeWhile_append_stop inside (by rintro _ ⟨⟩; rfl)
  have noOperator : w ∉ Mark.prefixed.map (·.spelling.toList) := by
    obtain ⟨c, cs, rfl⟩ := List.exists_cons_of_ne_nil h.ne_nil
    exact not_mem_operators ⟨c, rfl, .inl (h.inside c List.mem_cons_self)⟩
  rw [behind, front]
  refine (if_neg noOperator).trans (if_neg ?_)
  rintro ⟨rfl, next⟩
  exact next rfl

/-- A condition that is no word starts with a parenthesis of its own. -/
theorem behind_parenthesis (cs : List Char) : behind ('(' :: cs) = choice := by
  have front : ('(' :: cs).takeWhile (· ≠ ' ') = '(' :: cs.takeWhile (· ≠ ' ') := rfl
  rw [behind, front]
  exact (if_neg (not_mem_operators ⟨'(', rfl, .inr rfl⟩)).trans (if_neg (by simp))

end Form

end Outline

open Outline (Form)

namespace Expr

/-- The sort of an expression in outlines. -/
def form : Expr → Form
  | literal _ _ | named _ _ | stray _ => .word
  | grouping _ _ => .group
  | unary _ _ _ | binary _ _ _ _ => .operator
  | ternary _ _ _ _ => .choice

/-! ## The characters of an outline -/

section Chars

variable {d e : Expr} {m k : Mark} {r s : List Char}

theorem outline_grouping (e : Expr) (a : Option Span) (r : List Char) :
    (grouping e a).outline.toList ++ r =
      '(' :: ("group".toList ++ ' ' :: (e.outline.toList ++ ')' :: r)) := by
  simp [outline]

theorem outline_unary (m : Mark) (e : Expr) (a : Option Span) (r : List Char) :
    (unary (.mark m) e a).outline.toList ++ r =
      '(' :: (m.spelling.toList ++ ' ' :: (e.outline.toList ++ ')' :: r)) := by
  simp [outline, TokenKind.spelling]

theorem outline_binary (m : Mark) (d e : Expr) (a : Option Span) (r : List Char) :
    (binary d (.mark m) e a).outline.toList ++ r = '(' :: (m.spelling.toList ++
      ' ' :: (d.outline.toList ++ ' ' :: (e.outline.toList ++ ')' :: r))) := by
  simp [outline, TokenKind.spelling]

theorem outline_ternary (c d e : Expr) (a : Option Span) (r : List Char) :
    (ternary c d e a).outline.toList ++ r = '(' :: (c.outline.toList ++ ' ' :: '?' :: ' ' ::
      (d.outline.toList ++ ' ' :: ':' :: ' ' :: (e.outline.toList ++ ')' :: r))) := by
  simp [outline]

/-- The outline of an expression tells of which sort it is. -/
theorem ofChars_outline [Segmenter] (h : e.Clear) (r : List Char) :
    Form.ofChars (e.outline.toList ++ r) = e.form := by
  cases e with
  | literal | named =>
    obtain ⟨t, -, word⟩ | ⟨⟨⟩, -⟩ := h.exists_front
    exact Form.ofChars_word word r
  | grouping e a =>
    rw [outline_grouping]
    apply Form.behind_group
    obtain ⟨t, -, word⟩ | ⟨-, cs, opens⟩ := Clear.exists_front (e := e) h
    · obtain ⟨c, cs, front⟩ := List.exists_cons_of_ne_nil word.ne_nil
      have letter := word.inside c (front ▸ List.mem_cons_self)
      rw [front]
      rintro ⟨⟩
      cases letter
    · rw [opens]
      nofun
  | unary o e a =>
    obtain ⟨⟨m, operator, rfl⟩, -⟩ := h
    rw [outline_unary]
    exact Form.behind_operator operator _
  | binary d o e a =>
    obtain ⟨⟨m, operator, rfl⟩, -⟩ := h
    rw [outline_binary]
    exact Form.behind_operator operator _
  | ternary c d e a =>
    rw [outline_ternary]
    obtain ⟨t, -, word⟩ | ⟨-, cs, opens⟩ := h.1.exists_front
    · exact Form.behind_word word _
    · rw [opens, List.cons_append, Form.ofChars, Form.behind_parenthesis]
      rfl
  | stray => exact h.elim

/-- An operator is known from its spelling. -/
theorem spelling_append_inj (hm : m ∈ Mark.prefixed) (hk : k ∈ Mark.prefixed)
    (same : m.spelling.toList ++ ' ' :: r = k.spelling.toList ++ ' ' :: s) : m = k ∧ r = s := by
  have inside (m : Mark) (hm : m ∈ Mark.prefixed) :
      ∀ c ∈ m.spelling.toList, decide (c ≠ ' ') = true := by
    apply List.all_eq_true.mp
    revert hm
    cases m <;> decide
  have stops (r : List Char) : ∀ c ∈ (' ' :: r).head?, decide (c ≠ ' ') = false := by
    rintro _ ⟨⟩
    rfl
  have front := congrArg (List.takeWhile (· ≠ ' ')) same
  rw [Piece.takeWhile_append_stop (inside m hm) (stops r),
    Piece.takeWhile_append_stop (inside k hk) (stops s)] at front
  rw [front] at same
  have once : ∀ m ∈ Mark.prefixed, ∀ k ∈ Mark.prefixed, m.spelling = k.spelling → m = k := by
    decide
  exact ⟨once m hm k hk (String.toList_injective front),
    (List.cons.inj (List.append_cancel_left same)).2⟩

/-- Names and values are told apart by their outlines. -/
theorem leaf_append_inj [Segmenter] (hd : d.Clear) (he : e.Clear) (hf : d.form = .word)
    (hg : e.form = .word) (hr : Stops r) (hs : Stops s)
    (same : d.outline.toList ++ r = e.outline.toList ++ s) :
    d.bare = e.bare ∧ r = s := by
  have word {d : Expr} (hd : d.Clear) (hf : d.form = .word) :
      ∃ t, d.leaf? = some t ∧ IsWord d.outline.toList := by
    obtain word | ⟨noLeaf, -⟩ := hd.exists_front
    · exact word
    · cases d with
      | stray => exact hd.elim
      | literal | named => cases noLeaf
      | _ => cases hf
  obtain ⟨t, leaf, wd⟩ := word hd hf
  obtain ⟨u, leaf', we⟩ := word he hg
  obtain ⟨texts, rests⟩ := word_append_inj wd we hr hs same
  refine ⟨?_, rests⟩
  rw [outline_of_leaf? hd leaf, outline_of_leaf? he leaf'] at texts
  have lined := (hd.isShown leaf).lined (isLeaf_of_leaf? leaf)
  have lined' := (he.isShown leaf').lined (isLeaf_of_leaf? leaf')
  obtain rfl := lined.eq_of_text lined' (String.toList_injective texts)
  exact bare_of_leaf? leaf leaf'

/-- Trees with one outline are of one sort. -/
theorem form_eq [Segmenter] (hd : d.Clear) (he : e.Clear)
    (same : d.outline.toList ++ r = e.outline.toList ++ s) : d.form = e.form := by
  rw [← ofChars_outline hd r, same, ofChars_outline he s]

theorem stops_cons {c : Char} (h : isWordChar c = false) (cs : List Char) : Stops (c :: cs) := by
  rintro _ ⟨⟩
  exact h

/-- An outline determines its tree, and what stands behind it unless that goes on with a word. -/
theorem outline_append_inj [Segmenter] (hd : d.Clear) (he : e.Clear) (hr : Stops r) (hs : Stops s)
    (same : d.outline.toList ++ r = e.outline.toList ++ s) : d.bare = e.bare ∧ r = s := by
  have blank (cs : List Char) : Stops (' ' :: cs) := stops_cons rfl cs
  have close (cs : List Char) : Stops (')' :: cs) := stops_cons rfl cs
  induction d generalizing e r s with
  | literal | named => exact leaf_append_inj hd he rfl (form_eq hd he same).symm hr hs same
  | grouping d a ih =>
    have forms := form_eq hd he same
    cases e with
    | grouping e b =>
      replace he : e.Clear := he
      rw [outline_grouping, outline_grouping] at same
      have inner := List.append_cancel_left (List.cons.inj same).2
      obtain ⟨bodies, rests⟩ := ih hd he (close r) (close s) (List.cons.inj inner).2
      exact ⟨by rw [bare, bare, bodies], (List.cons.inj rests).2⟩
    | _ => cases forms
  | unary o d a ih =>
    have forms := form_eq hd he same
    obtain ⟨⟨m, hm, rfl⟩, hd⟩ := hd
    cases e with
    | unary p e b =>
      obtain ⟨⟨k, hk, rfl⟩, he⟩ := he
      rw [outline_unary, outline_unary] at same
      obtain ⟨rfl, inner⟩ := spelling_append_inj hm hk (List.cons.inj same).2
      obtain ⟨operands, rests⟩ := ih hd he (close r) (close s) inner
      exact ⟨by rw [bare, bare, operands], (List.cons.inj rests).2⟩
    | binary e p g b =>
      -- One outline ends behind its operand, where the other one goes on.
      obtain ⟨⟨k, hk, rfl⟩, he, hg⟩ := he
      rw [outline_unary, outline_binary] at same
      obtain ⟨rfl, inner⟩ := spelling_append_inj hm hk (List.cons.inj same).2
      obtain ⟨-, rests⟩ := ih hd he (close r) (blank _) inner
      cases rests
    | _ => cases forms
  | binary d o f a left right =>
    have forms := form_eq hd he same
    obtain ⟨⟨m, hm, rfl⟩, hd, hf⟩ := hd
    cases e with
    | unary p e b =>
      obtain ⟨⟨k, hk, rfl⟩, he⟩ := he
      rw [outline_binary, outline_unary] at same
      obtain ⟨rfl, inner⟩ := spelling_append_inj hm hk (List.cons.inj same).2
      obtain ⟨-, rests⟩ := left hd he (blank _) (close s) inner
      cases rests
    | binary e p g b =>
      obtain ⟨⟨k, hk, rfl⟩, he, hg⟩ := he
      rw [outline_binary, outline_binary] at same
      obtain ⟨rfl, inner⟩ := spelling_append_inj hm hk (List.cons.inj same).2
      obtain ⟨lefts, inner⟩ := left hd he (blank _) (blank _) inner
      obtain ⟨rights, rests⟩ := right hf hg (close r) (close s) (List.cons.inj inner).2
      exact ⟨by rw [bare, bare, lefts, rights], (List.cons.inj rests).2⟩
    | _ => cases forms
  | ternary c d f a condition whenTrue whenFalse =>
    have forms := form_eq hd he same
    obtain ⟨hc, hd, hf⟩ := hd
    cases e with
    | ternary x e g b =>
      obtain ⟨hx, he, hg⟩ := he
      rw [outline_ternary, outline_ternary] at same
      obtain ⟨conditions, inner⟩ := condition hc hx (blank _) (blank _) (List.cons.inj same).2
      obtain ⟨trues, inner⟩ := whenTrue hd he (blank _) (blank _) (by simpa using inner)
      obtain ⟨falses, rests⟩ := whenFalse hf hg (close r) (close s) (by simpa using inner)
      exact ⟨by rw [bare, bare, conditions, trues, falses], (List.cons.inj rests).2⟩
    | _ => cases forms
  | stray => exact hd.elim

/-- So does an outline as a whole. -/
theorem outline_inj [Segmenter] (hd : d.Clear) (he : e.Clear) (same : d.outline = e.outline) :
    d.bare = e.bare :=
  (outline_append_inj (r := []) (s := []) hd he nofun nofun (by rw [same])).1

end Chars

end Expr

/-! ## Statements -/

namespace Stmt

/-- The parser returns the statement for a list of scanned tokens. -/
def IsParsed [Segmenter] (st : Stmt) : Prop :=
  ∃ tokens limit p, (∀ t ∈ tokens, ∃ text, t ∈ (scanText text).tokens) ∧
    parse tokens limit = .ok p ∧ st ∈ p.statements

variable {st st' : Stmt}

/-- A statement that was parsed has the right shape, and its tokens were scanned. -/
theorem IsParsed.shaped_and_scanned [Segmenter] (h : st.IsParsed) :
    st.Shaped ∧ ∀ t ∈ st.yield, ∃ text, t ∈ (scanText text).tokens.map PlacedToken.token := by
  obtain ⟨tokens, limit, p, scanned, parsed, mem⟩ := h
  have placed : ∀ t ∈ tokens, t.span.isSome := by
    intro t ht
    obtain ⟨text, ht⟩ := scanned t ht
    exact span_isSome_of_mem_scan ht
  have ends : ∃ t ∈ tokens, t.isEnd := by
    by_contra none
    push Not at none
    rw [parse_of_noEnd limit placed fun t ht => by simpa using none t ht] at parsed
    cases parsed
  obtain ⟨q, parsed', derived⟩ := exists_parse limit placed ends
  obtain rfl := Except.ok.inj (parsed.symm.trans parsed')
  obtain ⟨ts, derives, among⟩ := derived st mem
  refine ⟨derives.shaped, fun t ht => ?_⟩
  rw [← derives.map_token] at ht
  obtain ⟨u, hu, rfl⟩ := List.mem_map.mp ht
  obtain ⟨text, hu⟩ := scanned u (among u hu).1
  exact ⟨text, List.mem_map_of_mem hu⟩

/-- A statement whose tokens are clear in its outline. -/
def Clear [Segmenter] : Stmt → Prop
  | expression e _ | print e _ => e.Clear
  | declaration n i _ => (Token.identifier n).IsShown ∧ ∀ e ∈ i, e.Clear
  | stray _ => False

theorem clear_of_shaped [Segmenter] (h : st.Shaped) (shown : ∀ t ∈ st.yield, t.IsShown) :
    st.Clear := by
  cases st with
  | expression e a =>
    exact Expr.clear_of_shaped (h e rfl) fun t mem => shown t (by simp [yield, mem])
  | print e a =>
    exact Expr.clear_of_shaped (h e rfl) fun t mem => shown t (by simp [yield, mem])
  | declaration n i a =>
    cases i with
    | none => exact ⟨shown _ (by simp [yield]), by simp⟩
    | some e =>
      refine ⟨shown _ (by simp [yield]), ?_⟩
      rintro _ ⟨⟩
      exact Expr.clear_of_shaped (h e rfl) fun t mem => shown t (by simp [yield, mem])
  | stray => exact h.elim

/-- What an outline shows of a first value, behind the name of the variable. -/
def tail : Option Expr → List Char
  | none => []
  | some e => ' ' :: '=' :: ' ' :: e.outline.toList

theorem stops_tail (i : Option Expr) : Stops (tail i) := by
  cases i with
  | none => nofun
  | some e => exact Expr.stops_cons rfl _

theorem outline_expression (e : Expr) (a : Option Span) : (expression e a).outline.toList =
    "Expression Statement: ".toList ++ e.outline.toList :=
  String.toList_append ..

theorem outline_print (e : Expr) (a : Option Span) : (print e a).outline.toList =
    "Print Statement: ".toList ++ e.outline.toList :=
  String.toList_append ..

theorem outline_declaration (n : String) (i : Option Expr) (a : Option Span) :
    (declaration n i a).outline.toList =
      "Variable Statement: ".toList ++ (n.toList ++ tail i) := by
  cases i with
  | none =>
    rw [tail, List.append_nil]
    exact String.toList_append ..
  | some e =>
    have parts : (declaration n (some e) a).outline =
      "Variable Statement: " ++ n ++ " = " ++ e.outline := rfl
    simp [parts, tail]

/-- The first letter of an outline tells the sort of the statement. -/
theorem head?_outline [Segmenter] (h : st.Clear) : st.outline.toList.head? = some (match st with
    | expression _ _ => 'E'
    | print _ _ => 'P'
    | _ => 'V') := by
  cases st with
  | expression e a =>
    rw [outline_expression]
    rfl
  | print e a =>
    rw [outline_print]
    rfl
  | declaration n i a =>
    rw [outline_declaration]
    rfl
  | stray => exact h.elim

/-- The outline of a statement determines it. -/
theorem outline_inj [Segmenter] (h : st.Clear) (h' : st'.Clear) (same : st.outline = st'.outline) :
    st.bare = st'.bare := by
  have chars := congrArg String.toList same
  have first := head?_outline h
  rw [same, head?_outline h'] at first
  cases st with
  | expression d a =>
    cases st' with
    | expression e b =>
      rw [outline_expression, outline_expression] at chars
      have bodies := String.toList_injective (List.append_cancel_left chars)
      rw [bare, bare, Expr.outline_inj h h' bodies]
    | stray => exact h'.elim
    | _ => cases first
  | print d a =>
    cases st' with
    | print e b =>
      rw [outline_print, outline_print] at chars
      have bodies := String.toList_injective (List.append_cancel_left chars)
      rw [bare, bare, Expr.outline_inj h h' bodies]
    | stray => exact h'.elim
    | _ => cases first
  | declaration n i a =>
    cases st' with
    | declaration m j b =>
      rw [outline_declaration, outline_declaration] at chars
      obtain ⟨names, tails⟩ := word_append_inj (h.1.isWord (.inl rfl)) (h'.1.isWord (.inl rfl))
        (stops_tail i) (stops_tail j) (List.append_cancel_left chars)
      obtain rfl : n = m := String.toList_injective names
      cases i with
      | none =>
        cases j with
        | none => rfl
        | some e => cases tails
      | some d =>
        cases j with
        | none => cases tails
        | some e =>
          have bodies : d.outline = e.outline :=
            String.toList_injective (by simpa [tail] using tails)
          rw [bare, bare, Option.map_some, Option.map_some,
            Expr.outline_inj (h.2 d rfl) (h'.2 e rfl) bodies]
    | stray => exact h'.elim
    | _ => cases first
  | stray => exact h.elim

end Stmt

/-- What was parsed is known from its outline, if all tokens of it are clear: two statements with
one outline differ in their spans only. -/
theorem bare_eq_of_outline [Stack] [Segmenter] {st st' : Stmt} (parsed : st.IsParsed)
    (parsed' : st'.IsParsed) (clear : ∀ t ∈ st.yield, t.IsClear)
    (clear' : ∀ t ∈ st'.yield, t.IsClear) {text : String}
    (shown : st.outline? = .ok text) (shown' : st'.outline? = .ok text) : st.bare = st'.bare := by
  have outline {st : Stmt} (shown : st.outline? = .ok text) : st.outline = text := by
    unfold Stmt.outline? at shown
    split at shown
    · cases shown
    · exact Except.ok.inj shown
  obtain ⟨shaped, scanned⟩ := parsed.shaped_and_scanned
  obtain ⟨shaped', scanned'⟩ := parsed'.shaped_and_scanned
  apply Stmt.outline_inj
  · exact Stmt.clear_of_shaped shaped fun t mem => ⟨clear t mem, scanned t mem⟩
  · exact Stmt.clear_of_shaped shaped' fun t mem => ⟨clear' t mem, scanned' t mem⟩
  · rw [outline shown, outline shown']

/-- Two ways to space a choice whose condition is called like a group, with a group and both sorts
of minus in it. -/
theorem bare_eq_of_outline_group : ∃ st st' : Stmt,
    (parse (scanText "print group ? -a - 1 : (b);").tokens 48).map (·.statements) = .ok [st] ∧
    (parse (scanText "print group?-a-1:(b);").tokens 48).map (·.statements) = .ok [st'] ∧
    st.outline? = .ok "Print Statement: (group ? (- (- a) 1) : (group b))" ∧
    st'.outline? = .ok "Print Statement: (group ? (- (- a) 1) : (group b))" ∧
    st.span ≠ st'.span ∧ st.bare = st'.bare := by
  let tokens : List Token := [.mark .printWord, .identifier "group", .mark .question, .mark .minus,
    .identifier "a", .mark .minus, .number 1, .mark .colon, .mark .leftParen, .identifier "b",
    .mark .rightParen, .mark .semicolon]
  let shown := "Print Statement: (group ? (- (- a) 1) : (group b))"
  have clear : ∀ t ∈ tokens, t.IsClear := by
    have letters (n : String) (h : n.toList.all (fun c => c.isAlphanum) = true) :
        (Token.identifier n).IsClear :=
      fun c mem => .inl (List.all_eq_true.mp h c mem)
    have one : (Token.number 1).IsClear := by
      show (1 : Float).isFinite = true
      decide +kernel
    simp only [tokens, List.forall_mem_cons]
    exact ⟨trivial, letters _ (by decide), trivial, trivial, letters _ (by decide), trivial, one,
      trivial, trivial, letters _ (by decide), trivial, trivial, nofun⟩
  have read (text : String) (span : Option Span)
      (seen : (parse (scanText text).tokens 48).map (fun p => p.statements.map fun st =>
        (st.yield, st.outline?, st.span)) = .ok [(tokens, .ok shown, span)]) :
      ∃ st : Stmt, (parse (scanText text).tokens 48).map (·.statements) = .ok [st] ∧
        st.IsParsed ∧ (∀ t ∈ st.yield, t.IsClear) ∧ st.outline? = .ok shown ∧ st.span = span := by
    cases parsed : parse (scanText text).tokens 48 with
    | error f => rw [parsed] at seen; cases seen
    | ok p =>
      rw [parsed] at seen
      obtain ⟨st, only, facts⟩ := List.map_eq_singleton_iff.mp (Except.ok.inj seen)
      obtain ⟨yield, outline, place⟩ : st.yield = tokens ∧ st.outline? = .ok shown ∧
        st.span = span := by simpa using facts
      have mem : st ∈ p.statements := only ▸ List.mem_singleton_self st
      exact ⟨st, congrArg Except.ok only, ⟨_, 48, p, fun t mem => ⟨text, mem⟩, parsed, mem⟩,
        yield ▸ clear, outline, place⟩
  obtain ⟨st, single, parsed, clear, outline, span⟩ :=
    read "print group ? -a - 1 : (b);" (some ⟨⟨1, 1, 0⟩, ⟨1, 28, 27⟩⟩) (by decide +kernel)
  obtain ⟨st', single', parsed', clear', outline', span'⟩ :=
    read "print group?-a-1:(b);" (some ⟨⟨1, 1, 0⟩, ⟨1, 22, 21⟩⟩) (by decide +kernel)
  refine ⟨st, st', single, single', outline, outline', ?_,
    bare_eq_of_outline parsed parsed' clear clear' outline outline'⟩
  rw [span, span']
  decide

end Lox
