import Lox.Proofs.Syntax.Level
import Lox.Proofs.Syntax.Running
import Mathlib.Data.List.Forall2

/-!
# Derivations

The grammar as a relation between trees and rows of tokens, spans included. A derivation says which
level an expression was read at and how many further levels may still be opened inside it.

* `Derives`, `StmtDerives`: the tokens are an expression, or a statement, that is read as the tree.
* `Derives.shaped`, `Derives.map_token`, `Derives.nesting_le`: what is derived has the right shape,
  its tokens are its yield, and it opens no more levels than allowed.
* `exists_derives`: every tree of the right shape is derived from placed tokens that spell it.
-/

namespace Lox

open Grammar

namespace Level

/-- The operators that a level chains over the next one. -/
def operators : Level → List Mark
  | equality => equalityOperators
  | comparison => comparisonOperators
  | term => termOperators
  | factor => factorOperators
  | _ => []

/-- The next level, which the operands of a chain belong to. -/
def tighter : Level → Level
  | choice => equality
  | equality => comparison
  | comparison => term
  | term => factor
  | factor => unary
  | unary | primary => primary

theorem mem_operators_iff {l : Level} {m : Mark} :
    m ∈ l.operators ↔ ofOperator? (.mark m) = some l := by
  cases l <;> cases m <;> decide

theorem rank_tighter_le (l : Level) : l.rank ≤ l.tighter.rank := by
  cases l <;> decide

theorem rank_lt_iff {l : Level} (h : l ≠ .primary) (k : Level) :
    l.rank < k.rank ↔ l.tighter.rank ≤ k.rank := by
  cases l <;> cases k <;> first | exact absurd rfl h | decide

end Level

/-- The marks that an expression may hold. -/
def Mark.inExpressions : List Mark :=
  [.leftParen, .rightParen, .minus, .plus, .slash, .star, .question, .colon, .bang, .bangEqual,
    .equalEqual, .greater, .greaterEqual, .less, .lessEqual, .falseWord, .nilWord, .trueWord]

/-- The value that a token stands for, if it is a literal. -/
def Token.literal? : Token → Option Value
  | .mark .falseWord => some (.boolean false)
  | .mark .trueWord => some (.boolean true)
  | .mark .nilWord => some .nil
  | .number x => some (.number x)
  | .string s => some (.string s)
  | _ => none

theorem Token.literal?_eq_some {t : Token} {v : Value} : t.literal? = some v ↔ t = v.token := by
  constructor
  · intro h
    unfold literal? at h
    split at h <;> cases h <;> rfl
  · rintro rfl
    cases v with
    | boolean b => cases b <;> rfl
    | _ => rfl

/-- The tokens are an expression of the level, or a tighter one, that is read as the tree. At most
`room` levels are opened inside it. -/
inductive Derives : Level → Nat → Expr → List PlacedToken → Prop where
  | literal {room : Nat} {t : PlacedToken} {v : Value} :
    t.token.literal? = some v → Derives .primary room (.literal v t.span) [t]
  | named {room : Nat} (name : String) (a : Option Span) :
    Derives .primary room (.named name a) [⟨.identifier name, a⟩]
  | grouping {room : Nat} {e : Expr} {ts : List PlacedToken} (a b : Span) :
    Derives .choice room e ts →
    Derives .primary (room + 1) (.grouping e (some (a.join b)))
      (⟨.mark .leftParen, some a⟩ :: ts ++ [⟨.mark .rightParen, some b⟩])
  | unary {room : Nat} {o : Mark} {e : Expr} {ts : List PlacedToken} {a b : Span} :
    o ∈ unaryOperators → Derives .unary room e ts → e.span = some b →
    Derives .unary (room + 1) (.unary (.mark o) e (some (a.join b))) (⟨.mark o, some a⟩ :: ts)
  | binary {l : Level} {room : Nat} {o : Mark} {left right : Expr} {ts us : List PlacedToken}
      {t : PlacedToken} {a b : Span} :
    o ∈ l.operators → Derives l room left ts → t.token = .mark o →
    Derives l.tighter room right us → left.span = some a → right.span = some b →
    Derives l room (.binary left (.mark o) right (some (a.join b))) (ts ++ t :: us)
  | ternary {room : Nat} {c t f : Expr} {ts us vs : List PlacedToken} {mark colon : PlacedToken}
      {a b : Span} :
    Derives .choice room c ts → mark.token = .mark .question → Derives .equality room t us →
    colon.token = .mark .colon → Derives .equality room f vs → c.span = some a → f.span = some b →
    Derives .choice room (.ternary c t f (some (a.join b))) (ts ++ mark :: (us ++ colon :: vs))
  | lift {l : Level} {room : Nat} {e : Expr} {ts : List PlacedToken} :
    Derives l.tighter room e ts → Derives l room e ts

namespace Derives

variable {l : Level} {room : Nat} {e : Expr} {ts : List PlacedToken}

/-- An expression has tokens. -/
theorem ne_nil (h : Derives l room e ts) : ts ≠ [] := by
  induction h <;> simp_all

/-- The tokens of an expression are its yield. -/
theorem map_token (h : Derives l room e ts) : ts.map PlacedToken.token = e.yield := by
  induction h with
  | literal h => simp [Expr.yield, Token.literal?_eq_some.1 h]
  | named => rfl
  | grouping a b _ ih => simp [Expr.yield, ih]
  | unary _ _ _ ih => simp [Expr.yield, TokenKind.tokens, ih]
  | binary _ _ ht _ _ _ ihl ihr => simp [Expr.yield, TokenKind.tokens, ht, ihl, ihr]
  | ternary _ hq _ hc _ _ _ ihc iht ihf => simp [Expr.yield, hq, hc, ihc, iht, ihf]
  | lift _ ih => exact ih

/-- No more levels are opened than there is room for. -/
theorem nesting_le (h : Derives l room e ts) : e.nesting ≤ room := by
  induction h with
  | literal | named => simp [Expr.nesting]
  | grouping _ _ _ ih | unary _ _ _ ih => exact Nat.succ_le_succ ih
  | binary _ _ _ _ _ _ ihl ihr => exact Nat.max_le.2 ⟨ihl, ihr⟩
  | ternary _ _ _ _ _ _ _ ihc iht ihf => exact Nat.max_le.2 ⟨ihc, Nat.max_le.2 ⟨iht, ihf⟩⟩
  | lift _ ih => exact ih

/-- What is derived at a level is of that level or a tighter one. -/
theorem rank_le (h : Derives l room e ts) : l.rank ≤ e.level.rank := by
  induction h with
  | literal | named | grouping | unary => exact Nat.le_refl _
  | binary ho => simp [Expr.level, Level.mem_operators_iff.1 ho]
  | ternary => exact Nat.le_refl _
  | @lift l _ _ _ _ ih => exact Nat.le_trans l.rank_tighter_le ih

/-- What is derived has the right shape. -/
theorem shaped (h : Derives l room e ts) : e.Shaped := by
  induction h with
  | literal | named => trivial
  | grouping _ _ _ ih => exact ih
  | @unary _ o _ _ _ _ ho h _ ih =>
    refine ⟨?_, h.rank_le, ih⟩
    simpa [unaryOperators] using ho
  | @binary l _ o _ _ _ _ _ _ _ ho hl _ hr _ _ ihl ihr =>
    have hk := Level.mem_operators_iff.1 ho
    refine ⟨⟨l, hk, hl.rank_le, ?_⟩, ihl, ihr⟩
    refine (Level.rank_lt_iff ?_ _).2 hr.rank_le
    rintro rfl
    simp [Level.operators] at ho
  | ternary _ _ ht _ hf _ _ ihc iht ihf => exact ⟨ht.rank_le, hf.rank_le, ihc, iht, ihf⟩
  | lift _ ih => exact ih

/-- The marks among the tokens of an expression. -/
theorem mem_inExpressions (h : Derives l room e ts) :
    ∀ t ∈ ts, ∀ m, t.token = .mark m → m ∈ Mark.inExpressions := by
  induction h with
  | @literal _ t v h =>
    obtain ⟨token, span⟩ := t
    rintro _ (_ | ⟨_, ⟨⟩⟩) m rfl
    revert h
    cases m <;> simp [Token.literal?, Mark.inExpressions]
  | named =>
    rintro _ (_ | ⟨_, ⟨⟩⟩) m ⟨⟩
  | grouping a b _ ih =>
    intro t ht m hm
    simp only [List.cons_append, List.mem_cons, List.mem_append, List.not_mem_nil, or_false] at ht
    rcases ht with rfl | ht | rfl
    · cases hm
      decide
    · exact ih t ht m hm
    · cases hm
      decide
  | @unary _ o _ _ _ _ ho _ _ ih =>
    intro t ht m hm
    rcases List.mem_cons.1 ht with rfl | ht
    · cases hm
      revert ho
      cases o <;> decide
    · exact ih t ht m hm
  | @binary l _ o _ _ _ _ u _ _ ho _ hu _ _ _ ihl ihr =>
    intro t ht m hm
    rcases List.mem_append.1 ht with ht | ht
    · exact ihl t ht m hm
    rcases List.mem_cons.1 ht with rfl | ht
    · cases hu.symm.trans hm
      revert ho
      cases l <;> cases o <;> decide
    · exact ihr t ht m hm
  | ternary _ hq _ hc _ _ _ ihc iht ihf =>
    intro t ht m hm
    simp only [List.mem_append, List.mem_cons] at ht
    rcases ht with ht | rfl | ht | rfl | ht
    · exact ihc t ht m hm
    · cases hq.symm.trans hm
      decide
    · exact iht t ht m hm
    · cases hc.symm.trans hm
      decide
    · exact ihf t ht m hm
  | lift _ ih => exact ih

/-- No token of an expression ends a statement or the source. -/
theorem within (h : Derives l room e ts) :
    ∀ t ∈ ts, t.isSemicolon = false ∧ t.isEnd = false := by
  intro t ht
  refine ⟨Bool.eq_false_iff.2 fun hs => ?_, Bool.eq_false_iff.2 fun he => ?_⟩
  · exact absurd (h.mem_inExpressions t ht _ (PlacedToken.isSemicolon_iff.1 hs)) (by decide)
  · exact absurd (h.mem_inExpressions t ht _ (PlacedToken.isEnd_iff.1 he)) (by decide)

/-- An expression read from placed tokens has a place. -/
theorem span_isSome (h : Derives l room e ts) (hts : ∀ t ∈ ts, t.span.isSome) :
    ∃ a, e.span = some a := by
  induction h with
  | literal | named => exact Option.isSome_iff_exists.1 (hts _ (List.mem_singleton_self _))
  | grouping | unary | binary | ternary => exact ⟨_, rfl⟩
  | lift _ ih => exact ih hts

/-- An expression of a tighter level is one of every looser level. -/
theorem of_rank_le {l k : Level} (h : Derives k room e ts) (hl : l.rank ≤ k.rank) :
    Derives l room e ts := by
  rcases Nat.eq_or_lt_of_le hl with heq | hlt
  · have : l = k := by revert heq; cases l <;> cases k <;> decide
    exact this ▸ h
  · have hp : l ≠ .primary := by rintro rfl; revert hlt; cases k <;> decide
    have hk := (Level.rank_lt_iff hp k).1 hlt
    have : l.rank < l.tighter.rank := (Level.rank_lt_iff hp _).2 (Nat.le_refl _)
    exact .lift (of_rank_le h hk)
termination_by 6 - l.rank
decreasing_by
  revert this
  cases l <;> decide

end Derives

/-! ## Every shape is derived -/

/-- The tokens spell the row, numbers as far as `same` says so. -/
abbrev Spells (same : Float → Float → Prop) : List PlacedToken → List Token → Prop :=
  List.Forall₂ fun t u => Token.Alike same t.token u

section Spells

variable {same : Float → Float → Prop} {ts : List PlacedToken}

theorem Spells.split {us vs : List Token} (h : Spells same ts (us ++ vs)) :
    ∃ ts₁ ts₂, ts = ts₁ ++ ts₂ ∧ Spells same ts₁ us ∧ Spells same ts₂ vs :=
  ⟨_, _, (List.take_append_drop us.length ts).symm, List.forall₂_take_append _ _ _ h,
    List.forall₂_drop_append _ _ _ h⟩

theorem Spells.cons {u : Token} {us : List Token} (h : Spells same ts (u :: us)) :
    ∃ t ts', ts = t :: ts' ∧ Token.Alike same t.token u ∧ Spells same ts' us := by
  cases h with
  | cons ht h => exact ⟨_, _, rfl, ht, h⟩

theorem Token.Alike.eq_mark {t : Token} {m : Mark} (h : t.Alike same (.mark m)) : t = .mark m := by
  cases h
  rfl

theorem Token.Alike.literal? {t : Token} {v : Value} (h : t.Alike same v.token) :
    ∃ w, t.literal? = some w ∧ w.Alike same v := by
  cases v with
  | number x =>
    cases h with
    | number h => exact ⟨_, rfl, .number h⟩
    | other h => exact absurd rfl h
  | string s =>
    cases h
    exact ⟨_, rfl, .string s⟩
  | boolean b =>
    refine ⟨_, Token.literal?_eq_some.2 (?_ : t = (Value.boolean b).token), .boolean b⟩
    cases b <;> exact h.eq_mark
  | nil => exact ⟨.nil, Token.literal?_eq_some.2 h.eq_mark, .nil⟩

/-- Every tree of the right shape is derived from placed tokens that spell it. -/
theorem exists_derives {e : Expr} {l : Level} {room : Nat} (hs : e.Shaped)
    (hl : l.rank ≤ e.level.rank) (hn : e.nesting ≤ room) (hts : ∀ t ∈ ts, t.span.isSome)
    (h : Spells same ts e.yield) : ∃ e', Derives l room e' ts ∧ e'.Alike same e := by
  induction e generalizing l room ts with
  | literal v a =>
    obtain ⟨t, ts', rfl, ht, h'⟩ := Spells.cons h
    cases h'
    obtain ⟨w, hw, hv⟩ := ht.literal?
    exact ⟨_, (Derives.literal hw).of_rank_le hl, .literal _ _ hv⟩
  | named n a =>
    obtain ⟨⟨token, b⟩, ts', rfl, ht, h'⟩ := Spells.cons h
    cases h'
    cases ht
    exact ⟨_, (Derives.named n b).of_rank_le hl, .named n _ _⟩
  | grouping e a ih =>
    obtain ⟨⟨_, b⟩, ts', rfl, ht, h'⟩ := Spells.cons h
    obtain ⟨us, vs, rfl, he, hv⟩ := h'.split
    obtain ⟨⟨_, c⟩, vs', rfl, ht', h''⟩ := hv.cons
    cases h''
    cases ht.eq_mark
    cases ht'.eq_mark
    obtain ⟨b, rfl⟩ := Option.isSome_iff_exists.1 (hts _ (List.mem_cons_self ..))
    obtain ⟨c, rfl⟩ := Option.isSome_iff_exists.1 (hts ⟨.mark .rightParen, c⟩ (by simp))
    obtain ⟨room, rfl⟩ := Nat.exists_eq_add_one_of_ne_zero (Nat.ne_zero_of_lt hn)
    obtain ⟨e', he', ha⟩ := ih (l := .choice) hs (Nat.zero_le _) (Nat.le_of_succ_le_succ hn)
      (fun t ht => hts t (by simp [ht])) he
    exact ⟨_, (Derives.grouping b c he').of_rank_le hl, .grouping _ _ ha⟩
  | unary o e a ih =>
    obtain ⟨ho, he, hs⟩ := hs
    obtain ⟨m, hm, rfl⟩ : ∃ m ∈ unaryOperators, o = .mark m := by
      rcases ho with rfl | rfl
      · exact ⟨.bang, by decide, rfl⟩
      · exact ⟨.minus, by decide, rfl⟩
    obtain ⟨⟨_, b⟩, ts', rfl, ht, h'⟩ := Spells.cons h
    cases ht.eq_mark
    obtain ⟨b, rfl⟩ := Option.isSome_iff_exists.1 (hts _ (List.mem_cons_self ..))
    obtain ⟨room, rfl⟩ := Nat.exists_eq_add_one_of_ne_zero (Nat.ne_zero_of_lt hn)
    have hts' : ∀ t ∈ ts', t.span.isSome := fun t ht => hts t (List.mem_cons_of_mem _ ht)
    obtain ⟨e', he', ha⟩ := ih (l := .unary) hs he (Nat.le_of_succ_le_succ hn) hts' h'
    obtain ⟨c, hc⟩ := he'.span_isSome hts'
    exact ⟨_, (Derives.unary hm he' hc).of_rank_le hl, .unary _ _ _ ha⟩
  | binary l' o r a ihl ihr =>
    obtain ⟨⟨k, hk, hkl, hkr⟩, hsl, hsr⟩ := hs
    obtain ⟨m, rfl⟩ : ∃ m, o = .mark m := by cases o <;> simp_all [Level.ofOperator?]
    have hp : k ≠ .primary := by rintro rfl; revert hkr; cases r.level <;> decide
    obtain ⟨us, vs, rfl, hu, hv⟩ := Spells.split (List.append_assoc .. ▸ h :
      Spells same ts (l'.yield ++ (TokenKind.tokens (.mark m) ++ r.yield)))
    obtain ⟨t, ws, rfl, ht, hw⟩ := hv.cons
    have hus : ∀ u ∈ us, u.span.isSome := fun u hu => hts u (List.mem_append_left _ hu)
    have hws : ∀ u ∈ ws, u.span.isSome := fun u hu => hts u (by simp [hu])
    obtain ⟨left, hleft, hal⟩ := ihl hsl hkl (Nat.max_le.1 hn).1 hus hu
    obtain ⟨right, hright, har⟩ := ihr hsr ((Level.rank_lt_iff hp _).1 hkr) (Nat.max_le.1 hn).2
      hws hw
    obtain ⟨b, hb⟩ := hleft.span_isSome hus
    obtain ⟨c, hc⟩ := hright.span_isSome hws
    have hlk : l.rank ≤ k.rank := by simpa [Expr.level, hk] using hl
    exact ⟨_, (Derives.binary (Level.mem_operators_iff.2 hk) hleft ht.eq_mark hright hb
      hc).of_rank_le hlk, .binary _ _ _ hal har⟩
  | ternary c t f a ihc iht ihf =>
    obtain ⟨hlt, hlf, hsc, hst, hsf⟩ := hs
    obtain ⟨us, vs, rfl, hu, hv⟩ := Spells.split (List.append_assoc .. ▸ h :
      Spells same ts (c.yield ++ (.mark .question :: t.yield ++ .mark .colon :: f.yield)))
    obtain ⟨q, vs', rfl, hq, hv⟩ := hv.cons
    obtain ⟨ws, xs, rfl, hw, hx⟩ := hv.split
    obtain ⟨k, ys, rfl, hk, hy⟩ := hx.cons
    have hus : ∀ u ∈ us, u.span.isSome := fun u hu => hts u (by simp [hu])
    have hws : ∀ u ∈ ws, u.span.isSome := fun u hu => hts u (by simp [hu])
    have hys : ∀ u ∈ ys, u.span.isSome := fun u hu => hts u (by simp [hu])
    obtain ⟨hnc, hn⟩ := Nat.max_le.1 hn
    obtain ⟨c', hc', hac⟩ := ihc (l := .choice) hsc (Nat.zero_le _) hnc hus hu
    obtain ⟨t', ht', hat⟩ := iht (l := .equality) hst hlt (Nat.max_le.1 hn).1 hws hw
    obtain ⟨f', hf', haf⟩ := ihf (l := .equality) hsf hlf (Nat.max_le.1 hn).2 hys hy
    obtain ⟨b, hb⟩ := hc'.span_isSome hus
    obtain ⟨d, hd⟩ := hf'.span_isSome hys
    exact ⟨_, (Derives.ternary hc' hq.eq_mark ht' hk.eq_mark hf' hb hd).of_rank_le hl,
      .ternary _ _ hac hat haf⟩
  | stray k => exact hs.elim

end Spells

/-! ## Statements -/

/-- The tokens are a statement that is read as the tree. An expression in it, the level of the
expression itself included, opens at most `levels` levels. -/
inductive StmtDerives : Nat → Stmt → List PlacedToken → Prop where
  | expression {room : Nat} {e : Expr} {ts : List PlacedToken} {stop : PlacedToken} {a b : Span} :
    Derives .choice room e ts → stop.token = .mark .semicolon → e.span = some a →
    stop.span = some b →
    StmtDerives (room + 1) (.expression e (some (a.join b))) (ts ++ [stop])
  | print {room : Nat} {e : Expr} {ts : List PlacedToken} {keyword stop : PlacedToken}
      {a b : Span} :
    keyword.token = .mark .printWord → Derives .choice room e ts →
    stop.token = .mark .semicolon → keyword.span = some a → stop.span = some b →
    StmtDerives (room + 1) (.print e (some (a.join b))) (keyword :: (ts ++ [stop]))
  | bare {levels : Nat} {keyword stop : PlacedToken} {a b : Span} (name : String)
      (c : Option Span) :
    keyword.token = .mark .varWord → stop.token = .mark .semicolon → keyword.span = some a →
    stop.span = some b →
    StmtDerives levels (.declaration name none (some (a.join b)))
      [keyword, ⟨.identifier name, c⟩, stop]
  | declaration {room : Nat} {e : Expr} {ts : List PlacedToken} {keyword equal stop : PlacedToken}
      {a b : Span} (name : String) (c : Option Span) :
    keyword.token = .mark .varWord → equal.token = .mark .equal → Derives .choice room e ts →
    stop.token = .mark .semicolon → keyword.span = some a → stop.span = some b →
    StmtDerives (room + 1) (.declaration name (some e) (some (a.join b)))
      (keyword :: ⟨.identifier name, c⟩ :: equal :: (ts ++ [stop]))

namespace StmtDerives

variable {levels : Nat} {st : Stmt} {ts : List PlacedToken}

/-- The tokens of a statement are its yield. -/
theorem map_token (h : StmtDerives levels st ts) : ts.map PlacedToken.token = st.yield := by
  cases h with
  | expression h ht => simp [Stmt.yield, h.map_token, ht]
  | print hk h ht => simp [Stmt.yield, h.map_token, hk, ht]
  | bare name c hk ht => simp [Stmt.yield, hk, ht]
  | declaration name c hk he h ht => simp [Stmt.yield, h.map_token, hk, he, ht]

/-- A statement has the right shape. -/
theorem shaped (h : StmtDerives levels st ts) : st.Shaped := by
  cases h with
  | expression h => simpa [Stmt.Shaped, Stmt.body?] using h.shaped
  | print _ h => simpa [Stmt.Shaped, Stmt.body?] using h.shaped
  | bare => simp [Stmt.Shaped, Stmt.body?]
  | declaration _ _ _ _ h => simpa [Stmt.Shaped, Stmt.body?] using h.shaped

/-- An expression in a statement opens no more levels than allowed. -/
theorem nesting_lt (h : StmtDerives levels st ts) : ∀ e ∈ st.body?, e.nesting < levels := by
  cases h with
  | expression h => simpa [Stmt.body?] using Nat.lt_succ_of_le h.nesting_le
  | print _ h => simpa [Stmt.body?] using Nat.lt_succ_of_le h.nesting_le
  | bare => simp [Stmt.body?]
  | declaration _ _ _ _ h => simpa [Stmt.body?] using Nat.lt_succ_of_le h.nesting_le

/-- A statement ends in a semicolon and holds no other. -/
theorem eq_concat (h : StmtDerives levels st ts) : ∃ us stop, ts = us ++ [stop] ∧
    stop.isSemicolon = true ∧ ∀ t ∈ us, t.isSemicolon = false := by
  cases h with
  | @expression _ _ us stop _ _ h ht =>
    exact ⟨us, stop, rfl, PlacedToken.isSemicolon_iff.2 ht, fun t hu => (h.within t hu).1⟩
  | @print _ _ us k stop _ _ hk h ht =>
    refine ⟨k :: us, stop, by simp, PlacedToken.isSemicolon_iff.2 ht, ?_⟩
    simpa using ⟨PlacedToken.isSemicolon_of_ne hk (by decide), fun t hu => (h.within t hu).1⟩
  | @bare _ k stop _ _ name c hk ht =>
    refine ⟨[k, ⟨.identifier name, c⟩], stop, by simp, PlacedToken.isSemicolon_iff.2 ht, ?_⟩
    simpa using ⟨PlacedToken.isSemicolon_of_ne hk (by decide), rfl⟩
  | @declaration _ _ us k equal stop _ _ name c hk he h ht =>
    refine ⟨k :: ⟨.identifier name, c⟩ :: equal :: us, stop, by simp,
      PlacedToken.isSemicolon_iff.2 ht, ?_⟩
    simpa using ⟨PlacedToken.isSemicolon_of_ne hk (by decide), rfl,
      PlacedToken.isSemicolon_of_ne he (by decide), fun t hu => (h.within t hu).1⟩

end StmtDerives

/-- An expression and the semicolon behind it. -/
private theorem exists_body {same : Float → Float → Prop} {e : Expr} {levels : Nat}
    {ts : List PlacedToken} (hs : e.Shaped) (hn : e.nesting < levels)
    (hts : ∀ t ∈ ts, t.span.isSome) (h : Spells same ts (e.yield ++ [.mark .semicolon])) :
    ∃ room us stop e' a b, levels = room + 1 ∧ ts = us ++ [stop] ∧ Derives .choice room e' us ∧
      e'.Alike same e ∧ stop.token = .mark .semicolon ∧ e'.span = some a ∧ stop.span = some b := by
  obtain ⟨us, vs, rfl, hu, hv⟩ := h.split
  obtain ⟨stop, ws, rfl, ht, hw⟩ := hv.cons
  cases hw
  obtain ⟨room, rfl⟩ := Nat.exists_eq_add_one_of_ne_zero (Nat.ne_zero_of_lt hn)
  have hus : ∀ u ∈ us, u.span.isSome := fun u hu => hts u (List.mem_append_left _ hu)
  obtain ⟨e', he', ha⟩ := exists_derives (l := .choice) hs (Nat.zero_le _)
    (Nat.le_of_lt_succ hn) hus hu
  obtain ⟨a, hae⟩ := he'.span_isSome hus
  obtain ⟨b, hb⟩ := Option.isSome_iff_exists.1 (hts stop (by simp))
  exact ⟨room, us, stop, e', a, b, rfl, rfl, he', ha, ht.eq_mark, hae, hb⟩

/-- Every statement of the right shape is derived from placed tokens that spell it. -/
theorem exists_stmtDerives {same : Float → Float → Prop} {st : Stmt} {levels : Nat}
    {ts : List PlacedToken} (hs : st.Shaped) (hn : ∀ e ∈ st.body?, e.nesting < levels)
    (hts : ∀ t ∈ ts, t.span.isSome) (h : Spells same ts st.yield) :
    ∃ st', StmtDerives levels st' ts ∧ st'.Alike same st := by
  cases st with
  | expression e a =>
    obtain ⟨room, us, stop, e', a, b, rfl, rfl, he, hae, hstop, ha, hb⟩ :=
      exists_body (hs e rfl) (hn e rfl) hts h
    exact ⟨_, .expression he hstop ha hb, .expression _ _ hae⟩
  | print e a =>
    obtain ⟨k, ts', rfl, hk, h⟩ := Spells.cons h
    have hts' : ∀ t ∈ ts', t.span.isSome := fun t ht => hts t (List.mem_cons_of_mem _ ht)
    obtain ⟨room, us, stop, e', _, b, rfl, rfl, he, hae, hstop, -, hb⟩ :=
      exists_body (hs e rfl) (hn e rfl) hts' h
    obtain ⟨a, ha⟩ := Option.isSome_iff_exists.1 (hts k (List.mem_cons_self ..))
    exact ⟨_, .print hk.eq_mark he hstop ha hb, .print _ _ hae⟩
  | declaration name initial a =>
    cases initial with
    | none =>
      obtain ⟨k, ts', rfl, hk, h₁⟩ := Spells.cons h
      obtain ⟨⟨_, c⟩, ts', rfl, hname, h₂⟩ := h₁.cons
      obtain ⟨stop, ts', rfl, hstop, h₃⟩ := h₂.cons
      cases h₃
      cases hname
      obtain ⟨a, ha⟩ := Option.isSome_iff_exists.1 (hts k (List.mem_cons_self ..))
      obtain ⟨b, hb⟩ := Option.isSome_iff_exists.1 (hts stop (by simp))
      exact ⟨_, .bare name c hk.eq_mark hstop.eq_mark ha hb, .bare _ _ _⟩
    | some e =>
      obtain ⟨k, ts', rfl, hk, h₁⟩ := Spells.cons h
      obtain ⟨⟨_, c⟩, ts', rfl, hname, h₂⟩ := h₁.cons
      obtain ⟨equal, ts', rfl, hequal, h₃⟩ := h₂.cons
      cases hname
      have hts' : ∀ t ∈ ts', t.span.isSome := fun t ht => hts t (by simp [ht])
      obtain ⟨room, us, stop, e', _, b, rfl, rfl, he, hae, hstop, -, hb⟩ :=
        exists_body (hs e rfl) (hn e rfl) hts' h₃
      obtain ⟨a, ha⟩ := Option.isSome_iff_exists.1 (hts k (List.mem_cons_self ..))
      exact ⟨_, .declaration name c hk.eq_mark hequal.eq_mark he hstop ha hb,
        .declaration _ _ _ hae⟩
  | stray k => exact hs.elim

end Lox
