import Lox.Proofs.Syntax.Lockstep
import Lox.Proofs.Syntax.RoundTrip
import Lox.Proofs.Token.Tiling

/-!
# Every node covers its tokens

A node of a tree is built from a run of tokens, the ones that spell it, and its span goes from the
start of the first of them to the end of the last. Where the tokens come from a source, and so lie
one behind the other, spans nest as trees do.

* `Expr.parts`, `Expr.Holds`, `Stmt.Holds`: the nodes of a tree, with where their tokens start.
* `covering`: from the start of the first token to the end of the last.
* `Covers`: a span covers the run of tokens that spells a yield.
* `Laid`: statements one behind the other, each node of which covers its tokens.
* `TokenStream.Rounds.laid`: what is read in rounds is laid so.
* `PlacedToken.Precedes`: one token lies before another, as the tokens of a source do.
* `parse_covers_tokens`: all of this, for programs.
-/

namespace Lox

/-! ## Nodes and where their tokens start -/

namespace Expr

/-- The operands of an expression in order, each with the number of tokens before it. -/
def parts : Expr → List (Nat × Expr)
  | literal _ _ | named _ _ | stray _ => []
  | grouping e _ => [(1, e)]
  | unary o e _ => [(o.tokens.length, e)]
  | binary l o r _ => [(0, l), (l.yield.length + o.tokens.length, r)]
  | ternary c t f _ =>
    [(0, c), (c.yield.length + 1, t), (c.yield.length + 1 + t.yield.length + 1, f)]

/-- The operands of an expression, in order. -/
def operands (e : Expr) : List Expr := e.parts.map Prod.snd

/-- The expression is or holds a node before which it has so many tokens. -/
inductive Holds : Expr → Nat → Expr → Prop where
  | self (e : Expr) : Holds e 0 e
  | part {e o n : Expr} {i j : Nat} : (i, o) ∈ e.parts → Holds o j n → Holds e (i + j) n

/-- The operands of a node are nodes. -/
theorem Holds.trans {e n o : Expr} {i j : Nat} (h : e.Holds i n) (mem : (j, o) ∈ n.parts) :
    e.Holds (i + j) o := by
  induction h with
  | self e => simpa [Nat.add_comm] using Holds.part mem (.self o)
  | part first _ ih => exact Nat.add_assoc .. ▸ .part first (ih mem)

theorem mem_operands {e o : Expr} : o ∈ e.operands ↔ ∃ i, (i, o) ∈ e.parts := by
  simp [operands]

end Expr

namespace Stmt

/-- The number of tokens before the expression of a statement. -/
def lead : Stmt → Nat
  | print _ _ => 1
  | declaration _ _ _ => 3
  | expression _ _ | stray _ => 0

/-- The statement holds a node before which it has so many tokens. -/
def Holds (st : Stmt) (i : Nat) (n : Expr) : Prop :=
  ∃ e ∈ st.body?, ∃ j, e.Holds j n ∧ i = st.lead + j

end Stmt

/-! ## Covering tokens -/

/-- The span from the start of the first token to the end of the last. -/
def covering (ts : List PlacedToken) : Option Span :=
  (ts.head?.bind PlacedToken.span).bind fun a => (ts.getLast?.bind PlacedToken.span).map a.join

section Covering

variable {ts us : List PlacedToken} {a b c : Span}

theorem covering_eq_some : covering ts = some c ↔ ∃ t ∈ ts.head?, ∃ u ∈ ts.getLast?,
    ∃ a ∈ t.span, ∃ b ∈ u.span, c = a.join b := by
  simp only [covering, Option.bind_eq_some_iff, Option.map_eq_some_iff, Option.mem_def]
  constructor
  · rintro ⟨a, ⟨t, ht, ha⟩, b, ⟨u, hu, hb⟩, rfl⟩
    exact ⟨t, ht, u, hu, a, ha, b, hb, rfl⟩
  · rintro ⟨t, ht, u, hu, a, ha, b, hb, rfl⟩
    exact ⟨a, ⟨t, ht, ha⟩, b, ⟨u, hu, hb⟩, rfl⟩

theorem covering_singleton {t : PlacedToken} (h : t.span = some a) : covering [t] = some a :=
  covering_eq_some.mpr ⟨t, rfl, t, rfl, a, h, a, h, rfl⟩

/-- What covers the first tokens and what covers the last ones, joined, covers all. -/
theorem covering_append (between : List PlacedToken) (hts : covering ts = some a)
    (hus : covering us = some b) : covering (ts ++ between ++ us) = some (a.join b) := by
  obtain ⟨t, ht, -, -, x, hx, -, -, rfl⟩ := covering_eq_some.mp hts
  obtain ⟨-, -, u, hu, -, -, y, hy, rfl⟩ := covering_eq_some.mp hus
  refine covering_eq_some.mpr ⟨t, ?_, u, ?_, x, hx, y, hy, rfl⟩
  · obtain ⟨_, rfl⟩ := List.head?_eq_some_iff.mp ht
    rfl
  · obtain ⟨_, rfl⟩ := List.getLast?_eq_some_iff.mp hu
    simp

end Covering

/-- The run of the row that starts behind `k` tokens spells the yield, and the span covers it. -/
structure Covers (row : List PlacedToken) (k : Nat) (yield : List Token) (span : Option Span) :
    Prop where
  ne_nil : yield ≠ []
  spells : (row.extract k (k + yield.length)).map PlacedToken.token = yield
  span_eq : span = covering (row.extract k (k + yield.length))

/-- The run that a span covers is a part of the row. -/
theorem covers_iff {row : List PlacedToken} {k : Nat} {yield : List Token} {span : Option Span} :
    Covers row k yield span ↔ ∃ before run after, row = before ++ run ++ after ∧
      before.length = k ∧ run ≠ [] ∧ run.map PlacedToken.token = yield ∧ span = covering run := by
  constructor
  · rintro ⟨ne_nil, spells, span_eq⟩
    have run_ne_nil : row.extract k (k + yield.length) ≠ [] := by
      intro empty
      rw [empty] at spells
      exact ne_nil spells.symm
    have inside : k < row.length := by
      by_contra beyond
      simp [List.drop_eq_nil_of_le (Nat.le_of_not_lt beyond)] at run_ne_nil
    refine ⟨row.take k, _, row.drop (k + yield.length), ?_, ?_, run_ne_nil, spells, span_eq⟩
    · simp
    · exact List.length_take_of_le inside.le
  · rintro ⟨before, run, after, rfl, rfl, ne_nil, rfl, rfl⟩
    have run_eq : (before ++ run ++ after).extract before.length (before.length +
        (run.map PlacedToken.token).length) = run := by simp
    exact ⟨by simpa using ne_nil, by rw [run_eq], by rw [run_eq]⟩

/-- More tokens behind make no difference. -/
theorem Covers.append {row : List PlacedToken} {k : Nat} {yield : List Token} {span : Option Span}
    (h : Covers row k yield span) (more : List PlacedToken) :
    Covers (row ++ more) k yield span := by
  obtain ⟨before, run, after, rfl, found⟩ := covers_iff.mp h
  exact covers_iff.mpr ⟨before, run, after ++ more, by simp, found⟩

/-! ## What is derived covers its tokens -/

namespace Derives

variable {l : Level} {room : Nat} {e : Expr} {ts : List PlacedToken}

theorem length_eq (h : Derives l room e ts) : e.yield.length = ts.length := by
  rw [← h.map_token, List.length_map]

/-- The span of an expression is what covers its tokens. -/
theorem span_eq (h : Derives l room e ts) (placed : ∀ t ∈ ts, t.span.isSome) :
    e.span = covering ts := by
  induction h with
  | @literal _ t v _ =>
    obtain ⟨a, ha⟩ := Option.isSome_iff_exists.mp (placed t (List.mem_singleton_self t))
    rw [covering_singleton ha]
    exact ha
  | named name a =>
    obtain ⟨a, rfl⟩ := Option.isSome_iff_exists.mp (placed _ (List.mem_singleton_self _))
    exact (covering_singleton rfl).symm
  | @grouping _ _ ts a b _ _ =>
    exact (covering_append ts (covering_singleton (a := a) rfl)
      (covering_singleton (a := b) rfl)).symm
  | @unary _ _ _ ts a b _ _ hb ih =>
    have operand := ih fun t ht => placed t (List.mem_cons_of_mem _ ht)
    exact (covering_append [] (covering_singleton (a := a) rfl) (operand.symm.trans hb)).symm
  | @binary _ _ _ _ _ ts us t a b _ _ _ _ ha hb ihl ihr =>
    have left := ihl fun t ht => placed t (by simp [ht])
    have right := ihr fun t ht => placed t (by simp [ht])
    simpa [Expr.span] using (covering_append [t] (left.symm.trans ha) (right.symm.trans hb)).symm
  | @ternary _ _ _ _ ts us vs mark colon a b _ _ _ _ _ ha hb ihc _ ihf =>
    have condition := ihc fun t ht => placed t (by simp [ht])
    have whenFalse := ihf fun t ht => placed t (by simp [ht])
    simpa [Expr.span] using (covering_append (mark :: (us ++ [colon]))
      (condition.symm.trans ha) (whenFalse.symm.trans hb)).symm
  | lift _ ih => exact ih placed

/-- The tokens of an operand are a run of the tokens of the expression. -/
theorem exists_part (h : Derives l room e ts) {i : Nat} {o : Expr} (mem : (i, o) ∈ e.parts) :
    ∃ k room' before run after, ts = before ++ run ++ after ∧ before.length = i ∧
      Derives k room' o run := by
  induction h with
  | literal | named => cases mem
  | @grouping _ _ ts a b h _ =>
    obtain ⟨rfl, rfl⟩ : i = 1 ∧ o = _ := by simpa [Expr.parts] using mem
    exact ⟨_, _, [⟨.mark .leftParen, some a⟩], ts, [⟨.mark .rightParen, some b⟩], rfl, rfl, h⟩
  | @unary _ m _ ts a _ _ h _ _ =>
    obtain ⟨rfl, rfl⟩ : i = 1 ∧ o = _ := by simpa [Expr.parts, TokenKind.tokens] using mem
    exact ⟨_, _, [⟨.mark m, some a⟩], ts, [], by simp, rfl, h⟩
  | @binary _ _ _ _ _ ts us t _ _ _ hl _ hr _ _ _ _ =>
    obtain ⟨rfl, rfl⟩ | ⟨rfl, rfl⟩ := by simpa [Expr.parts, TokenKind.tokens] using mem
    · exact ⟨_, _, [], ts, t :: us, by simp, rfl, hl⟩
    · exact ⟨_, _, ts ++ [t], us, [], by simp, by simp [hl.length_eq], hr⟩
  | @ternary _ _ _ _ ts us vs mark colon _ _ hc _ ht _ hf _ _ _ _ _ =>
    obtain ⟨rfl, rfl⟩ | ⟨rfl, rfl⟩ | ⟨rfl, rfl⟩ := by simpa [Expr.parts] using mem
    · exact ⟨_, _, [], ts, mark :: (us ++ colon :: vs), by simp, rfl, hc⟩
    · exact ⟨_, _, ts ++ [mark], us, colon :: vs, by simp, by simp [hc.length_eq], ht⟩
    · exact ⟨_, _, ts ++ mark :: (us ++ [colon]), vs, [], by simp,
        by simp [hc.length_eq, ht.length_eq]; omega, hf⟩
  | lift _ ih => exact ih mem

/-- The tokens of a node are a run of the tokens of the expression. -/
theorem exists_node {i : Nat} {n : Expr} (hn : e.Holds i n) (h : Derives l room e ts) :
    ∃ k room' before run after, ts = before ++ run ++ after ∧ before.length = i ∧
      Derives k room' n run := by
  induction hn generalizing l room ts with
  | self e => exact ⟨l, room, [], ts, [], by simp, rfl, h⟩
  | part mem _ ih =>
    obtain ⟨_, _, before, run, after, rfl, rfl, ho⟩ := h.exists_part mem
    obtain ⟨k, room', before', run', after', rfl, rfl, hn⟩ := ih ho
    exact ⟨k, room', before ++ before', run', after' ++ after, by simp, by simp, hn⟩

end Derives

namespace StmtDerives

variable {levels : Nat} {st : Stmt} {ts : List PlacedToken}

theorem length_eq (h : StmtDerives levels st ts) : st.yield.length = ts.length := by
  rw [← h.map_token, List.length_map]

/-- The span of a statement is what covers its tokens. -/
theorem span_eq (h : StmtDerives levels st ts) (placed : ∀ t ∈ ts, t.span.isSome) :
    st.span = covering ts := by
  cases h with
  | @expression _ _ ts stop a b h _ ha hb =>
    have body := h.span_eq fun t ht => placed t (by simp [ht])
    simpa [Stmt.span] using (covering_append [] (body.symm.trans ha) (covering_singleton hb)).symm
  | @print _ _ ts _ _ _ _ _ _ _ ha hb =>
    exact (covering_append ts (covering_singleton ha) (covering_singleton hb)).symm
  | bare name c _ _ ha hb =>
    exact (covering_append [⟨.identifier name, c⟩] (covering_singleton ha)
      (covering_singleton hb)).symm
  | @declaration _ _ ts _ equal _ _ _ name c _ _ _ _ ha hb =>
    exact (covering_append (⟨.identifier name, c⟩ :: equal :: ts) (covering_singleton ha)
      (covering_singleton hb)).symm

/-- The tokens of the expression in a statement are a run of the tokens of the statement. -/
theorem exists_body (h : StmtDerives levels st ts) {e : Expr} (mem : e ∈ st.body?) :
    ∃ room before run after, ts = before ++ run ++ after ∧ before.length = st.lead ∧
      Derives .choice room e run := by
  cases h with
  | @expression _ _ ts stop _ _ h =>
    cases mem
    exact ⟨_, [], ts, [stop], rfl, rfl, h⟩
  | @print _ _ ts keyword stop _ _ _ h =>
    cases mem
    exact ⟨_, [keyword], ts, [stop], rfl, rfl, h⟩
  | bare => cases mem
  | @declaration _ _ ts keyword equal stop _ _ name c _ _ h =>
    cases mem
    exact ⟨_, [keyword, ⟨.identifier name, c⟩, equal], ts, [stop], rfl, rfl, h⟩

end StmtDerives

/-! ## Statements in a row -/

/-- The statement starts behind `k` tokens of the row. It covers its tokens, and so does every node
that it holds. -/
structure Stmt.Lies (row : List PlacedToken) (k : Nat) (st : Stmt) : Prop where
  whole : Covers row k st.yield st.span
  node : ∀ i n, st.Holds i n → Covers row (k + i) n.yield n.span

theorem Stmt.Lies.append {row : List PlacedToken} {k : Nat} {st : Stmt} (h : st.Lies row k)
    (more : List PlacedToken) : st.Lies (row ++ more) k :=
  ⟨h.whole.append more, fun i n hn => (h.node i n hn).append more⟩

/-- The statements lie in the row one behind the other, and the first `k` tokens of the row belong
to none of them. -/
def Laid (row : List PlacedToken) : Nat → List Stmt → Prop
  | _, [] => True
  | k, st :: sts => ∃ i, k ≤ i ∧ st.Lies row i ∧ Laid row (i + st.yield.length) sts

theorem Laid.mono {row : List PlacedToken} {k k' : Nat} {sts : List Stmt} (h : Laid row k sts)
    (hle : k' ≤ k) : Laid row k' sts := by
  cases sts with
  | nil => trivial
  | cons st sts =>
    obtain ⟨i, hi, h⟩ := h
    exact ⟨i, hle.trans hi, h⟩

theorem Laid.append {row : List PlacedToken} {k : Nat} {sts : List Stmt} (h : Laid row k sts)
    (more : List PlacedToken) : Laid (row ++ more) k sts := by
  induction sts generalizing k with
  | nil => trivial
  | cons st sts ih =>
    obtain ⟨i, hi, lies, later⟩ := h
    exact ⟨i, hi, lies.append more, ih later⟩

theorem Laid.exists_lies {row : List PlacedToken} {k : Nat} {sts : List Stmt} (h : Laid row k sts)
    {st : Stmt} (mem : st ∈ sts) : ∃ i, k ≤ i ∧ st.Lies row i := by
  induction sts generalizing k with
  | nil => cases mem
  | cons st' sts ih =>
    obtain ⟨i, hi, lies, later⟩ := h
    obtain rfl | mem := List.mem_cons.mp mem
    · exact ⟨i, hi, lies⟩
    · obtain ⟨j, hj, found⟩ := ih later mem
      exact ⟨j, by omega, found⟩

/-- What is derived from a part of the row lies there. -/
theorem StmtDerives.lies {levels : Nat} {st : Stmt} {ts : List PlacedToken}
    (h : StmtDerives levels st ts) (placed : ∀ t ∈ ts, t.span.isSome)
    (before after : List PlacedToken) : st.Lies (before ++ ts ++ after) before.length where
  whole := by
    obtain ⟨_, _, concat, -⟩ := h.eq_concat
    exact covers_iff.mpr ⟨before, ts, after, rfl, rfl, by simp [concat], h.map_token,
      h.span_eq placed⟩
  node := by
    rintro _ n ⟨e, mem, j, hn, rfl⟩
    obtain ⟨_, front, body, back, rfl, hfront, he⟩ := h.exists_body mem
    obtain ⟨_, _, front', run, back', rfl, rfl, hd⟩ := he.exists_node hn
    refine covers_iff.mpr ⟨before ++ front ++ front', run, back' ++ back ++ after, by simp,
      by simp [hfront], hd.ne_nil, hd.map_token, hd.span_eq fun t ht => ?_⟩
    exact placed t (by simp [ht])

/-- The statements that are read in rounds lie in the tokens of the rounds. -/
theorem TokenStream.Rounds.laid {limit : Int} {s e : TokenStream} {items : List Item}
    {ranges : List (List PlacedToken)} (h : Rounds limit s items ranges e) (hs : s.Closed)
    (before : List PlacedToken) :
    Laid (before ++ ranges.flatten) before.length (items.filterMap Item.statement?) := by
  induction h generalizing before with
  | nil s => trivial
  | @cons s s' e t rest ts item items ranges hr ht hround hp _ ih =>
    have later := ih (hs.passes hp) (before ++ ts)
    rw [List.append_assoc, List.length_append] at later
    cases item with
    | rejected d => exact later.mono (Nat.le_add_right _ _)
    | statement st =>
      obtain ⟨_, us, s'', hround', hp', -, derived⟩ := exists_round limit hs.ready hr ht
      cases hround.symm.trans hround'
      have same : ts ++ s'.rest = us ++ s'.rest := hp.rest.symm.trans hp'.rest
      obtain rfl : ts = us := List.append_cancel_right same
      have hd := derived st rfl
      refine ⟨before.length, Nat.le_refl _, ?_, ?_⟩
      · have lies := hd.lies (hs.ready.placed_of_passes hp) before ranges.flatten
        rwa [List.append_assoc] at lies
      · rwa [hd.length_eq]

/-! ## Tokens of a source -/

/-- The token is not empty and ends where the other one starts, or before. -/
def PlacedToken.Precedes (t u : PlacedToken) : Prop :=
  ∃ a b, t.span = some a ∧ u.span = some b ∧ a.start.index < a.stop.index ∧
    a.stop.index ≤ b.start.index

/-- Pieces that a source goes on with lie one behind the other. -/
theorem PlacedPiece.apart_place {s : Source} {i : Nat} {ps : List Piece}
    (h : s.graphemes.drop i = ps.flatMap Piece.graphemes) :
    (place (s.locate i) ps).Pairwise fun p q => p.span.start.index < p.span.stop.index ∧
      p.span.stop.index ≤ q.span.start.index := by
  induction ps generalizing i with
  | nil => exact .nil
  | cons p ps ih =>
    obtain ⟨j, hij, hj, -, rest, placed⟩ := place_locate h
    rw [placed]
    refine .cons (fun q mem => ?_) (ih rest)
    obtain ⟨k, l, hjk, hkl, hl, span, -⟩ := exists_places rest mem
    rw [span]
    show (s.locate i).index < (s.locate j).index ∧ (s.locate j).index ≤ (s.locate k).index
    rw [Source.index_locate (hij.le.trans hj), Source.index_locate hj,
      Source.index_locate (hkl.le.trans hl)]
    exact ⟨Int.ofNat_lt.mpr hij, Int.ofNat_le.mpr hjk⟩

/-- The tokens of a source lie one behind the other, and its end lies behind them all. -/
theorem precedes_scan [Segmenter] (text : String) :
    (scanText text).tokens.Pairwise PlacedToken.Precedes := by
  let s := Source.ofText text
  refine List.pairwise_append.mpr ⟨?_, List.pairwise_singleton _ _, fun t ht u hu => ?_⟩
  · refine (PlacedPiece.apart_place s.drop_zero_eq_cut).filterMap _ fun p q hpq t ht u hu => ?_
    obtain ⟨-, hp⟩ := PlacedPiece.token?_eq_some.mp ht
    obtain ⟨-, hq⟩ := PlacedPiece.token?_eq_some.mp hu
    exact ⟨p.span, q.span, hp, hq, hpq⟩
  · obtain ⟨p, mem, htoken⟩ := List.mem_filterMap.mp ht
    obtain ⟨i, j, hij, hj, span⟩ := s.places_of_mem_pieces mem
    refine ⟨p.span, ⟨s.endLocation, s.endLocation⟩, (PlacedPiece.token?_eq_some.mp htoken).2,
      by rw [List.mem_singleton.mp hu]; rfl, ?_⟩
    rw [span]
    show (s.locate i).index < (s.locate j).index ∧ (s.locate j).index ≤ s.endLocation.index
    rw [Source.index_locate (hij.le.trans hj), Source.index_locate hj, Source.index_endLocation]
    exact ⟨Int.ofNat_lt.mpr hij, Int.ofNat_le.mpr hj⟩

/-! ## Spans of nodes -/

/-- The first stretch lies in the second one. -/
def Span.Within (a b : Option Span) : Prop :=
  ∃ x y, a = some x ∧ b = some y ∧ y.start.index ≤ x.start.index ∧ x.stop.index ≤ y.stop.index

/-- The first stretch ends where the second one starts, or before. -/
def Span.Precedes (a b : Option Span) : Prop :=
  ∃ x y, a = some x ∧ b = some y ∧ x.stop.index ≤ y.start.index

/-- The token lies in the stretch. The end is no part of a stretch, so what starts there does not.
-/
def PlacedToken.liesIn (a : Span) (t : PlacedToken) : Bool :=
  t.span.any fun b => a.start.index ≤ b.start.index && b.start.index < a.stop.index &&
    b.stop.index ≤ a.stop.index

theorem PlacedToken.liesIn_iff {t : PlacedToken} {a c : Span} (h : t.span = some a) :
    t.liesIn c ↔ c.start.index ≤ a.start.index ∧ a.start.index < c.stop.index ∧
      a.stop.index ≤ c.stop.index := by
  simp [liesIn, h, and_assoc]

/-- The tokens lie one behind the other, and none of them is empty. -/
structure Apart (ts : List PlacedToken) : Prop where
  precedes : ts.Pairwise PlacedToken.Precedes
  wide : ∀ t ∈ ts, ∃ a, t.span = some a ∧ a.start.index < a.stop.index

/-- Tokens that another one lies behind. -/
theorem apart_of_pairwise {ts after : List PlacedToken} {stop : PlacedToken}
    (h : (ts ++ stop :: after).Pairwise PlacedToken.Precedes) : Apart ts := by
  obtain ⟨front, -, across⟩ := List.pairwise_append.mp h
  refine ⟨front, fun t ht => ?_⟩
  obtain ⟨a, -, ha, -, wide, -⟩ := across t ht stop List.mem_cons_self
  exact ⟨a, ha, wide⟩

namespace Apart

variable {ts us row : List PlacedToken} {c : Span}

theorem sublist (h : Apart us) (hs : ts.Sublist us) : Apart ts :=
  ⟨h.precedes.sublist hs, fun t ht => h.wide t (hs.subset ht)⟩

/-- Every token lies in what covers all of them. -/
theorem bounds (h : Apart ts) (hc : covering ts = some c) {t : PlacedToken} (ht : t ∈ ts) :
    ∃ a, t.span = some a ∧ c.start.index ≤ a.start.index ∧ a.start.index < a.stop.index ∧
      a.stop.index ≤ c.stop.index := by
  obtain ⟨first, hfirst, last, hlast, x, hx, y, hy, rfl⟩ := covering_eq_some.mp hc
  obtain ⟨a, ha, wide⟩ := h.wide t ht
  refine ⟨a, ha, ?_, wide, ?_⟩
  · obtain ⟨rest, rfl⟩ := List.head?_eq_some_iff.mp hfirst
    obtain rfl | later := List.mem_cons.mp ht
    · cases ha.symm.trans hx
      exact Int.le_refl _
    · obtain ⟨b, a', hb, ha', wide', apart⟩ := (List.pairwise_cons.mp h.precedes).1 t later
      cases ha.symm.trans ha'
      cases hb.symm.trans hx
      exact (Int.le_of_lt wide').trans apart
  · obtain ⟨rest, rfl⟩ := List.getLast?_eq_some_iff.mp hlast
    obtain earlier | last' := List.mem_append.mp ht
    · obtain ⟨a', b, ha', hb, -, apart⟩ :=
        (List.pairwise_append.mp h.precedes).2.2 t earlier last (List.mem_singleton_self last)
      obtain ⟨b', hb', wide'⟩ := h.wide last (by simp)
      cases ha.symm.trans ha'
      cases hb.symm.trans hy
      cases hb'.symm.trans hy
      exact apart.trans (Int.le_of_lt wide')
    · cases List.mem_singleton.mp last'
      cases ha.symm.trans hy
      exact Int.le_refl _

theorem exists_covering (h : Apart ts) (hne : ts ≠ []) : ∃ c, covering ts = some c := by
  obtain ⟨a, ha, -⟩ := h.wide _ (List.head_mem hne)
  obtain ⟨b, hb, -⟩ := h.wide _ (List.getLast_mem hne)
  exact ⟨a.join b, covering_eq_some.mpr ⟨_, List.head?_eq_some_head hne, _,
    List.getLast?_eq_some_getLast hne, a, ha, b, hb, rfl⟩⟩

end Apart

namespace Covers

variable {row : List PlacedToken} {k k' j : Nat} {yield yield' : List Token}
  {span span' : Option Span}

/-- A part of a run is a part of the row. -/
theorem extract_sublist (row : List PlacedToken) (k : Nat) {j m n : Nat} (h : j + m ≤ n) :
    (row.extract (k + j) (k + j + m)).Sublist (row.extract k (k + n)) := by
  have part : row.extract (k + j) (k + j + m) = ((row.extract k (k + n)).drop j).take m := by
    simp only [List.extract_eq_take_drop, Nat.add_sub_cancel_left, List.drop_take, List.take_take,
      List.drop_drop, Nat.min_eq_left (show m ≤ n - j by omega)]
  rw [part]
  exact (List.take_sublist _ _).trans (List.drop_sublist _ _)

/-- The span of what is built from separate tokens lies around all of them. -/
theorem exists_bounds (h : Covers row k yield span) (apart : Apart row) :
    ∃ c, span = some c ∧ covering (row.extract k (k + yield.length)) = some c ∧
      ∀ t ∈ row.extract k (k + yield.length), ∃ a, t.span = some a ∧
        c.start.index ≤ a.start.index ∧ a.start.index < a.stop.index ∧
        a.stop.index ≤ c.stop.index := by
  have run : Apart (row.extract k (k + yield.length)) :=
    apart.sublist ((List.take_sublist _ _).trans (List.drop_sublist _ _))
  obtain ⟨c, hc⟩ := run.exists_covering fun empty => h.ne_nil (by rw [← h.spells, empty]; rfl)
  exact ⟨c, h.span_eq.trans hc, hc, fun t ht => run.bounds hc ht⟩

/-- What is built from some of the tokens lies within what is built from all of them. -/
theorem within (h : Covers row k yield span) (h' : Covers row (k + j) yield' span')
    (apart : Apart row) (hle : j + yield'.length ≤ yield.length) : Span.Within span' span := by
  obtain ⟨c, hspan, -, bounds⟩ := h.exists_bounds apart
  obtain ⟨c', hspan', hc', -⟩ := h'.exists_bounds apart
  obtain ⟨t, ht, u, hu, a, ha, b, hb, rfl⟩ := covering_eq_some.mp hc'
  have inside := extract_sublist row k hle
  obtain ⟨a', ha', start, -⟩ := bounds t (inside.subset (List.mem_of_head? ht))
  obtain ⟨b', hb', -, -, stop⟩ := bounds u (inside.subset (List.mem_of_getLast? hu))
  cases ha.symm.trans ha'
  cases hb.symm.trans hb'
  exact ⟨_, _, hspan', hspan, start, stop⟩

/-- What is built from earlier tokens precedes what is built from later ones. -/
theorem precedes (h : Covers row k yield span) (h' : Covers row k' yield' span')
    (apart : Apart row) (hle : k + yield.length ≤ k') : Span.Precedes span span' := by
  obtain ⟨c, hspan, hc, -⟩ := h.exists_bounds apart
  obtain ⟨c', hspan', hc', -⟩ := h'.exists_bounds apart
  obtain ⟨_, _, u, hu, _, _, b, hb, rfl⟩ := covering_eq_some.mp hc
  obtain ⟨t, ht, _, _, a, ha, _, _, rfl⟩ := covering_eq_some.mp hc'
  have split := List.take_append_drop (k + yield.length) row ▸ apart.precedes
  have earlier : u ∈ row.take (k + yield.length) := by
    have mem := List.mem_of_getLast? hu
    rw [List.extract_eq_take_drop, ← List.drop_take] at mem
    exact List.mem_of_mem_drop mem
  have later : t ∈ row.drop (k + yield.length) := by
    have mem := List.mem_of_mem_take (List.mem_of_head? ht)
    rw [← Nat.add_sub_of_le hle, ← List.drop_drop] at mem
    exact List.mem_of_mem_drop mem
  obtain ⟨b', a', hb', ha', -, apart⟩ := (List.pairwise_append.mp split).2.2 u earlier t later
  cases hb.symm.trans hb'
  cases ha.symm.trans ha'
  exact ⟨_, _, hspan, hspan', apart⟩

/-- The tokens that lie in the span are those that it covers. -/
theorem filter_liesIn {stop : PlacedToken} {after : List PlacedToken}
    (h : Covers row k yield span) (apart : (row ++ stop :: after).Pairwise PlacedToken.Precedes) :
    ∃ c, span = some c ∧ (row ++ stop :: after).filter (PlacedToken.liesIn c) =
      (row ++ stop :: after).extract k (k + yield.length) := by
  obtain ⟨before, run, behind, rfl, rfl, hne, rfl, hspan⟩ := covers_iff.mp h
  have wide := apart_of_pairwise apart
  have inner : Apart run := wide.sublist (by simp)
  obtain ⟨c, hc⟩ := inner.exists_covering hne
  obtain ⟨first, hfirst, last, hlast, x, hx, y, hy, rfl⟩ := covering_eq_some.mp hc
  have split : before ++ run ++ behind ++ stop :: after =
      before ++ (run ++ (behind ++ stop :: after)) := by simp
  rw [split] at apart
  obtain ⟨-, tail, front⟩ := List.pairwise_append.mp apart
  obtain ⟨-, -, back⟩ := List.pairwise_append.mp tail
  have noneBefore : before.filter (PlacedToken.liesIn (x.join y)) = [] := by
    refine List.filter_eq_nil_iff.mpr fun t ht lies => ?_
    obtain ⟨a, b, ha, hb, nonempty, ends⟩ :=
      front t ht first (List.mem_append_left _ (List.mem_of_head? hfirst))
    cases hb.symm.trans hx
    obtain ⟨starts, -⟩ := (PlacedToken.liesIn_iff ha).mp lies
    exact absurd (nonempty.trans_le ends) (Int.not_lt.mpr starts)
  have allInside : run.filter (PlacedToken.liesIn (x.join y)) = run := by
    refine List.filter_eq_self.mpr fun t ht => ?_
    obtain ⟨a, ha, starts, nonempty, ends⟩ := inner.bounds hc ht
    exact (PlacedToken.liesIn_iff ha).mpr ⟨starts, nonempty.trans_le ends, ends⟩
  have noneBehind : (behind ++ stop :: after).filter (PlacedToken.liesIn (x.join y)) = [] := by
    refine List.filter_eq_nil_iff.mpr fun t ht lies => ?_
    obtain ⟨b, a, hb, ha, -, ends⟩ := back last (List.mem_of_getLast? hlast) t ht
    cases hb.symm.trans hy
    obtain ⟨-, starts, -⟩ := (PlacedToken.liesIn_iff ha).mp lies
    exact absurd starts (Int.not_lt.mpr ends)
  refine ⟨_, hspan.trans hc, ?_⟩
  rw [split, List.filter_append, List.filter_append, noneBefore, allInside, noneBehind]
  simp

end Covers

/-- The tokens of an operand are among those of the expression. -/
theorem Expr.le_of_mem_parts {e o : Expr} {i : Nat} (h : (i, o) ∈ e.parts) :
    i + o.yield.length ≤ e.yield.length := by
  cases e with
  | literal | named | stray => cases h
  | grouping e a =>
    obtain ⟨rfl, rfl⟩ : i = 1 ∧ o = _ := by simpa [parts] using h
    simp only [yield, List.length_append, List.length_cons]
    omega
  | unary m e a =>
    obtain ⟨rfl, rfl⟩ : i = _ ∧ o = _ := by simpa [parts] using h
    simp only [yield, List.length_append, Nat.le_refl]
  | binary l m r a =>
    simp only [yield, List.length_append]
    obtain ⟨rfl, rfl⟩ | ⟨rfl, rfl⟩ := by simpa [parts] using h
    · omega
    · omega
  | ternary c t f a =>
    simp only [yield, List.length_append, List.length_cons]
    obtain ⟨rfl, rfl⟩ | ⟨rfl, rfl⟩ | ⟨rfl, rfl⟩ := by simpa [parts] using h
    · omega
    · omega
    · omega

/-- The tokens of an operand come before those of the next one. -/
theorem Expr.pairwise_parts (e : Expr) :
    e.parts.Pairwise fun p q => p.1 + p.2.yield.length ≤ q.1 := by
  cases e with
  | binary l m r a => simp [parts]
  | ternary c t f a =>
    simp [parts]
    omega
  | _ => simp [parts]

/-- The tokens of the expression of a statement are among those of the statement. -/
theorem Stmt.le_of_mem_body {st : Stmt} {e : Expr} (h : e ∈ st.body?) :
    st.lead + e.yield.length ≤ st.yield.length := by
  cases st with
  | expression e' a =>
    cases h
    simp [lead, yield]
  | print e' a | declaration name initial a =>
    cases h
    simp only [lead, yield, List.length_append, List.length_cons]
    omega
  | stray k => cases h

/-- Each part of a statement lies inside what it is a part of, and operands lie one behind the
other. -/
structure Stmt.Nests (st : Stmt) : Prop where
  body : ∀ e ∈ st.body?, Span.Within e.span st.span
  inside : ∀ i n, st.Holds i n → ∀ o ∈ n.operands, Span.Within o.span n.span
  apart : ∀ i n, st.Holds i n → n.operands.Pairwise fun o o' => Span.Precedes o.span o'.span

/-- Where tokens lie one behind the other, the spans of a tree nest. -/
theorem Stmt.Lies.nests {row : List PlacedToken} {k : Nat} {st : Stmt} (h : st.Lies row k)
    (apart : Apart row) : st.Nests where
  body e he :=
    h.whole.within (h.node _ e ⟨e, he, 0, .self e, rfl⟩) apart (Stmt.le_of_mem_body he)
  inside := by
    rintro i n ⟨e, he, j, hn, rfl⟩ o ho
    obtain ⟨j', mem⟩ := Expr.mem_operands.mp ho
    have operand := h.node _ o ⟨e, he, _, hn.trans mem, rfl⟩
    rw [← Nat.add_assoc, ← Nat.add_assoc, Nat.add_assoc k] at operand
    exact (h.node _ n ⟨e, he, j, hn, rfl⟩).within operand apart (Expr.le_of_mem_parts mem)
  apart := by
    rintro i n ⟨e, he, j, hn, rfl⟩
    refine List.pairwise_map.mpr (n.pairwise_parts.imp_of_mem fun {p q} hp hq hle => ?_)
    have left := h.node _ p.2 ⟨e, he, _, hn.trans hp, rfl⟩
    have right := h.node _ q.2 ⟨e, he, _, hn.trans hq, rfl⟩
    exact left.precedes right apart (by omega)

/-- Where tokens lie one behind the other, so do statements. -/
theorem Laid.pairwise {row : List PlacedToken} {k : Nat} {sts : List Stmt} (h : Laid row k sts)
    (apart : Apart row) : sts.Pairwise fun st st' => Span.Precedes st.span st'.span := by
  induction sts generalizing k with
  | nil => exact .nil
  | cons st sts ih =>
    obtain ⟨i, -, lies, later⟩ := h
    refine .cons (fun st' mem => ?_) (ih later)
    obtain ⟨j, hj, lies'⟩ := later.exists_lies mem
    exact lies.whole.precedes lies'.whole apart hj

/-! ## Programs -/

/-- The tokens of the row that lie in the span are as many as the yield has, those behind the first
`k` tokens. -/
def Encloses (row : List PlacedToken) (k : Nat) (yield : List Token) (span : Option Span) : Prop :=
  ∃ a, span = some a ∧ row.filter (PlacedToken.liesIn a) = row.extract k (k + yield.length)

/-- Every statement that is read, and every node in it, was built from a run of tokens that spells
it, and its span covers them. If the tokens are those of a source, or some of them, then spans nest,
statements and operands lie one behind the other, and no other token lies in the span of a node. -/
theorem parse_covers_tokens [Segmenter] {tokens : List PlacedToken} (limit : Int)
    (placed : ∀ t ∈ tokens, t.span.isSome) (ended : ∃ t ∈ tokens, t.isEnd) :
    ∃ p row, parse tokens limit = .ok p ∧ row = tokens.filter (fun t => t.kind != .whitespace) ∧
      Laid row 0 p.statements ∧
      ∀ text, tokens.Sublist (scanText text).tokens →
        p.statements.Pairwise (fun st st' => Span.Precedes st.span st'.span) ∧
        ∀ st ∈ p.statements, st.Nests ∧ ∃ k, st.Lies row k ∧ Encloses row k st.yield st.span ∧
          ∀ i n, st.Holds i n → Encloses row (k + i) n.yield n.span := by
  obtain ⟨items, ranges, stop, after, hstop, hrest, -, e, hrounds, he⟩ :=
    (closed_ofTokens placed ended).exists_rounds limit
  have laid := hrounds.laid (closed_ofTokens placed ended) []
  rw [List.nil_append] at laid
  refine ⟨.ofItems items, _, parse_eq (hrounds.items_eq he hstop), rfl, ?_, fun text hsub => ?_⟩
  · rw [show tokens.filter _ = _ from hrest]
    exact laid.append _
  · have ordered : (ranges.flatten ++ stop :: after).Pairwise PlacedToken.Precedes :=
      hrest ▸ (precedes_scan text).sublist (List.filter_sublist.trans hsub)
    have apart := apart_of_pairwise ordered
    rw [show tokens.filter _ = _ from hrest]
    refine ⟨laid.pairwise apart, fun st mem => ?_⟩
    obtain ⟨k, -, lies⟩ := laid.exists_lies mem
    exact ⟨lies.nests apart, k, lies.append _, lies.whole.filter_liesIn ordered,
      fun i n hn => (lies.node i n hn).filter_liesIn ordered⟩

/-- The spans in a source that prints a sum. -/
theorem parse_covers_tokens_sum : ∃ p st,
    parse (scanText "print a + b;").tokens 48 = .ok p ∧ p.statements = [st] ∧ st.Nests ∧
    ∃ k, st.Lies ((scanText "print a + b;").tokens.filter fun t => t.kind != .whitespace) k := by
  obtain ⟨p, row, parsed, rfl, -, nested⟩ :=
    @parse_covers_tokens _ (scanText "print a + b;").tokens 48
      (fun t ht => span_isSome_of_mem_scan ht) ⟨_, List.mem_append_right _ List.mem_cons_self, rfl⟩
  have single : (parse (scanText "print a + b;").tokens 48).map (·.statements.length) = .ok 1 := by
    decide +kernel
  rw [parsed] at single
  obtain ⟨st, only⟩ := List.length_eq_one_iff.mp (Except.ok.inj single)
  obtain ⟨nests, k, lies, -⟩ :=
    (nested "print a + b;" (List.Sublist.refl _)).2 st (only ▸ List.mem_singleton_self st)
  exact ⟨p, st, parsed, only, nests, k, lies⟩

end Lox
