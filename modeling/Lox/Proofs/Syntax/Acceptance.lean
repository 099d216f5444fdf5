import Lox.Proofs.Syntax.Completeness
import Lox.Proofs.Syntax.Recovery

/-!
# The parser accepts its grammar

A list of tokens parses without a report to some statements if and only if the statements have the
right shape, open no more levels than the limit allows, and spell the tokens. Spans are left out of
the comparison, and when two numbers count as the same is left open, so that the statement holds of
identical numbers as well as of numbers that compare equal.

* `Expr.Alike.yield`, `Stmt.Alike.yield`: trees that differ in their spans only have the same shape,
  nesting and yield.
* `TokenStream.exists_derivations`, `TokenStream.rounds_of_derivations`: a program without reports
  is a row of derived statements, and the other way round.
* `parse_accepts_iff`: the main statement.
-/

namespace Lox

/-! ## What trees that differ in their spans share -/

section Alike

variable {same : Float → Float → Prop}

theorem Token.Alike.mark (m : Mark) : Token.Alike same (.mark m) (.mark m) :=
  .other (by rintro ⟨⟩)

theorem Value.Alike.token {v w : Value} (h : v.Alike same w) : v.token.Alike same w.token := by
  cases h with
  | number h => exact .number h
  | string s => exact .other (by rintro ⟨⟩)
  | boolean b => cases b <;> exact .mark _
  | nil => exact .mark _

theorem TokenKind.alike_tokens (o : TokenKind) :
    List.Forall₂ (Token.Alike same) o.tokens o.tokens := by
  cases o with
  | mark m => exact .cons (.mark m) .nil
  | _ => exact .nil

namespace Expr.Alike

variable {d e : Expr}

theorem level_eq (h : d.Alike same e) : d.level = e.level := by
  cases h <;> rfl

theorem nesting_eq (h : d.Alike same e) : d.nesting = e.nesting := by
  induction h <;> simp_all [Expr.nesting]

theorem shaped (h : d.Alike same e) (hd : d.Shaped) : e.Shaped := by
  induction h with
  | literal | named => trivial
  | grouping _ _ _ ih => exact ih hd
  | unary o _ _ he ih => exact ⟨hd.1, he.level_eq ▸ hd.2.1, ih hd.2.2⟩
  | binary o _ _ hl hr ihl ihr =>
    obtain ⟨⟨k, hk, hkl, hkr⟩, hdl, hdr⟩ := hd
    exact ⟨⟨k, hk, hl.level_eq ▸ hkl, hr.level_eq ▸ hkr⟩, ihl hdl, ihr hdr⟩
  | ternary _ _ _ ht hf ihc iht ihf =>
    obtain ⟨hkt, hkf, hdc, hdt, hdf⟩ := hd
    exact ⟨ht.level_eq ▸ hkt, hf.level_eq ▸ hkf, ihc hdc, iht hdt, ihf hdf⟩
  | stray => exact hd.elim

theorem yield (h : d.Alike same e) : List.Forall₂ (Token.Alike same) d.yield e.yield := by
  induction h with
  | literal _ _ hv => exact .cons hv.token .nil
  | named n => exact .cons (.other (by rintro ⟨⟩)) .nil
  | grouping _ _ _ ih =>
    exact List.rel_append (.cons (.mark _) ih) (.cons (.mark _) .nil)
  | unary o _ _ _ ih => exact List.rel_append o.alike_tokens ih
  | binary o _ _ _ _ ihl ihr =>
    exact List.rel_append (List.rel_append ihl o.alike_tokens) ihr
  | ternary _ _ _ _ _ ihc iht ihf =>
    exact List.rel_append (List.rel_append ihc (.cons (.mark _) iht)) (.cons (.mark _) ihf)
  | stray => exact .nil

end Expr.Alike

namespace Stmt.Alike

variable {st st' : Stmt}

theorem nesting (h : st.Alike same st') {n : Nat} (hn : ∀ e ∈ st.body?, e.nesting < n) :
    ∀ e ∈ st'.body?, e.nesting < n := by
  cases h with
  | expression _ _ h | print _ _ h | declaration _ _ _ h =>
    rintro _ ⟨⟩
    exact h.nesting_eq ▸ hn _ rfl
  | bare | stray => rintro _ ⟨⟩

theorem shaped (h : st.Alike same st') (hs : st.Shaped) : st'.Shaped := by
  cases h with
  | expression _ _ h | print _ _ h | declaration _ _ _ h =>
    rintro _ ⟨⟩
    exact h.shaped (hs _ rfl)
  | bare => rintro _ ⟨⟩
  | stray => exact hs

theorem yield (h : st.Alike same st') :
    List.Forall₂ (Token.Alike same) st.yield st'.yield := by
  have stop : List.Forall₂ (Token.Alike same) [.mark .semicolon] [.mark .semicolon] :=
    .cons (.mark _) .nil
  cases h with
  | expression _ _ h => exact List.rel_append h.yield stop
  | print _ _ h => exact .cons (.mark _) (List.rel_append h.yield stop)
  | bare n => exact .cons (.mark _) (.cons (.other (by rintro ⟨⟩)) stop)
  | declaration n _ _ h =>
    exact .cons (.mark _) (.cons (.other (by rintro ⟨⟩)) (.cons (.mark _)
      (List.rel_append h.yield stop)))
  | stray => exact .nil

end Stmt.Alike

end Alike

/-! ## Programs without reports -/

namespace TokenStream

variable {limit : Int} {s s' : TokenStream} {statements : List Stmt}

/-- What is read without a report is derived. -/
theorem exists_derivations (hs : s.Closed)
    (h : s.items limit = .ok (statements.map .statement, s')) :
    ∃ ranges, List.Forall₂ (StmtDerives limit.toNat) statements ranges ∧
      s.Passes ranges.flatten s' ∧ ∃ stop after, s'.rest = stop :: after ∧ stop.isEnd := by
  obtain ⟨t, rest, hr⟩ := List.exists_cons_of_ne_nil hs.ready.rest_ne_nil
  induction statements generalizing s t rest with
  | nil =>
    cases ht : t.isEnd with
    | true =>
      rw [items_of_isEnd hr ht] at h
      cases h
      exact ⟨[], .nil, .refl _, t, rest, hr, ht⟩
    | false =>
      obtain ⟨item, ts, s₁, hround, -⟩ := exists_round limit hs.ready hr ht
      rw [items_of_round hr ht hround] at h
      cases e : items limit s₁ <;> simp [e, Except.map] at h
  | cons st statements ih =>
    cases ht : t.isEnd with
    | true =>
      rw [items_of_isEnd hr ht] at h
      cases h
    | false =>
      obtain ⟨item, ts, s₁, hround, hp, -, hst⟩ := exists_round limit hs.ready hr ht
      rw [items_of_round hr ht hround] at h
      cases e : items limit s₁ with
      | error f => simp [e, Except.map] at h
      | ok r =>
        obtain ⟨is, stop⟩ := r
        simp only [e, Except.map, List.map_cons, Except.ok.injEq, Prod.mk.injEq,
          List.cons.injEq] at h
        obtain ⟨⟨rfl, rfl⟩, rfl⟩ := h
        obtain ⟨t₁, rest₁, hr₁⟩ := List.exists_cons_of_ne_nil (hs.passes hp).ready.rest_ne_nil
        obtain ⟨ranges, hd, hp', hstop⟩ := ih (hs.passes hp) e t₁ rest₁ hr₁
        exact ⟨ts :: ranges, .cons (hst st rfl) hd, hp.trans hp', hstop⟩

/-- What is derived is read without a report. -/
theorem rounds_of_derivations {ranges : List (List PlacedToken)}
    (h : List.Forall₂ (StmtDerives limit.toNat) statements ranges)
    (hp : s.Passes ranges.flatten s') : Rounds limit s (statements.map .statement) ranges s' := by
  induction h generalizing s with
  | nil =>
    rw [hp.eq_of_nil]
    exact .nil s
  | @cons st ts statements ranges hst _ ih =>
    obtain ⟨s₁, hp₁, hp₂⟩ := Passes.split (List.flatten_cons ▸ hp)
    obtain ⟨us, last, rfl, -⟩ := hst.eq_concat
    obtain ⟨t, rest, hts⟩ := List.exists_cons_of_ne_nil (List.append_ne_nil_of_right_ne_nil us
      (List.cons_ne_nil last []))
    have hr : s.rest = t :: (rest ++ s₁.rest) := by rw [hp₁.rest, hts, List.cons_append]
    refine .cons hr (hp₁.noEnd t (hts ▸ List.mem_cons_self ..)) ?_ hp₁ (ih hp₂)
    rw [round, Grammar.run_topDeclaration hst hp₁]

end TokenStream

theorem eq_map_statement_of_errors {items : List Item}
    (h : (Parsed.ofItems items).errors = []) :
    items = (Parsed.ofItems items).statements.map .statement := by
  induction items with
  | nil => rfl
  | cons item items ih =>
    cases item with
    | statement st => exact congrArg (.statement st :: ·) (ih h)
    | rejected d => cases h

theorem ofItems_map_statement (statements : List Stmt) :
    Parsed.ofItems (statements.map .statement) = ⟨statements, []⟩ := by
  induction statements with
  | nil => rfl
  | cons st statements ih =>
    simp only [Parsed.ofItems, Parsed.mk.injEq] at ih ⊢
    exact ⟨congrArg (st :: ·) ih.1, ih.2⟩

/-! ## Acceptance -/

section Acceptance

variable {limit : Int} {ts : List PlacedToken} {stop : PlacedToken}

/-- Parsing without a report is deriving every statement from its own tokens. -/
theorem parse_eq_ok_iff (hstop : stop.isEnd) (hts : ∀ t ∈ ts, t.isEnd = false)
    (hplaced : ∀ t ∈ ts ++ [stop], t.span.isSome) {statements : List Stmt} :
    parse (ts ++ [stop]) limit = .ok ⟨statements, []⟩ ↔
      ∃ ranges, List.Forall₂ (StmtDerives limit.toNat) statements ranges ∧
        ranges.flatten = ts.filter (fun t => t.kind != .whitespace) := by
  have hrest : (TokenStream.ofTokens (ts ++ [stop])).rest =
      ts.filter (fun t => t.kind != .whitespace) ++ [stop] := by
    simp [TokenStream.ofTokens, ne_whitespace_of_isEnd hstop]
  constructor
  · intro h
    obtain ⟨items, s', hitems, hp⟩ := exists_items_of_parse h
    have hmap := eq_map_statement_of_errors (hp ▸ rfl : (Parsed.ofItems items).errors = [])
    rw [← hp] at hmap
    obtain ⟨ranges, hd, hpass, stop', after, hr, hstop'⟩ := TokenStream.exists_derivations
      (closed_ofTokens hplaced ⟨stop, by simp, hstop⟩) (hmap ▸ hitems)
    refine ⟨ranges, hd, ?_⟩
    -- Both end where the only end mark stands.
    have hall := hpass.rest
    rw [hrest, hr] at hall
    rcases List.append_eq_append_iff.1 hall with ⟨us, hus, hcons⟩ | ⟨us, hus, hcons⟩
    · cases us <;> simp_all
    · cases us with
      | nil => rw [hus, List.append_nil]
      | cons u us =>
        cases hcons
        have hmem : stop' ∈ ts.filter (fun t => t.kind != .whitespace) := by simp [hus]
        rw [hts stop' (List.mem_filter.1 hmem).1] at hstop'
        cases hstop'
  · rintro ⟨ranges, hd, hflat⟩
    have hpass : (TokenStream.ofTokens (ts ++ [stop])).Passes ranges.flatten
        ⟨ranges.flatten.reverse, [stop], 0⟩ :=
      ⟨by rw [hrest, hflat], by simp [TokenStream.ofTokens], rfl,
        fun t ht => hts t (List.mem_filter.1 (hflat ▸ ht)).1⟩
    have hrounds := TokenStream.rounds_of_derivations hd hpass
    rw [parse_eq (hrounds.items_eq rfl hstop), ofItems_map_statement]

/-- Statements that spell the tokens are derived from them, up to their spans. -/
theorem exists_ranges_of_spells {same : Float → Float → Prop} {statements : List Stmt}
    {levels : Nat} (hshaped : ∀ st ∈ statements, st.Shaped)
    (hnest : ∀ st ∈ statements, ∀ e ∈ st.body?, e.nesting < levels)
    (hplaced : ∀ t ∈ ts, t.span.isSome) (h : Spells same ts (statements.flatMap Stmt.yield)) :
    ∃ statements' ranges, List.Forall₂ (StmtDerives levels) statements' ranges ∧
      ranges.flatten = ts ∧ List.Forall₂ (Stmt.Alike same) statements' statements := by
  induction statements generalizing ts with
  | nil =>
    cases h
    exact ⟨[], [], .nil, rfl, .nil⟩
  | cons st statements ih =>
    obtain ⟨us, vs, rfl, hus, hvs⟩ := Spells.split (List.flatMap_cons ▸ h)
    obtain ⟨st', hd, ha⟩ := exists_stmtDerives (hshaped st (by simp)) (hnest st (by simp))
      (fun t ht => hplaced t (List.mem_append_left _ ht)) hus
    obtain ⟨statements', ranges, hds, hflat, has⟩ := ih (fun st hst => hshaped st (by simp [hst]))
      (fun st hst => hnest st (by simp [hst]))
      (fun t ht => hplaced t (List.mem_append_right _ ht)) hvs
    exact ⟨st' :: statements', us :: ranges, .cons hd hds, by simp [hflat], .cons ha has⟩

/-- Derived statements have the right shape, fit the limit and spell their tokens. -/
private theorem spells_of_ranges {same : Float → Float → Prop} {statements statements' : List Stmt}
    {levels : Nat} {ranges : List (List PlacedToken)}
    (h : List.Forall₂ (StmtDerives levels) statements' ranges)
    (ha : List.Forall₂ (Stmt.Alike same) statements' statements) :
    (∀ st ∈ statements, st.Shaped) ∧ (∀ st ∈ statements, ∀ e ∈ st.body?, e.nesting < levels) ∧
      Spells same ranges.flatten (statements.flatMap Stmt.yield) := by
  induction h generalizing statements with
  | nil =>
    cases ha
    exact ⟨by simp, by simp, .nil⟩
  | @cons st' ts statements' ranges hd _ ih =>
    cases ha with
    | @cons _ st _ statements hst hall =>
      obtain ⟨hshaped, hnest, hspells⟩ := ih hall
      refine ⟨?_, ?_, ?_⟩
      · simpa using ⟨hst.shaped hd.shaped, hshaped⟩
      · rw [List.forall_mem_cons]
        exact ⟨hst.nesting hd.nesting_lt, hnest⟩
      · have hyield := hst.yield
        rw [← hd.map_token, List.forall₂_map_left_iff] at hyield
        exact List.rel_append hyield hspells

/-- The parser accepts exactly its grammar. -/
theorem parse_accepts_iff (hstop : stop.isEnd) (hts : ∀ t ∈ ts, t.isEnd = false)
    (hplaced : ∀ t ∈ ts ++ [stop], t.span.isSome) (limit : Int) (same : Float → Float → Prop)
    (statements : List Stmt) :
    (∃ statements', parse (ts ++ [stop]) limit = .ok ⟨statements', []⟩ ∧
        List.Forall₂ (Stmt.Alike same) statements' statements) ↔
      (∀ st ∈ statements, st.Shaped) ∧
      (∀ st ∈ statements, ∀ e ∈ st.body?, 1 + (e.nesting : Int) ≤ limit) ∧
      List.Forall₂ (fun t u => Token.Alike same t.token u)
        (ts.filter (fun t => t.kind != .whitespace)) (statements.flatMap Stmt.yield) := by
  have hlimit (n : Nat) : 1 + (n : Int) ≤ limit ↔ n < limit.toNat := by omega
  simp only [parse_eq_ok_iff hstop hts hplaced, hlimit]
  constructor
  · rintro ⟨statements', ⟨ranges, hd, hflat⟩, ha⟩
    exact hflat ▸ spells_of_ranges hd ha
  · rintro ⟨hshaped, hnest, hspells⟩
    obtain ⟨statements', ranges, hd, hflat, ha⟩ := exists_ranges_of_spells hshaped hnest
      (fun t ht => hplaced t (List.mem_append_left _ (List.mem_filter.1 ht).1)) hspells
    exact ⟨statements', ⟨ranges, hd, hflat⟩, ha⟩

/-- A unary operator takes a level next to the one of the expression. -/
theorem parse_accepts_negation :
    ∃ statements', parse [⟨.mark .minus, some {}⟩, ⟨.mark .nilWord, some {}⟩,
      ⟨.mark .semicolon, some {}⟩, ⟨.mark .endOfFile, some {}⟩] 2 = .ok ⟨statements', []⟩ ∧
    List.Forall₂ (Stmt.Alike Eq) statements'
      [.expression (.unary (.mark .minus) (.literal .nil none) none) none] := by
  refine (@parse_accepts_iff [⟨.mark .minus, some {}⟩, ⟨.mark .nilWord, some {}⟩,
    ⟨.mark .semicolon, some {}⟩] ⟨.mark .endOfFile, some {}⟩ (by decide) (by decide)
    (by decide) 2 Eq _).2 ⟨?_, ?_, ?_⟩
  · simp [Stmt.Shaped, Stmt.body?, Expr.Shaped, Expr.level, Level.rank]
  · simp [Stmt.body?, Expr.nesting]
  · exact .cons (.mark .minus) (.cons (.mark .nilWord) (.cons (.mark .semicolon) .nil))

end Acceptance

end Lox
