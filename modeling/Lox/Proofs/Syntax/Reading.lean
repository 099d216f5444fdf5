import Lox.Proofs.Syntax.Derivation

/-!
# The rules read what the grammar derives

Every rule of the grammar, run where a semicolon or the end mark lies ahead, either gives a tree
that is derived from the tokens that it has read, or fails with a report and with a semicolon at
most as the last token read. In particular no rule runs out of tokens, and none meets a node without
a place.

* `Grammar.Reads`: this, for a rule that belongs to a level.
* `Grammar.readsNested_expression`, `Grammar.ensures_topDeclaration`: this, for expressions and
  statements.
-/

namespace Lox.Grammar

open Rule TokenStream

/-- The rule reads expressions of the level that open at most `room` levels. -/
def Reads (r : Rule Expr) (l : Level) (room : Nat) : Prop :=
  ∀ s, s.Ready → r.Ensures s (Derives l room) Breaks

/-- The rule reads expressions that open fewer than `levels` levels, their own included. -/
def ReadsNested (r : Rule Expr) (levels : Nat) : Prop :=
  ∀ s, s.Ready →
    r.Ensures s (fun e ts => ∃ room, levels = room + 1 ∧ Derives .choice room e ts) Breaks

variable {l : Level} {room : Nat} {limit : Int}

/-- No expression ends a statement. -/
private theorem open_of_derives (e : Expr) (ts : List PlacedToken) (h : Derives l room e ts) :
    ∀ t ∈ ts, t.isSemicolon = false :=
  fun t ht => (h.within t ht).1

private theorem open_of_nested {levels : Nat} (e : Expr) (ts : List PlacedToken)
    (h : ∃ room, levels = room + 1 ∧ Derives .choice room e ts) :
    ∀ t ∈ ts, t.isSemicolon = false := by
  obtain ⟨room, -, hd⟩ := h
  exact open_of_derives e ts hd

/-! ## Chains -/

/-- A chain reads an expression of its level if its operands are read. -/
theorem reads_leftAssociative {operand : Rule Expr} (h : Reads operand l.tighter room) :
    Reads (leftAssociative l.operators operand) l room := by
  intro s hs
  have hsemi : .semicolon ∉ l.operators := by cases l <;> decide
  have hend : .endOfFile ∉ l.operators := by cases l <;> decide
  refine (h s hs).andThen hs open_of_derives fun first ts s' hp hs' hf => ?_
  -- Later rounds ask for the span of the tree so far, so the loop keeps that there is one.
  refine (ensures_chain (P := fun e us => Derives l room e us ∧ ∃ a, e.span = some a) hsemi hend
    (fun e us hd => open_of_derives e us hd.1) ?_
    ⟨.lift hf, hf.span_isSome (hs.placed_of_passes hp)⟩ hs').mono (fun _ _ h => h.1)
    fun _ _ _ h => h
  intro left us t m s₁ hleft hm ht hs₁
  obtain ⟨hl, a, ha⟩ := hleft
  refine (h s₁ hs₁).andThen hs₁ open_of_derives fun right vs s₂ hp₂ hs₂ hr => ?_
  obtain ⟨b, hb⟩ := hr.span_isSome (hs₁.placed_of_passes hp₂)
  rw [spanOf_eq ha, pure_bind, spanOf_eq hb, pure_bind]
  refine ensures_pure ⟨?_, _, rfl⟩
  simpa using Derives.binary hm hl ht hr ha hb

theorem reads_equality {unary : Rule Expr} (h : Reads unary .unary room) :
    Reads (equality unary) .equality room :=
  have factor : Reads (factor unary) .factor room := reads_leftAssociative (l := .factor) h
  have term : Reads (term unary) .term room := reads_leftAssociative (l := .term) factor
  have comparison : Reads (comparison unary) .comparison room :=
    reads_leftAssociative (l := .comparison) term
  reads_leftAssociative (l := .equality) comparison

/-- Choices are read if unary expressions are. -/
theorem reads_ternary {unary : Rule Expr} (h : Reads unary .unary room) :
    Reads (ternary unary) .choice room := by
  have operand := reads_equality h
  intro s hs
  refine (operand s hs).andThen hs open_of_derives fun first ts s' hp hs' hf => ?_
  refine (ensures_chain (P := fun e us => Derives .choice room e us ∧ ∃ a, e.span = some a)
    (by decide) (by decide) (fun e us hd => open_of_derives e us hd.1) ?_
    ⟨.lift hf, hf.span_isSome (hs.placed_of_passes hp)⟩ hs').mono (fun _ _ h => h.1)
    fun _ _ _ h => h
  intro c us t m s₁ hcondition hm ht hs₁
  obtain ⟨hc, a, ha⟩ := hcondition
  obtain rfl : m = .question := by simpa using hm
  refine (operand s₁ hs₁).andThen hs₁ open_of_derives fun whenTrue vs s₂ _ hs₂ ht' => ?_
  refine ensures_consume_bind hs₂ (by decide) fun colon _ s₃ hcolon _ hs₃ => ?_
  refine (operand s₃ hs₃).andThen hs₃ open_of_derives fun whenFalse xs s₄ hp₄ hs₄ hf' => ?_
  obtain ⟨b, hb⟩ := hf'.span_isSome (hs₃.placed_of_passes hp₄)
  rw [spanOf_eq ha, pure_bind, spanOf_eq hb, pure_bind]
  refine ensures_pure ⟨?_, _, rfl⟩
  simpa using Derives.ternary hc ht ht' hcolon hf' ha hb

/-! ## Nesting -/

/-- The unary rule one level deeper, if there is one, reads with one level less. -/
def ReadsInner (inner : Option (Rule Expr)) (levels : Nat) : Prop :=
  ∀ unary ∈ inner, ∃ room, levels = room + 1 ∧ Reads unary .unary room

theorem readsNested_expressionOver {inner : Option (Rule Expr)} {levels : Nat}
    (h : ReadsInner inner levels) : ReadsNested (expressionOver limit inner) levels := by
  intro s hs
  cases inner with
  | none =>
    exact ensures_nested (ensures_stream_bind (ensures_report (.at_previous (.nesting limit) rfl)))
  | some unary =>
    obtain ⟨room, hroom, hu⟩ := h unary rfl
    exact ensures_nested <| (reads_ternary hu _ (hs.withDepth _)).mono
      (fun e ts hd => ⟨room, hroom, hd⟩) fun why ts f hb => hb.withDepth _

theorem reads_primary {expression : Rule Expr} (h : ReadsNested expression room) :
    Reads (primary expression) .primary room := by
  rintro ⟨passed, rest, depth⟩ hs
  obtain ⟨t, ts, rfl⟩ := List.exists_cons_of_ne_nil hs.rest_ne_nil
  cases ht : t.isEnd with
  | true =>
    refine Ensures.bind (Q := fun o us => o = none ∧ us = [])
      (ensures_of_done (run_advance_end ht) (.refl _) ⟨rfl, rfl⟩) ?_
    rintro _ _ s' hp ⟨rfl, rfl⟩
    rw [hp.eq_of_nil]
    cases passed with
    | nil => exact ensures_of_failed rfl (.refl _) (.at_end rfl ht .missingExpression rfl)
    | cons u us => exact ensures_of_failed rfl (.refl _) (.at_previous .missingExpression rfl)
  | false =>
    refine (ensures_advance rfl ht).bind ?_
    rintro _ _ s' hp ⟨rfl, rfl⟩
    dsimp only
    split
    · exact ensures_pure (.literal (by simp [*, Token.literal?]))
    · exact ensures_pure (.literal (by simp [*, Token.literal?]))
    · exact ensures_pure (.literal (by simp [*, Token.literal?]))
    · exact ensures_pure (.literal (by simp [*, Token.literal?]))
    · exact ensures_pure (.literal (by simp [*, Token.literal?]))
    · rename_i name heq
      obtain ⟨token, a⟩ := t
      cases heq
      exact ensures_pure (.named name a)
    · rename_i heq
      have hsc := PlacedToken.isSemicolon_of_ne heq (by decide)
      have hs' := hs.passes hp (by simpa using hsc)
      obtain ⟨a, ha⟩ := Option.isSome_iff_exists.1 (hs.placed t (List.mem_cons_self ..))
      refine Ensures.mono (E := Breaks) ?_ (fun _ _ h => h) fun _ _ _ hb =>
        hb.prepend (by simpa using hsc)
      refine (h s' hs').andThen hs' open_of_nested fun body us s₁ _ hs₁ hbody => ?_
      obtain ⟨room', rfl, hb⟩ := hbody
      refine ensures_consume_bind hs₁ (by decide) fun close b s₂ hclose hb' _ => ?_
      rw [startOf_eq ha, pure_bind, stopOf_eq hb', pure_bind]
      obtain ⟨token, span⟩ := t
      obtain ⟨token', span'⟩ := close
      cases heq
      cases hclose
      cases ha
      cases hb'
      exact ensures_pure (by simpa using Derives.grouping _ _ hb)
    · exact ensures_report (.at_token (.notExpression List.mem_cons_self) rfl)

theorem reads_unaryOver {inner : Option (Rule Expr)} (h : ReadsInner inner room) :
    Reads (unaryOver limit inner) .unary room := by
  intro s hs
  have primary : (primary (expressionOver limit inner)).Ensures s (Derives .unary room) Breaks :=
    (reads_primary (readsNested_expressionOver h) s hs).mono (fun e us hd => .lift hd)
      fun _ _ _ hb => hb
  refine ensures_check_bind hs (fun t ts hr ht hany => ?_) primary
  dsimp only
  split
  · rename_i operator a ho
    cases ho
    have hop : operator ∈ unaryOperators := by
      simpa [PlacedToken.kind, Token.kind] using hany
    have hsc : PlacedToken.isSemicolon ⟨.mark operator, a⟩ = false :=
      PlacedToken.isSemicolon_of_ne rfl (by rintro rfl; simp [unaryOperators] at hop)
    obtain ⟨a, rfl⟩ := Option.isSome_iff_exists.1 (hs.placed _ (hr ▸ List.mem_cons_self ..))
    refine ensures_advance_bind hs hr ht hsc fun s₁ hp₁ hs₁ => ?_
    cases inner with
    | none =>
      exact ensures_of_failed rfl (.refl _)
        (.at_previous (.nesting limit) (by simp [previousSpan, hp₁.passed]))
    | some unary =>
      obtain ⟨room, rfl, hu⟩ := h unary rfl
      refine (ensures_nested ((hu _ (hs₁.withDepth _)).mono (fun _ _ h => h)
        fun why us f hb => hb.withDepth _)).andThen hs₁ open_of_derives
        fun right us s₂ hp₂ hs₂ hd => ?_
      obtain ⟨b, hb⟩ := hd.span_isSome (hs₁.placed_of_passes hp₂)
      rw [startOf_eq (a := a) rfl, pure_bind, spanOf_eq hb, pure_bind]
      exact ensures_pure (by simpa using Derives.unary hop hd hb)
  · exact primary

/-- Unary expressions are read, however many levels there is room for. -/
theorem reads_unary (limit : Int) (room : Nat) : Reads (unary limit room) .unary room := by
  induction room with
  | zero => exact reads_unaryOver (by rintro _ ⟨⟩)
  | succ room ih =>
    refine reads_unaryOver ?_
    rintro _ ⟨⟩
    exact ⟨room, rfl, ih⟩

theorem readsNested_expression (limit : Int) (levels : Nat) :
    ReadsNested (expression limit levels) levels := by
  refine readsNested_expressionOver ?_
  cases levels with
  | zero => rintro _ ⟨⟩
  | succ room =>
    rintro _ ⟨⟩
    exact ⟨room, rfl, reads_unary limit room⟩

/-! ## Statements -/

section Statements

variable {expression : Rule Expr} {levels : Nat} {s : TokenStream}

/-- The end of a statement: a semicolon, and the span from where the statement starts. -/
private theorem ensures_finish (build : Span → Stmt) {start : Rule Span} {a : Span}
    {Q : Stmt → List PlacedToken → Prop} (hs : s.Ready) (hstart : start = pure a)
    (h : ∀ (stop : PlacedToken) (b : Span), stop.token = .mark .semicolon → stop.span = some b →
      Q (build (a.join b)) [stop]) :
    (do
      let stop ← consume (.mark .semicolon)
      let span := (← start).join (← stopOf stop)
      pure (build span) : Rule Stmt).Ensures s Q Breaks := by
  refine (ensures_consume hs).bind ?_
  rintro stop _ s₁ hp₁ ⟨rfl, hstop⟩
  obtain ⟨b, hb⟩ := Option.isSome_iff_exists.1
    (hs.placed_of_passes hp₁ stop (List.mem_singleton_self _))
  rw [hstart, pure_bind, stopOf_eq hb, pure_bind]
  exact ensures_pure (h stop _ (PlacedToken.kind_eq_mark.1 hstop) hb)

theorem ensures_variableDeclaration (h : ReadsNested expression levels) (hs : s.Ready)
    {t : PlacedToken} {rest : List PlacedToken} (hr : s.rest = t :: rest)
    (ht : t.token = .mark .varWord) :
    (variableDeclaration expression).Ensures s (StmtDerives levels) Breaks := by
  obtain ⟨a, ha⟩ := Option.isSome_iff_exists.1 (hs.placed t (hr ▸ List.mem_cons_self ..))
  refine ensures_advance_bind hs hr (PlacedToken.isEnd_of_ne ht (by decide))
    (PlacedToken.isSemicolon_of_ne ht (by decide)) fun s₁ _ hs₁ => ?_
  refine ensures_consumeName_bind hs₁ fun name c s₂ hs₂ => ?_
  refine ensures_check_bind hs₂ (fun equal rest' hr' he hk => ?_) ?_
  · have heq : equal.token = .mark .equal := PlacedToken.kind_eq_mark.1 (by simpa using hk)
    refine ensures_advance_bind hs₂ hr' he (PlacedToken.isSemicolon_of_ne heq (by decide))
      fun s₃ _ hs₃ => ?_
    rw [bind_map_left]
    refine (h s₃ hs₃).andThen hs₃ open_of_nested fun e us s₄ _ hs₄ hinitial => ?_
    obtain ⟨room, rfl, hd⟩ := hinitial
    refine ensures_finish (fun span => .declaration name (some e) (some span)) hs₄
      (startOf_eq ha) fun stop b hstop hb => ?_
    simpa using StmtDerives.declaration name c ht heq hd hstop ha hb
  · exact ensures_finish (fun span => .declaration name none (some span)) hs₂
      (startOf_eq ha) fun stop b hstop hb => .bare name c ht hstop ha hb

theorem ensures_statement (h : ReadsNested expression levels) (hs : s.Ready) :
    (statement expression).Ensures s (StmtDerives levels) Breaks := by
  refine ensures_check_bind hs (fun t rest hr ht hk => ?_) ?_
  · have hprint : t.token = .mark .printWord := PlacedToken.kind_eq_mark.1 (by simpa using hk)
    obtain ⟨a, ha⟩ := Option.isSome_iff_exists.1 (hs.placed t (hr ▸ List.mem_cons_self ..))
    refine ensures_advance_bind hs hr ht (PlacedToken.isSemicolon_of_ne hprint (by decide))
      fun s₁ _ hs₁ => ?_
    refine (h s₁ hs₁).andThen hs₁ open_of_nested fun e us s₂ _ hs₂ hbody => ?_
    obtain ⟨room, rfl, hd⟩ := hbody
    refine ensures_finish (fun span => .print e (some span)) hs₂ (startOf_eq ha)
      fun stop b hstop hb => ?_
    simpa using StmtDerives.print hprint hd hstop ha hb
  · refine (h s hs).andThen hs open_of_nested fun e us s₂ hp₂ hs₂ hbody => ?_
    obtain ⟨room, rfl, hd⟩ := hbody
    obtain ⟨a, ha⟩ := hd.span_isSome (hs.placed_of_passes hp₂)
    refine ensures_finish (fun span => .expression e (some span)) hs₂ (spanOf_eq ha)
      fun stop b hstop hb => ?_
    simpa using StmtDerives.expression hd hstop ha hb

/-- A declaration that is read is derived from its tokens. -/
theorem ensures_declaration (h : ReadsNested expression levels) (hs : s.Ready) :
    (declaration expression).Ensures s (StmtDerives levels) Breaks := by
  refine ensures_check_bind hs (fun t rest hr _ hk => ?_) (ensures_statement h hs)
  exact ensures_variableDeclaration h hs hr (PlacedToken.kind_eq_mark.1 (by simpa using hk))

theorem ensures_topDeclaration (limit : Int) (hs : s.Ready) :
    (topDeclaration limit).Ensures s (StmtDerives limit.toNat) Breaks :=
  ensures_declaration (readsNested_expression limit limit.toNat) hs

end Statements

end Lox.Grammar
