import Lox.Proofs.Syntax.Derivation

/-!
# What the grammar derives is read

The rules give every derived tree back, and stop right behind its tokens. A loop stops where no
operator of its level stands next, and what was derived at a tighter level has no such operator
behind it that a looser loop would miss.

* `Grammar.ruleAt`, `Grammar.loopAt`: the rule of a level, and the loop inside it.
* `Grammar.Absorbs`: reading an expression is the same as going on with the loop of its level from
  where the expression ends; `Grammar.absorbs_of_derives` says so of what is derived.
* `Grammar.run_topDeclaration`: a derived statement is read as what it is.
-/

namespace Lox

namespace Level

/-- The operators that the loop of a level goes on at. -/
def links : Level → List Mark
  | choice => [.question]
  | l => l.operators

/-- No loop of the level, or of a tighter one, goes on at the token. -/
def Stops (l : Level) (t : Token) : Prop :=
  ∀ k : Level, l.rank ≤ k.rank → Rule.markIn k.links t = none

theorem of_mem_links {k : Level} {m : Mark} (h : m ∈ k.links) :
    (k = choice ∧ m = .question) ∨ ofOperator? (.mark m) = some k := by
  cases k with
  | choice => exact .inl ⟨rfl, by simpa [links] using h⟩
  | _ => exact .inr (mem_operators_iff.1 h)

theorem mem_links_of_mem_operators {k : Level} {m : Mark} (h : m ∈ k.operators) :
    m ∈ k.links := by
  cases k with
  | choice => cases h
  | _ => exact h

theorem stops_of_not_mem {l : Level} {m : Mark} (h : ∀ k : Level, l.rank ≤ k.rank → m ∉ k.links) :
    l.Stops (.mark m) :=
  fun k hk => by simp [Rule.markIn, h k hk]

/-- The operators of a level do not belong to a tighter one. -/
theorem stops_of_mem_operators {l : Level} {m : Mark} (h : m ∈ l.operators) :
    l.tighter.Stops (.mark m) := by
  have hl := mem_operators_iff.1 h
  refine stops_of_not_mem fun k hk hm => ?_
  rcases of_mem_links hm with ⟨-, rfl⟩ | hm
  · cases hl
  · cases hl.symm.trans hm
    revert h hk
    cases l <;> cases m <;> decide

/-- A mark that is neither an operator nor a question stops every loop. -/
theorem stops_of_not_operator {l : Level} {m : Mark} (hm : m ≠ .question)
    (ho : ofOperator? (.mark m) = none) : l.Stops (.mark m) := by
  refine stops_of_not_mem fun k _ h => ?_
  rcases of_mem_links h with ⟨-, h⟩ | h
  · exact hm h
  · cases ho.symm.trans h

theorem stops_question : equality.Stops (.mark .question) := by
  refine stops_of_not_mem fun k hk h => ?_
  rcases of_mem_links h with ⟨rfl, -⟩ | h
  · exact absurd hk (by decide)
  · cases h

theorem stops_of_unary_le {l : Level} (hl : unary.rank ≤ l.rank) (t : Token) : l.Stops t := by
  intro k hk
  cases k with
  | unary | primary => cases t <;> simp [Rule.markIn, links, operators]
  | _ => exact absurd (Nat.le_trans hl hk) (by decide)

theorem Stops.of_rank_le {l k : Level} {t : Token} (h : l.Stops t) (hk : l.rank ≤ k.rank) :
    k.Stops t :=
  fun k' hk' => h k' (Nat.le_trans hk hk')

end Level

namespace Grammar

open Rule TokenStream

/-! ## Rules and loops by level -/

/-- One round of the loop in `leftAssociative`. -/
def extendBinary (operand : Rule Expr) (left : Expr) (operator : Mark) : Rule Expr := do
  let right ← operand
  let span := (← spanOf left).join (← spanOf right)
  pure (.binary left (.mark operator) right (some span))

/-- One round of the loop in `ternary`. -/
def extendTernary (operand : Rule Expr) (condition : Expr) (_ : Mark) : Rule Expr := do
  let whenTrue ← operand
  let _ ← consume (.mark .colon)
  let whenFalse ← operand
  let span := (← spanOf condition).join (← spanOf whenFalse)
  pure (.ternary condition whenTrue whenFalse (some span))

/-- The rule of a level, with room for some more levels of nesting. -/
def ruleAt (limit : Int) (room : Nat) : Level → Rule Expr
  | .choice => ternary (unary limit room)
  | .equality => equality (unary limit room)
  | .comparison => comparison (unary limit room)
  | .term => term (unary limit room)
  | .factor => factor (unary limit room)
  | .unary => unary limit room
  | .primary => primary (expression limit room)

/-- One round of the loop of a level. -/
def extendAt (limit : Int) (room : Nat) : Level → Expr → Mark → Rule Expr
  | .choice => extendTernary (ruleAt limit room .equality)
  | l => extendBinary (ruleAt limit room l.tighter)

/-- The loop of a level. Where there are no operators it does nothing. -/
def loopAt (limit : Int) (room : Nat) (l : Level) : Expr → Rule Expr :=
  chain l.links (extendAt limit room l)

section

variable {limit : Int} {room : Nat} {l : Level} {e : Expr} {s s' : TokenStream}
  {t : PlacedToken} {ts us rest : List PlacedToken}

theorem ruleAt_eq (h : l.rank < Level.unary.rank) :
    ruleAt limit room l = ruleAt limit room l.tighter >>= loopAt limit room l := by
  cases l with
  | unary | primary => exact absurd h (by decide)
  | _ => rfl

/-- A loop stops where no operator of its level stands next. -/
theorem run_loopAt_of_stops (hr : s.rest = t :: rest) (h : l.Stops t.token) :
    (loopAt limit room l e).run s = .done e s := by
  change chainFrom _ _ e s = _
  simp only [chainFrom_eq, hr, h l (Nat.le_refl _)]

/-- One round of a loop. -/
theorem run_loopAt_of_mem {m : Mark} {longer : Expr} {s₁ : TokenStream} (hp : s.Passes [t] s₁)
    (ht : t.token = .mark m) (hm : m ∈ l.links)
    (h : (extendAt limit room l e m).run s₁ = .done longer s') :
    (loopAt limit room l e).run s = (loopAt limit room l longer).run s' := by
  change chainFrom _ _ e s = chainFrom _ _ longer s'
  rw [hp.eq_mk] at h
  rw [chainFrom_eq]
  simp only [hp.rest, List.cons_append, List.nil_append, markIn_eq_some.2 ⟨ht, hm⟩]
  exact h ▸ rfl

/-! ## Single rules -/

/-- A nested rule gives what the rule gives one level deeper. -/
theorem run_nested {α : Type} {r : Rule α} {a : α} (hp : s.Passes ts s')
    (h : r.run { s with depth := s.depth + 1 } = .done a { s' with depth := s.depth + 1 }) :
    (nested r).run s = .done a s' := by
  rw [hp.eq_mk] at h ⊢
  simp only [nested, h, Outcome.mapStream, Nat.add_sub_cancel]

theorem run_advance_of_passes (hp : s.Passes [t] s') : advance.run s = .done (some t) s' := by
  obtain ⟨passed, _, depth⟩ := s
  cases hp.rest
  rw [hp.eq_mk]
  exact run_advance (hp.noEnd t (List.mem_singleton_self t))

theorem run_consumeWith_of_passes {α : Type} {wanted : TokenKind} {read : Token → Option α} {a : α}
    (hp : s.Passes [t] s') (ht : read t.token = some a) :
    (consumeWith wanted read).run s = .done (a, t) s' := by
  simp only [consumeWith, run_bind, run_advance_of_passes hp, ht, run_pure]

theorem run_consume_of_passes {m : Mark} (hp : s.Passes [t] s') (ht : t.token = .mark m) :
    (consume (.mark m)).run s = .done t s' := by
  rw [consume, run_bind, run_consumeWith_of_passes (a := ()) hp (by simp [ht, Token.kind])]
  rfl

theorem run_consumeName_of_passes {name : String} {a : Option Span}
    (hp : s.Passes [⟨.identifier name, a⟩] s') : consumeName.run s = .done name s' := by
  rw [consumeName, run_bind, run_consumeWith_of_passes (a := name) hp rfl]
  rfl

theorem run_check_some (wanted : TokenKind → Bool) {m : Mark} (hr : s.rest = t :: rest)
    (he : t.isEnd = false) (ht : t.token = .mark m) (hw : wanted (.mark m) = true) :
    (check wanted).run s = .done (some t) s := by
  obtain ⟨passed, _, depth⟩ := s
  cases hr
  rw [run_check]
  simp [he, PlacedToken.kind_eq_mark.2 ht, hw]

theorem run_check_none (wanted : TokenKind → Bool) (hr : s.rest = t :: rest)
    (hw : wanted t.kind = false) : (check wanted).run s = .done none s := by
  obtain ⟨passed, _, depth⟩ := s
  cases hr
  rw [run_check]
  simp [hw]

/-- Reading the expression from the tokens is the same as going on with the loop of its level from
where they end, if no tighter loop goes on there. -/
def Absorbs (limit : Int) (room : Nat) (l : Level) (e : Expr) (ts : List PlacedToken) : Prop :=
  ∀ ⦃s s' : TokenStream⦄ ⦃t : PlacedToken⦄ ⦃rest : List PlacedToken⦄, s.Passes ts s' →
    s'.rest = t :: rest → l.tighter.Stops t.token →
    (ruleAt limit room l).run s = (loopAt limit room l e).run s'

theorem Absorbs.run (h : Absorbs limit room l e ts) (hp : s.Passes ts s') (hr : s'.rest = t :: rest)
    (ht : l.Stops t.token) : (ruleAt limit room l).run s = .done e s' :=
  (h hp hr (ht.of_rank_le l.rank_tighter_le)).trans (run_loopAt_of_stops hr ht)

theorem Absorbs.run_nested (h : Absorbs limit room l e ts) (hp : s.Passes ts s')
    (hr : s'.rest = t :: rest) (ht : l.Stops t.token) :
    (nested (ruleAt limit room l)).run s = .done e s' :=
  Grammar.run_nested hp (h.run (hp.withDepth _) hr ht)

/-- No expression of the primary level starts with a unary operator. -/
theorem head_of_derives_primary (h : Derives .primary room e ts) :
    ∃ t us, ts = t :: us ∧ ∀ m ∈ unaryOperators, t.token ≠ .mark m := by
  generalize hl : Level.primary = l at h
  induction h with
  | @literal _ t v h =>
    refine ⟨t, [], rfl, fun m hm ht => ?_⟩
    rw [ht] at h
    revert hm h
    cases m <;> simp [unaryOperators, Token.literal?]
  | named name a => exact ⟨_, [], rfl, fun m _ => by rintro ⟨⟩⟩
  | grouping a b => exact ⟨_, _, rfl, fun m hm h => by cases h; revert hm; decide⟩
  | unary => cases hl
  | binary ho =>
    subst hl
    cases ho
  | ternary => cases hl
  | @lift l _ _ _ _ ih =>
    subst hl
    exact ih rfl

theorem unary_eq (limit : Int) (room : Nat) :
    unary limit room = unaryOver limit (inner limit room) := by
  cases room <;> rfl

/-- Where no unary operator stands next, a unary expression is a primary one. -/
theorem run_unary_of_ne (hr : s.rest = t :: rest) (ht : ∀ m ∈ unaryOperators, t.token ≠ .mark m) :
    (unary limit room).run s = (primary (expression limit room)).run s := by
  have hcheck := run_check_none (fun k => unaryOperators.any fun m => k == .mark m) hr <|
    List.any_eq_false.2 fun m hm h => ht m hm (PlacedToken.kind_eq_mark.1 (by simpa using h))
  simp only [unary_eq, unaryOver, run_bind, hcheck, expression]

/-- What is read at the tighter level is read at the level, too. -/
theorem Absorbs.lift (h : Absorbs limit room l.tighter e ts) (hd : Derives l.tighter room e ts) :
    Absorbs limit room l e ts := by
  intro s s' t rest hp hr ht
  have htight : (ruleAt limit room l.tighter).run s = .done e s' := h.run hp hr ht
  rcases Nat.lt_or_ge l.rank Level.unary.rank with hl | hl
  · rw [ruleAt_eq hl, run_bind, htight]
  · rw [run_loopAt_of_stops hr (Level.stops_of_unary_le hl _), ← htight]
    cases l with
    | unary =>
      obtain ⟨u, us, rfl, hu⟩ := head_of_derives_primary hd
      exact run_unary_of_ne hp.rest hu
    | primary => rfl
    | _ => exact absurd hl (by decide)

/-- What is derived is read. -/
theorem absorbs_of_derives (limit : Int) (h : Derives l room e ts) :
    Absorbs limit room l e ts := by
  induction h with
  | @literal room u v h =>
    intro s s' t rest hp hr _
    rw [run_loopAt_of_stops hr (Level.stops_of_unary_le (by decide) _)]
    simp only [ruleAt, primary, run_bind, run_advance_of_passes hp, Token.literal?_eq_some.1 h]
    cases v with
    | boolean b => cases b <;> rfl
    | _ => rfl
  | named name a =>
    intro s s' t rest hp hr _
    rw [run_loopAt_of_stops hr (Level.stops_of_unary_le (by decide) _)]
    simp only [ruleAt, primary, run_bind, run_advance_of_passes hp, run_pure]
  | @grouping room e ts a b h ih =>
    intro s s' t rest hp hr _
    rw [run_loopAt_of_stops hr (Level.stops_of_unary_le (by decide) _)]
    obtain ⟨s₁, hp₁, hp'⟩ := hp.uncons
    obtain ⟨s₂, hp₂, hp₃⟩ := hp'.split
    have hbody : (expression limit (room + 1)).run s₁ = .done e s₂ :=
      ih.run_nested hp₂ hp₃.rest (Level.stops_of_not_operator (by decide) rfl)
    simp only [ruleAt, primary, run_bind, run_advance_of_passes hp₁, hbody,
      run_consume_of_passes hp₃ rfl, startOf, stopOf, run_pure]
  | @unary room o e ts a b ho h hb ih =>
    intro s s' t rest hp hr _
    rw [run_loopAt_of_stops hr (Level.stops_of_unary_le (by decide) _)]
    obtain ⟨s₁, hp₁, hp₂⟩ := hp.uncons
    have hright : (nested (delay fun _ => unary limit room)).run s₁ = .done e s' :=
      ih.run_nested hp₂ hr (Level.stops_of_unary_le (by decide) _)
    have hcheck := run_check_some (fun k => unaryOperators.any fun m => k == .mark m)
      hp₁.rest (hp₁.noEnd _ (List.mem_singleton_self _)) rfl (by simpa using ho)
    simp only [ruleAt, unary, unaryOver, run_bind, hcheck, run_advance_of_passes hp₁, hright,
      startOf, spanOf_eq hb, run_pure]
  | @binary l room o left right ts us u a b ho hl hu hr ha hb ihl ihr =>
    intro s s' t rest hp hrest ht
    obtain ⟨s₁, hp₁, hp'⟩ := hp.split
    obtain ⟨s₂, hp₂, hp₃⟩ := hp'.uncons
    rw [ihl hp₁ hp₂.rest (hu ▸ Level.stops_of_mem_operators ho)]
    refine run_loopAt_of_mem hp₂ hu (Level.mem_links_of_mem_operators ho) ?_
    have hl' : extendAt limit room l = extendBinary (ruleAt limit room l.tighter) := by
      cases l with
      | choice => cases ho
      | _ => rfl
    simp only [hl', extendBinary, run_bind, ihr.run hp₃ hrest ht, spanOf_eq ha, spanOf_eq hb,
      run_pure]
  | @ternary room c whenTrue whenFalse ts us vs q k a b hc hq ht hk hf ha hb ihc iht ihf =>
    intro s s' t rest hp hrest hstop
    obtain ⟨s₁, hp₁, hp'⟩ := hp.split
    obtain ⟨s₂, hp₂, hp'⟩ := hp'.uncons
    obtain ⟨s₃, hp₃, hp'⟩ := hp'.split
    obtain ⟨s₄, hp₄, hp₅⟩ := hp'.uncons
    rw [ihc hp₁ hp₂.rest (hq ▸ Level.stops_question)]
    refine run_loopAt_of_mem hp₂ hq (by decide) ?_
    have htrue := iht.run hp₃ hp₄.rest (hk ▸ Level.stops_of_not_operator (by decide) rfl)
    simp only [extendAt, extendTernary, run_bind, htrue, run_consume_of_passes hp₄ hk,
      ihf.run hp₅ hrest hstop, spanOf_eq ha, spanOf_eq hb, run_pure]
  | lift h ih => exact ih.lift h

/-- A derived expression is read, one level deeper than what holds it. -/
theorem run_expression (h : Derives .choice room e ts) (hp : s.Passes ts s')
    (hr : s'.rest = t :: rest) (ht : Level.choice.Stops t.token) :
    (expression limit (room + 1)).run s = .done e s' :=
  (absorbs_of_derives limit h).run_nested hp hr ht

/-! ## Statements -/

/-- A statement that is no declaration starts with a token of its own. -/
private theorem run_check_of_derives {m : Mark} (h : Derives .choice room e ts)
    (hp : s.Passes (ts ++ us) s') (hm : m ∉ Mark.inExpressions) :
    (check (· == .mark m)).run s = .done none s := by
  obtain ⟨u, vs, rfl⟩ := List.exists_cons_of_ne_nil h.ne_nil
  refine run_check_none _ hp.rest (beq_eq_false_iff_ne.2 fun hk => hm ?_)
  exact h.mem_inExpressions u (List.mem_cons_self ..) m (PlacedToken.kind_eq_mark.1 hk)

/-- A derived statement is read as what it is. -/
theorem run_declaration {levels : Nat} {st : Stmt} (h : StmtDerives levels st ts)
    (hp : s.Passes ts s') : (declaration (expression limit levels)).run s = .done st s' := by
  have hsemi : Level.choice.Stops (.mark .semicolon) :=
    Level.stops_of_not_operator (by decide) rfl
  cases h with
  | @expression room e us stop a b h hstop ha hb =>
    have hvar := run_check_of_derives (m := .varWord) h hp (by decide)
    have hprint := run_check_of_derives (m := .printWord) h hp (by decide)
    obtain ⟨s₁, hp₁, hp₂⟩ := hp.split
    simp only [declaration, statement, run_bind, hvar, hprint,
      run_expression h hp₁ hp₂.rest (hstop ▸ hsemi), run_consume_of_passes hp₂ hstop, spanOf_eq ha,
      stopOf_eq hb, run_pure]
  | @print room e us k stop a b hk h hstop ha hb =>
    obtain ⟨s₁, hp₁, hp'⟩ := hp.uncons
    obtain ⟨s₂, hp₂, hp₃⟩ := hp'.split
    have hend := hp₁.noEnd k (List.mem_singleton_self k)
    have hvar : (check (· == .mark .varWord)).run s = .done none s :=
      run_check_none _ hp₁.rest (by simp [PlacedToken.kind_eq_mark.2 hk])
    have hprint := run_check_some ((· == .mark .printWord)) hp₁.rest hend hk (by decide)
    simp only [declaration, statement, run_bind, hvar, hprint, run_advance_of_passes hp₁,
      run_expression h hp₂ hp₃.rest (hstop ▸ hsemi), run_consume_of_passes hp₃ hstop,
      startOf_eq ha, stopOf_eq hb, run_pure]
  | @bare levels k stop a b name c hk hstop ha hb =>
    obtain ⟨s₁, hp₁, hp'⟩ := hp.uncons
    obtain ⟨s₂, hp₂, hp₃⟩ := hp'.uncons
    have hend := hp₁.noEnd k (List.mem_singleton_self k)
    have hvar := run_check_some ((· == .mark .varWord)) hp₁.rest hend hk (by decide)
    have hname := run_consumeName_of_passes hp₂
    have hequal : (check (· == .mark .equal)).run s₂ = .done none s₂ :=
      run_check_none _ hp₃.rest (by simp [PlacedToken.kind_eq_mark.2 hstop])
    simp only [declaration, variableDeclaration, run_bind, hvar, run_advance_of_passes hp₁, hname,
      hequal, run_consume_of_passes hp₃ hstop, startOf_eq ha, stopOf_eq hb, run_pure]
  | @declaration room e us k equal stop a b name c hk hequal h hstop ha hb =>
    obtain ⟨s₁, hp₁, hp'⟩ := hp.uncons
    obtain ⟨s₂, hp₂, hp'⟩ := hp'.uncons
    obtain ⟨s₃, hp₃, hp'⟩ := hp'.uncons
    obtain ⟨s₄, hp₄, hp₅⟩ := hp'.split
    have hvar := run_check_some ((· == .mark .varWord)) hp₁.rest
      (hp₁.noEnd k (List.mem_singleton_self k)) hk (by decide)
    have hname := run_consumeName_of_passes hp₂
    have hcheck := run_check_some ((· == .mark .equal)) hp₃.rest
      (hp₃.noEnd equal (List.mem_singleton_self equal)) hequal (by decide)
    simp only [declaration, variableDeclaration, run_bind, run_map, hvar,
      run_advance_of_passes hp₁, hname, hcheck, run_advance_of_passes hp₃,
      run_expression h hp₄ hp₅.rest (hstop ▸ hsemi), run_consume_of_passes hp₅ hstop,
      startOf_eq ha, stopOf_eq hb, run_pure]

theorem run_topDeclaration {st : Stmt} (h : StmtDerives limit.toNat st ts) (hp : s.Passes ts s') :
    (topDeclaration limit).run s = .done st s' :=
  run_declaration h hp

end

end Grammar

end Lox
