import Lox.Proofs.Syntax.Running

/-!
# What a rule does not see

A rule looks no further ahead than the token that stands next, and no further back than the latest
token read. So it does the same on a stream with more tokens behind, unless it ran out of tokens
without them, and with more tokens before, unless there was no latest token to look at. A rule that
reads a token before it looks back does the same whatever was read before it.

* `TokenStream.within`: a stream with more tokens on both sides.
* `Rule.Frames`: the rule does not see them.
* `Rule.Opens`: the rule starts with reading, and does not see what was read before.
* `Grammar.frames_topDeclaration`, `Grammar.selfContained_topDeclaration`: the first holds of
  declarations, and both do where there is room for a level.
-/

namespace Lox

/-- The stream with more tokens read before, and more to come behind. -/
def TokenStream.within (s : TokenStream) (before after : List PlacedToken) : TokenStream :=
  ⟨s.passed ++ before, s.rest ++ after, s.depth⟩

namespace TokenStream

/-- With a token read, or with nothing in front, the latest token is the same. -/
theorem head?_within {s : TokenStream} {before : List PlacedToken} (after : List PlacedToken)
    (h : s.passed ≠ [] ∨ before = []) : (s.within before after).passed.head? = s.passed.head? := by
  obtain ⟨passed, rest, depth⟩ := s
  cases passed with
  | nil => simp [within, h.resolve_left (by simp)]
  | cons t ts => rfl

theorem previousSpan_within {s : TokenStream} {before : List PlacedToken}
    (after : List PlacedToken) (h : s.passed ≠ [] ∨ before = []) :
    (s.within before after).previousSpan = s.previousSpan := by
  simp only [previousSpan, head?_within after h]

theorem isEmpty_within {s : TokenStream} {before : List PlacedToken} (after : List PlacedToken)
    (h : s.passed ≠ [] ∨ before = []) :
    (s.within before after).passed.isEmpty = s.passed.isEmpty := by
  have hhead := head?_within after h
  revert hhead
  cases (s.within before after).passed <;> cases s.passed <;> simp

end TokenStream

/-- The rule met the end of the list where it wanted to look at a token. -/
def Outcome.Starved {α : Type} (o : Outcome α) : Prop := ∃ s, o = .failed (.fault .missingEnd) s

theorem Outcome.Starved.mapStream {α : Type} {o : Outcome α} (h : o.Starved)
    (g : TokenStream → TokenStream) : (o.mapStream g).Starved := by
  obtain ⟨s, rfl⟩ := h
  exact ⟨g s, rfl⟩

theorem Outcome.Starved.cast {α β : Type} {why : Failure} {s : TokenStream}
    (h : (Outcome.failed why s : Outcome α).Starved) :
    (Outcome.failed why s : Outcome β).Starved := by
  obtain ⟨s', h⟩ := h
  cases h
  exact ⟨s, rfl⟩

theorem not_starved_done {α : Type} {a : α} {s : TokenStream} : ¬ (Outcome.done a s).Starved := by
  rintro ⟨s', h⟩
  cases h

namespace Rule

variable {α β : Type} {r : Rule α} {f : α → Rule β}

/-- The rule does not see tokens far before and far behind. -/
structure Frames (r : Rule α) : Prop where
  run_within : ∀ s before after, (s.passed ≠ [] ∨ before = []) →
    (after ≠ [] → ¬ (r.run s).Starved) →
    r.run (s.within before after) = (r.run s).mapStream (·.within before after)
  keeps : ∀ s, s.passed ≠ [] → (r.run s).stream.passed ≠ []

/-- The rule starts with reading the token that stands next, unless that is the end mark. -/
structure Opens (r : Rule α) : Prop where
  run_within : ∀ t rest depth before, t.isEnd = false → r.run ⟨before, t :: rest, depth⟩ =
    (r.run ⟨[], t :: rest, depth⟩).mapStream (·.within before [])
  moves : ∀ t rest depth, t.isEnd = false → (r.run ⟨[], t :: rest, depth⟩).stream.passed ≠ []

theorem frames_pure (a : α) : (pure a : Rule α).Frames := ⟨fun _ _ _ _ _ => rfl, fun _ h => h⟩

theorem frames_fail (why : Failure) : (fail why : Rule α).Frames :=
  ⟨fun _ _ _ _ _ => rfl, fun _ h => h⟩

theorem frames_report (cause : Cause) (span : Option Span) :
    (report cause span : Rule α).Frames := frames_fail _

theorem Frames.bind (hr : r.Frames) (hf : ∀ a, (f a).Frames) : (r >>= f).Frames where
  run_within s before after hb ha := by
    rw [run_bind] at ha ⊢
    have hrun := hr.run_within s before after hb
    have hkeeps := hr.keeps s
    rw [run_bind]
    cases e : r.run s with
    | done a s' =>
      rw [e] at ha hrun hkeeps
      rw [hrun fun _ => not_starved_done]
      exact (hf a).run_within s' before after (hb.imp_left hkeeps) ha
    | failed why s' =>
      rw [e] at ha hrun
      rw [hrun fun h hf => ha h hf.cast]
      rfl
  keeps s hs := by
    have hkeeps := hr.keeps s hs
    rw [run_bind]
    cases e : r.run s with
    | done a s' => exact (hf a).keeps s' (by rwa [e] at hkeeps)
    | failed why s' => rwa [e] at hkeeps

theorem Frames.map (hr : r.Frames) (g : α → β) : (g <$> r).Frames :=
  hr.bind fun a => frames_pure (g a)

/-- Looking at the latest token read, or at whether there is one, is looking no further back. -/
theorem frames_stream {f : TokenStream → Rule β} (hf : ∀ s, (f s).Frames)
    (h : ∀ (s : TokenStream) before after, (s.passed ≠ [] ∨ before = []) →
      f (s.within before after) = f s) : (stream >>= f).Frames where
  run_within s before after hb ha := by
    change (f (s.within before after)).run _ = _
    rw [h s before after hb]
    exact (hf s).run_within s before after hb ha
  keeps s := (hf s).keeps s

theorem frames_head : head.Frames where
  run_within := by
    rintro ⟨passed, rest, depth⟩ before after - ha
    cases rest with
    | nil =>
      cases after with
      | nil => rfl
      | cons t ts => exact absurd ⟨_, rfl⟩ (ha (by simp))
    | cons t ts => rfl
  keeps := by
    rintro ⟨passed, rest, depth⟩ h
    cases rest <;> exact h

theorem frames_advance : advance.Frames where
  run_within := by
    rintro ⟨passed, rest, depth⟩ before after - ha
    cases rest with
    | nil =>
      cases after with
      | nil => rfl
      | cons t ts => exact absurd ⟨_, rfl⟩ (ha (by simp))
    | cons t ts =>
      cases ht : t.isEnd <;> simp [advance, TokenStream.within, ht, Outcome.mapStream]
  keeps := by
    rintro ⟨passed, rest, depth⟩ h
    cases rest with
    | nil => exact h
    | cons t ts => cases ht : t.isEnd <;> simp_all [advance, Outcome.stream]

theorem opens_advance : advance.Opens where
  run_within t rest depth before ht := by simp [ht, Outcome.mapStream, TokenStream.within]
  moves t rest depth ht := by simp [ht, Outcome.stream]

/-- A rule that starts with reading has read something when it ends. -/
theorem Opens.ne_nil (hr : r.Opens) {s : TokenStream} {t : PlacedToken}
    {rest ts : List PlacedToken} (hs : s.rest = t :: rest) (ht : t.isEnd = false)
    (hp : s.Passes ts (r.run s).stream) : ts ≠ [] := by
  obtain ⟨passed, _, depth⟩ := s
  cases hs
  rintro rfl
  have hpassed : (r.run ⟨passed, t :: rest, depth⟩).stream.passed = passed := hp.passed
  rw [hr.run_within t rest depth passed ht] at hpassed
  have hmoves := hr.moves t rest depth ht
  cases e : r.run ⟨[], t :: rest, depth⟩ <;>
    simp_all [Outcome.mapStream, Outcome.stream, TokenStream.within]

/-- Whatever follows the reading of a token sees that token at most. -/
theorem Opens.bind (hr : r.Opens) (hf : ∀ a, (f a).Frames) : (r >>= f).Opens where
  run_within t rest depth before ht := by
    have hrun := hr.run_within t rest depth before ht
    have hmoves := hr.moves t rest depth ht
    simp only [run_bind, hrun]
    cases e : r.run ⟨[], t :: rest, depth⟩ with
    | done a s' =>
      rw [e] at hmoves
      exact (hf a).run_within s' before [] (.inl hmoves) fun h => absurd rfl h
    | failed why s' => rfl
  moves t rest depth ht := by
    have hmoves := hr.moves t rest depth ht
    rw [run_bind]
    cases e : r.run ⟨[], t :: rest, depth⟩ with
    | done a s' => exact (hf a).keeps s' (by rwa [e] at hmoves)
    | failed why s' => rwa [e] at hmoves

theorem frames_check (wanted : TokenKind → Bool) : (check wanted).Frames :=
  (frames_head.map _).map _

/-- A rule that looks at the next token first starts with reading if it does so then. -/
theorem opens_check {wanted : TokenKind → Bool} {f : Option PlacedToken → Rule β}
    (hf : ∀ o, (f o).Opens) : (check wanted >>= f).Opens where
  run_within t rest depth before ht := by
    simp only [run_bind, run_check]
    exact (hf _).run_within t rest depth before ht
  moves t rest depth ht := by
    simp only [run_bind, run_check]
    exact (hf _).moves t rest depth ht

theorem frames_consumeWith (wanted : TokenKind) (read : Token → Option α) :
    (consumeWith wanted read).Frames := by
  refine frames_advance.bind fun o => ?_
  cases o with
  | none => exact frames_head.bind fun _ => frames_report _ _
  | some t =>
    dsimp only
    split
    · exact frames_pure _
    · exact frames_report _ _

theorem frames_consume (wanted : TokenKind) : (consume wanted).Frames :=
  (frames_consumeWith wanted _).bind fun _ => frames_pure _

theorem frames_consumeName : consumeName.Frames :=
  (frames_consumeWith _ _).bind fun _ => frames_pure _

theorem frames_startOf (t : PlacedToken) : (startOf t).Frames := by
  unfold startOf
  split
  · exact frames_pure _
  · exact frames_fail _

theorem frames_stopOf (t : PlacedToken) : (stopOf t).Frames := by
  unfold stopOf
  split
  · exact frames_pure _
  · exact frames_fail _

theorem frames_spanOf (e : Expr) : (spanOf e).Frames := by
  unfold spanOf
  split
  · exact frames_pure _
  · exact frames_fail _

theorem mapStream_mapStream (o : Outcome α) (g h : TokenStream → TokenStream) :
    (o.mapStream g).mapStream h = o.mapStream (h ∘ g) := by cases o <;> rfl

theorem Frames.nested (hr : r.Frames) : (nested r).Frames where
  run_within s before after hb ha := by
    have hrun := hr.run_within { s with depth := s.depth + 1 } before after hb fun h hs =>
      ha h (hs.mapStream _)
    simp only [Rule.nested]
    change Outcome.mapStream _ (r.run (TokenStream.within { s with depth := s.depth + 1 } _ _)) = _
    rw [hrun]
    cases r.run { s with depth := s.depth + 1 } <;> rfl
  keeps s hs := by
    have h := hr.keeps { s with depth := s.depth + 1 } hs
    simp only [Rule.nested]
    revert h
    cases r.run _ <;> exact id

theorem Opens.nested (hr : r.Opens) : (nested r).Opens where
  run_within t rest depth before ht := by
    simp only [Rule.nested, hr.run_within t rest (depth + 1) before ht]
    cases r.run ⟨[], t :: rest, depth + 1⟩ <;> rfl
  moves t rest depth ht := by
    have h := hr.moves t rest (depth + 1) ht
    simp only [Rule.nested]
    revert h
    cases r.run _ <;> exact id

theorem frames_chain {operators : List Mark} {extend : Expr → Mark → Rule Expr}
    (h : ∀ e m, (extend e m).Frames) (left : Expr) : (chain operators extend left).Frames where
  run_within s before after hb ha := by
    change chainFrom _ _ _ _ = (chainFrom _ _ _ _).mapStream _
    change after ≠ [] → ¬ (chainFrom _ _ _ _).Starved at ha
    induction left, s using chainFrom.induct operators extend with
    | case1 left s hs =>
      cases after with
      | nil => simp [chainFrom_eq, TokenStream.within, hs, Outcome.mapStream]
      | cons t ts => exact absurd ⟨s, by simp [chainFrom_eq, hs]⟩ (ha (by simp))
    | case2 left s t ts hs hm =>
      simp [chainFrom_eq, TokenStream.within, hs, hm, Outcome.mapStream]
    | case3 left s t ts hs m hm why s' e =>
      have hstep := (h left m).run_within ⟨t :: s.passed, ts, s.depth⟩ before after (.inl (by simp))
      rw [e] at hstep
      rw [chainFrom_eq] at ha ⊢
      simp only [hs, hm, e] at ha
      simp only [TokenStream.within, List.cons_append] at hstep
      simp only [chainFrom_eq _ _ left s, TokenStream.within, hs, hm, e, List.cons_append,
        hstep fun hne hf => ha hne hf.cast]
      rfl
    | case4 left s t ts hs m hm longer s' e ih =>
      have hstep := (h left m).run_within ⟨t :: s.passed, ts, s.depth⟩ before after (.inl (by simp))
      have hkeeps := (h left m).keeps ⟨t :: s.passed, ts, s.depth⟩ (by simp)
      rw [e] at hstep hkeeps
      have hrun : chainFrom operators extend left s = chainFrom operators extend longer s' := by
        simp only [chainFrom_eq _ _ left, hs, hm, e]
      rw [hrun] at ha ⊢
      rw [chainFrom_eq]
      simp only [TokenStream.within, List.cons_append] at hstep
      simp only [TokenStream.within, hs, hm, List.cons_append, hstep fun _ => not_starved_done]
      exact ih (.inl hkeeps) ha
  keeps s hne := by
    change (chainFrom _ _ _ _).stream.passed ≠ []
    induction left, s using chainFrom.induct operators extend with
    | case1 left s hs => simpa [chainFrom_eq, hs, Outcome.stream] using hne
    | case2 left s t ts hs hm => simpa [chainFrom_eq, hs, hm, Outcome.stream] using hne
    | case3 left s t ts hs m hm why s' e =>
      have hkeeps := (h left m).keeps ⟨t :: s.passed, ts, s.depth⟩ (by simp)
      rw [e] at hkeeps
      simpa only [chainFrom_eq, hs, hm, e] using hkeeps
    | case4 left s t ts hs m hm longer s' e ih =>
      have hkeeps := (h left m).keeps ⟨t :: s.passed, ts, s.depth⟩ (by simp)
      rw [e] at hkeeps
      rw [chainFrom_eq]
      simp only [hs, hm, e]
      exact ih hkeeps

/-! ## Both together -/

/-- The rule sees no tokens far before and far behind, and reads one before it looks back. -/
structure SelfContained (r : Rule α) : Prop where
  frames : r.Frames
  opens : r.Opens

theorem SelfContained.bind (hr : r.SelfContained) (hf : ∀ a, (f a).Frames) :
    (r >>= f).SelfContained :=
  ⟨hr.frames.bind hf, hr.opens.bind hf⟩

theorem SelfContained.nested (hr : r.SelfContained) : (nested r).SelfContained :=
  ⟨hr.frames.nested, hr.opens.nested⟩

theorem selfContained_advance : advance.SelfContained := ⟨frames_advance, opens_advance⟩

theorem selfContained_check {wanted : TokenKind → Bool} {f : Option PlacedToken → Rule β}
    (hf : ∀ o, (f o).SelfContained) : (check wanted >>= f).SelfContained :=
  ⟨(frames_check wanted).bind fun o => (hf o).frames, opens_check fun o => (hf o).opens⟩

/-- A self-contained rule does the same with more tokens around, whatever was read before. -/
theorem SelfContained.run_within (hr : r.SelfContained) {s : TokenStream} {t : PlacedToken}
    {rest before after : List PlacedToken} (hs : s.rest = t :: rest) (ht : t.isEnd = false)
    (ha : after ≠ [] → ¬ (r.run s).Starved) :
    r.run (s.within before after) = (r.run s).mapStream (·.within before after) := by
  obtain ⟨passed, _, depth⟩ := s
  cases hs
  cases passed with
  | cons u us => exact hr.frames.run_within _ before after (.inl (by simp)) ha
  | nil =>
    have hbefore := hr.opens.run_within t (rest ++ after) depth before ht
    have hafter := hr.frames.run_within ⟨[], t :: rest, depth⟩ [] after (.inr rfl) ha
    simp only [TokenStream.within, List.nil_append, List.cons_append, List.append_nil] at *
    rw [hbefore, hafter, mapStream_mapStream]
    rfl

end Rule

/-! ## The grammar -/

namespace Grammar

open Rule

variable {limit : Int} {unary expression : Rule Expr} {inner : Option (Rule Expr)}

theorem selfContained_leftAssociative {operators : List Mark} {operand : Rule Expr}
    (h : operand.SelfContained) : (leftAssociative operators operand).SelfContained :=
  h.bind <| frames_chain fun _ _ => h.frames.bind fun _ => (frames_spanOf _).bind fun _ =>
    (frames_spanOf _).bind fun _ => frames_pure _

theorem selfContained_equality (h : unary.SelfContained) : (equality unary).SelfContained :=
  selfContained_leftAssociative <| selfContained_leftAssociative <|
    selfContained_leftAssociative <| selfContained_leftAssociative h

theorem selfContained_ternary (h : unary.SelfContained) : (ternary unary).SelfContained := by
  have operand := selfContained_equality h
  exact operand.bind <| frames_chain fun _ _ => operand.frames.bind fun _ =>
    (frames_consume _).bind fun _ => operand.frames.bind fun _ => (frames_spanOf _).bind fun _ =>
      (frames_spanOf _).bind fun _ => frames_pure _

/-- At the limit an expression reads nothing, and its report points to the latest token. -/
theorem frames_expressionOver (h : ∀ unary ∈ inner, unary.SelfContained) :
    (expressionOver limit inner).Frames := by
  cases inner with
  | some unary => exact (selfContained_ternary (h unary rfl)).nested.frames
  | none =>
    refine Frames.nested <| frames_stream (fun _ => frames_report _ _) fun s before after hb => ?_
    rw [TokenStream.previousSpan_within after hb]

theorem selfContained_primary (h : expression.Frames) : (primary expression).SelfContained := by
  refine selfContained_advance.bind fun o => ?_
  cases o with
  | none =>
    refine frames_head.bind fun stop => ?_
    refine frames_stream (fun _ => frames_report _ _) fun s before after hb => ?_
    rw [TokenStream.previousSpan_within after hb, TokenStream.isEmpty_within after hb]
  | some t =>
    dsimp only
    split
    iterate 6 exact frames_pure _
    · exact h.bind fun _ => (frames_consume _).bind fun _ => (frames_startOf _).bind fun _ =>
        (frames_stopOf _).bind fun _ => frames_pure _
    · exact frames_report _ _

theorem selfContained_unaryOver (h : ∀ unary ∈ inner, unary.SelfContained) :
    (unaryOver limit inner).SelfContained := by
  refine selfContained_check fun o => ?_
  split
  · rename_i operator span
    refine selfContained_advance.bind fun _ => ?_
    have finish (right : Expr) : (do
        let span := (← startOf ⟨.mark operator, span⟩).join (← spanOf right)
        pure (.unary (.mark operator) right (some span)) : Rule Expr).Frames :=
      (frames_startOf _).bind fun _ => (frames_spanOf _).bind fun _ => frames_pure _
    cases inner with
    | none => exact (frames_report _ _).nested.bind finish
    | some unary => exact (h unary rfl).nested.frames.bind finish
  · exact selfContained_primary (frames_expressionOver h)

theorem selfContained_unary (limit : Int) (room : Nat) :
    (Grammar.unary limit room).SelfContained := by
  induction room with
  | zero => exact selfContained_unaryOver (by rintro _ ⟨⟩)
  | succ room ih =>
    refine selfContained_unaryOver ?_
    rintro _ ⟨⟩
    exact ih

theorem selfContained_expression (limit : Int) (room : Nat) :
    (Grammar.expression limit (room + 1)).SelfContained :=
  (selfContained_ternary (selfContained_unary limit room)).nested

theorem selfContained_variableDeclaration (h : expression.Frames) :
    (variableDeclaration expression).SelfContained := by
  refine selfContained_advance.bind fun o => ?_
  cases o with
  | none => exact frames_head.bind fun _ => frames_report _ _
  | some keyword =>
    refine frames_consumeName.bind fun name => (frames_check _).bind fun equal => ?_
    have finish (initial : Option Expr) : (do
        let stop ← consume (.mark .semicolon)
        let span := (← startOf keyword).join (← stopOf stop)
        pure (.declaration name initial (some span)) : Rule Stmt).Frames :=
      (frames_consume _).bind fun _ => (frames_startOf _).bind fun _ =>
        (frames_stopOf _).bind fun _ => frames_pure _
    cases equal with
    | none => exact (frames_pure none).bind finish
    | some _ => exact frames_advance.bind fun _ => (h.map some).bind finish

theorem selfContained_statement (h : expression.SelfContained) :
    (statement expression).SelfContained := by
  refine selfContained_check fun o => ?_
  cases o with
  | some keyword =>
    exact selfContained_advance.bind fun _ => h.frames.bind fun _ =>
      (frames_consume _).bind fun _ => (frames_startOf _).bind fun _ =>
        (frames_stopOf _).bind fun _ => frames_pure _
  | none =>
    exact h.bind fun _ => (frames_consume _).bind fun _ => (frames_spanOf _).bind fun _ =>
      (frames_stopOf _).bind fun _ => frames_pure _

theorem selfContained_declaration (h : expression.SelfContained) :
    (declaration expression).SelfContained := by
  refine selfContained_check fun o => ?_
  cases o with
  | some _ => exact selfContained_variableDeclaration h.frames
  | none => exact selfContained_statement h

/-- Without room for a level nothing need be read, but no rule sees more than with room. -/
theorem frames_expression (limit : Int) (room : Nat) :
    (Grammar.expression limit room).Frames := by
  refine frames_expressionOver ?_
  cases room with
  | zero => rintro _ ⟨⟩
  | succ room =>
    rintro _ ⟨⟩
    exact selfContained_unary limit room

theorem frames_statement (h : expression.Frames) : (statement expression).Frames := by
  refine (frames_check _).bind fun o => ?_
  cases o with
  | some keyword =>
    exact frames_advance.bind fun _ => h.bind fun _ => (frames_consume _).bind fun _ =>
      (frames_startOf _).bind fun _ => (frames_stopOf _).bind fun _ => frames_pure _
  | none =>
    exact h.bind fun _ => (frames_consume _).bind fun _ => (frames_spanOf _).bind fun _ =>
      (frames_stopOf _).bind fun _ => frames_pure _

theorem frames_topDeclaration (limit : Int) : (topDeclaration limit).Frames := by
  have expression := frames_expression limit limit.toNat
  refine (frames_check _).bind fun o => ?_
  cases o with
  | some _ => exact (selfContained_variableDeclaration expression).frames
  | none => exact frames_statement expression

/-- With room for one level, a declaration is read on its own. -/
theorem selfContained_topDeclaration {limit : Int} (h : 1 ≤ limit) :
    (topDeclaration limit).SelfContained := by
  obtain ⟨room, hroom⟩ : ∃ room, limit.toNat = room + 1 := ⟨limit.toNat - 1, by omega⟩
  rw [topDeclaration, hroom]
  exact selfContained_declaration (selfContained_expression limit room)

end Grammar

end Lox
