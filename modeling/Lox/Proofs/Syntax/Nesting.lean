import Lox.Proofs.Syntax.Heredity
import Lox.Proofs.Syntax.Lockstep
import Lox.Proofs.Syntax.RoundTrip

/-!
# The nesting guard

The number of open levels rises where an expression or the operand of a unary operator starts, and
falls again where it ends, whether it was read or not. So a rule leaves as many levels open as it
found, and on its way it opens one level more than it has room for at most: the one that the guard
refuses.

* `Rule.Gauged`: both, for a rule, with one lemma for each way to build a rule.
* `Rule.gauged`: so both hold of the rules of the grammar.
* `TokenStream.Reaches`: the streams that parsing goes through, recovery included.
* `TokenStream.Reaches.depth`: how many levels are open in them.
* `parse_guards_nesting`: what the guard does for whole programs.
-/

namespace Lox

namespace Rule

variable {α β : Type} {r : Rule α} {f : α → Rule β} {room room' : Nat}

/-- However it ends, the rule leaves as many levels open as it found, and on its way it closes none
of them and opens at most `room` more. -/
structure Gauged (r : Rule α) (room : Nat) : Prop where
  balanced : ∀ s, (r.run s).stream.depth = s.depth
  bounded : ∀ s t, r.Visits s t → s.depth ≤ t.depth ∧ t.depth ≤ s.depth + room

theorem Gauged.done (h : r.Gauged room) {s s' : TokenStream} {a : α} (e : r.run s = .done a s') :
    s'.depth = s.depth := by
  have := h.balanced s
  rwa [e] at this

theorem gauged_pure (a : α) : (pure a : Rule α).Gauged room := ⟨fun _ => rfl, fun _ _ h => h.elim⟩

theorem gauged_fail (why : Failure) : (fail why : Rule α).Gauged room :=
  ⟨fun _ => rfl, fun _ _ h => h.elim⟩

theorem gauged_stream : stream.Gauged room := ⟨fun _ => rfl, fun _ _ h => h.elim⟩

theorem Gauged.bind (hr : r.Gauged room) (hf : ∀ a, (f a).Gauged room) :
    (r >>= f).Gauged room where
  balanced s := by
    have h := hr.balanced s
    rw [run_bind]
    cases e : r.run s with
    | done a s' => exact ((hf a).balanced s').trans (hr.done e)
    | failed why s' => rwa [e] at h
  bounded s t h := by
    obtain h | ⟨a, s', e, h⟩ := visits_bind.mp h
    · exact hr.bounded s t h
    · exact hr.done e ▸ (hf a).bounded s' t h

theorem gauged_head : head.Gauged room where
  balanced := by
    rintro ⟨passed, _ | ⟨t, ts⟩, depth⟩ <;> rfl
  bounded _ _ h := h.elim

theorem gauged_advance : advance.Gauged room where
  balanced := by
    rintro ⟨passed, _ | ⟨t, ts⟩, depth⟩
    · rfl
    · cases ht : t.isEnd <;> simp [ht, Outcome.stream]
  bounded := by
    rintro s _ ⟨t, ts, -, -, rfl⟩
    exact ⟨Nat.le_refl _, Nat.le_add_right ..⟩

/-- A nested rule opens its own level and those of the rule inside. -/
theorem Gauged.nested (h : r.Gauged room) : (nested r).Gauged (room + 1) where
  balanced s := by
    have hin := h.balanced { s with depth := s.depth + 1 }
    simp only [Rule.nested]
    revert hin
    cases r.run { s with depth := s.depth + 1 } with
    | done a s' | failed why s' =>
      simp only [Outcome.mapStream, Outcome.stream]
      omega
  bounded s t hv := by
    have hin := h.balanced { s with depth := s.depth + 1 }
    obtain rfl | hv | rfl := hv
    · dsimp only
      omega
    · have := h.bounded _ t hv
      dsimp only at this
      omega
    · dsimp only at hin ⊢
      omega

theorem gauged_chain {operators : List Mark} {extend : Expr → Mark → Rule Expr}
    (h : ∀ e m, (extend e m).Gauged room) (left : Expr) :
    (chain operators extend left).Gauged room where
  balanced s := by
    change (chainFrom operators extend left s).stream.depth = s.depth
    induction left, s using chainFrom.induct operators extend with
    | case1 left s hs => simp [chainFrom_eq, hs, Outcome.stream]
    | case2 left s t ts hs hm => simp [chainFrom_eq, hs, hm, Outcome.stream]
    | case3 left s t ts hs m hm why s' e =>
      have := (h left m).balanced { s with passed := t :: s.passed, rest := ts }
      rw [e] at this
      simpa only [chainFrom_eq, hs, hm, e] using this
    | case4 left s t ts hs m hm longer s' e ih =>
      rw [chainFrom_eq]
      simp only [hs, hm, e]
      have hround := (h left m).done e
      exact ih.trans hround
  bounded s t hv := by
    induction hv with
    | operator => exact ⟨Nat.le_refl _, Nat.le_add_right ..⟩
    | round _ _ hv =>
      have hround := (h _ _).bounded _ _ hv
      exact hround
    | later _ _ e _ ih =>
      have hround := (h _ _).done e
      dsimp only at hround
      exact hround ▸ ih

/-- So the rules of the grammar keep to the levels that they have room for. -/
theorem gauged (limit : Int) : Hereditary limit fun room _ r => r.Gauged room where
  pure := gauged_pure
  fail _ := gauged_fail _
  stream := gauged_stream
  head := gauged_head
  advance := gauged_advance
  bind := Gauged.bind
  nested := Gauged.nested
  chain left _ h := gauged_chain h left

end Rule

/-! ## Whole programs -/

namespace TokenStream

/-- Parsing goes from the first stream through the second one. -/
inductive Reaches (limit : Int) : TokenStream → TokenStream → Prop where
  | start (s : TokenStream) : Reaches limit s s
  /-- Within a declaration. -/
  | declaration {s v : TokenStream} {t : PlacedToken} {rest : List PlacedToken} :
    s.rest = t :: rest → t.isEnd = false → (Grammar.topDeclaration limit).Visits s v →
    Reaches limit s v
  /-- On the way from where a declaration failed to where the next one starts. -/
  | recovery {s failed v s' : TokenStream} {t : PlacedToken} {rest ts us : List PlacedToken}
      {d : Diagnostic} :
    s.rest = t :: rest → t.isEnd = false →
    (Grammar.topDeclaration limit).run s = .failed (.diagnostic d) failed →
    recover s failed = .ok s' → failed.Passes ts v → v.Passes us s' → Reaches limit s v
  /-- Behind the first round. -/
  | later {s s' v : TokenStream} {t : PlacedToken} {rest : List PlacedToken} {item : Item} :
    s.rest = t :: rest → t.isEnd = false → round limit s = .ok (item, s') → Reaches limit s' v →
    Reaches limit s v

/-- Skipping opens and closes no level. -/
theorem recover_depth {s failed s' : TokenStream} (h : recover s failed = .ok s') :
    s'.depth = failed.depth := by
  have stepped (u : TokenStream) : u.stepOver.depth = u.depth := by
    rw [stepOver]
    split <;> rfl
  unfold recover synchronize at h
  cases e : skip failed.passed failed.rest with
  | error f => simp [e, Except.map] at h
  | ok r =>
    rw [e] at h
    cases h
    dsimp only
    split
    · rfl
    · exact stepped _

theorem round_depth {limit : Int} {s s' : TokenStream} {item : Item}
    (h : round limit s = .ok (item, s')) : s'.depth = s.depth := by
  have balanced := (Rule.gauged limit).topDeclaration.balanced s
  obtain ⟨st, -, e⟩ | ⟨d, failed, -, e, hrec⟩ := exists_of_round h
  · rwa [e] at balanced
  · rw [e] at balanced
    exact (recover_depth hrec).trans balanced

/-- Parsing opens one level beyond the limit at most, and closes none that was open before. -/
theorem Reaches.depth {limit : Int} {s v : TokenStream} (h : Reaches limit s v) :
    s.depth ≤ v.depth ∧ v.depth ≤ s.depth + (limit.toNat + 1) := by
  have gauged := (Rule.gauged limit).topDeclaration
  induction h with
  | start s => exact ⟨Nat.le_refl _, Nat.le_add_right ..⟩
  | declaration _ _ hv => exact gauged.bounded _ _ hv
  | @recovery s failed v _ _ _ _ _ _ _ _ e _ hp _ =>
    have balanced := gauged.balanced s
    rw [e] at balanced
    rw [hp.depth, show failed.depth = s.depth from balanced]
    exact ⟨Nat.le_refl _, Nat.le_add_right ..⟩
  | later _ _ hround _ ih => exact round_depth hround ▸ ih

end TokenStream

/-- What is read opens no more levels than the limit allows. While it is read, one more is open at
most, and none where a round starts or ends; every rule leaves as many levels open as it found,
whether it reads something or fails. A larger limit makes no difference where the limit was not
met. -/
theorem parse_guards_nesting {tokens : List PlacedToken} {limit : Int} (hlimit : 0 ≤ limit)
    (placed : ∀ t ∈ tokens, t.span.isSome) (ended : ∃ t ∈ tokens, t.isEnd) :
    ∃ p, parse tokens limit = .ok p ∧
      (∀ st ∈ p.statements, ∀ e ∈ st.body?, 1 + (e.nesting : Int) ≤ limit) ∧
      (∀ v, TokenStream.Reaches limit (.ofTokens tokens) v → (v.depth : Int) ≤ limit + 1) ∧
      (∀ items ranges s, TokenStream.Rounds limit (.ofTokens tokens) items ranges s →
        s.depth = 0) ∧
      (∀ room l, (Grammar.ruleAt limit room l).Gauged (room + 1)) ∧
      (∀ room, (Grammar.expression limit room).Gauged (room + 1) ∧
        (Grammar.variableDeclaration (Grammar.expression limit room)).Gauged (room + 1) ∧
        (Grammar.statement (Grammar.expression limit room)).Gauged (room + 1) ∧
        (Grammar.declaration (Grammar.expression limit room)).Gauged (room + 1)) ∧
      ((∀ d ∈ p.errors, d.cause ≠ .nesting limit) →
        ∀ limit', limit ≤ limit' → parse tokens limit' = .ok p) := by
  obtain ⟨p, parsed, derived⟩ := exists_parse limit placed ended
  refine ⟨p, parsed, fun st hst e he => ?_, fun v hv => ?_, fun items ranges s hrounds => ?_,
    (Rule.gauged limit).ruleAt, (Rule.gauged limit).overExpression,
    fun fits limit' hle => parse_of_limit_le placed ended hle parsed fits⟩
  · obtain ⟨ts, hd, -⟩ := derived st hst
    have hlt := hd.nesting_lt e he
    omega
  · have hdepth : v.depth ≤ 0 + (limit.toNat + 1) := hv.depth.2
    omega
  · exact hrounds.passes.depth

/-- Parentheses take a level next to the one of the expression. -/
theorem parse_guards_nesting_parentheses : ∃ p, parse [⟨.mark .leftParen, some {}⟩,
      ⟨.mark .nilWord, some {}⟩, ⟨.mark .rightParen, some {}⟩, ⟨.mark .semicolon, some {}⟩,
      ⟨.mark .endOfFile, some {}⟩] 2 = .ok p ∧
    (∀ st ∈ p.statements, ∀ e ∈ st.body?, 1 + (e.nesting : Int) ≤ 2) := by
  obtain ⟨p, parsed, within, -⟩ := @parse_guards_nesting [⟨.mark .leftParen, some {}⟩,
    ⟨.mark .nilWord, some {}⟩, ⟨.mark .rightParen, some {}⟩, ⟨.mark .semicolon, some {}⟩,
    ⟨.mark .endOfFile, some {}⟩] 2 (by decide) (by decide) (by decide)
  exact ⟨p, parsed, within⟩

end Lox
