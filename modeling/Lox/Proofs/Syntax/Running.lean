import Lox.Syntax.Program

/-!
# What a rule does to its stream

A rule reads a run of tokens from the front of its stream and leaves the rest as it was. This module
says so once, in the form of a triple, so that what a rule of the grammar does is put together from
what its parts do.

* `TokenStream.Passes`: some tokens were read from one stream, and another one was reached.
* `TokenStream.Ready`: every token has a place, and a semicolon or the end mark lies ahead.
* `Rule.Ensures`: what holds of the tokens read when the rule gives a value, and what when it fails,
  with one lemma for each way to build a rule; `Rule.ensures_chain` is the one for loops.
* `Cause.Arises`: the causes of its reports, which quote what it has read.
* `Breaks`: how a rule of the grammar fails: with such a report that points to a token it has seen,
  and with a semicolon at most as the last token read.
-/

namespace Lox

namespace PlacedToken

/-- The token is a semicolon. -/
def isSemicolon (t : PlacedToken) : Bool := t.kind == .mark .semicolon

theorem isSemicolon_iff {t : PlacedToken} : t.isSemicolon = true ↔ t.token = .mark .semicolon := by
  obtain ⟨token, span⟩ := t
  cases token <;> simp [isSemicolon, kind, Token.kind]

theorem isEnd_iff {t : PlacedToken} : t.isEnd = true ↔ t.token = .mark .endOfFile := by
  obtain ⟨token, span⟩ := t
  cases token <;> simp [isEnd, kind, Token.kind]

theorem kind_eq_mark {t : PlacedToken} {m : Mark} : t.kind = .mark m ↔ t.token = .mark m := by
  obtain ⟨token, span⟩ := t
  cases token <;> simp [kind, Token.kind]

theorem isSemicolon_of_ne {t : PlacedToken} {m : Mark} (ht : t.token = .mark m)
    (hm : m ≠ .semicolon) : t.isSemicolon = false :=
  Bool.eq_false_iff.2 fun h => hm (Token.mark.inj (ht.symm.trans (isSemicolon_iff.1 h)))

theorem isEnd_of_ne {t : PlacedToken} {m : Mark} (ht : t.token = .mark m) (hm : m ≠ .endOfFile) :
    t.isEnd = false :=
  Bool.eq_false_iff.2 fun h => hm (Token.mark.inj (ht.symm.trans (isEnd_iff.1 h)))

end PlacedToken

namespace TokenStream

/-- From `s`, the tokens `ts` were read, and `s'` was reached. -/
structure Passes (s : TokenStream) (ts : List PlacedToken) (s' : TokenStream) : Prop where
  rest : s.rest = ts ++ s'.rest
  passed : s'.passed = ts.reverse ++ s.passed
  depth : s'.depth = s.depth
  noEnd : ∀ t ∈ ts, t.isEnd = false

namespace Passes

variable {s s' s'' : TokenStream} {ts us : List PlacedToken}

theorem refl (s : TokenStream) : s.Passes [] s := ⟨rfl, rfl, rfl, by simp⟩

theorem trans (h : s.Passes ts s') (h' : s'.Passes us s'') : s.Passes (ts ++ us) s'' where
  rest := by rw [h.rest, h'.rest, List.append_assoc]
  passed := by rw [h'.passed, h.passed, List.reverse_append, List.append_assoc]
  depth := h'.depth.trans h.depth
  noEnd t ht := (List.mem_append.1 ht).elim (h.noEnd t) (h'.noEnd t)

theorem eq_of_nil (h : s.Passes [] s') : s' = s := by
  obtain ⟨hr, hp, hd, -⟩ := h
  cases s
  cases s'
  simp_all

theorem one {t : PlacedToken} {rest passed : List PlacedToken} {depth : Nat}
    (ht : t.isEnd = false) : Passes ⟨passed, t :: rest, depth⟩ [t] ⟨t :: passed, rest, depth⟩ :=
  ⟨rfl, rfl, rfl, by simpa using ht⟩

/-- No token is read where the end mark stands next. -/
theorem eq_nil_of_isEnd (h : s.Passes ts s') {t : PlacedToken} {rest : List PlacedToken}
    (hr : s.rest = t :: rest) (ht : t.isEnd) : ts = [] := by
  cases ts with
  | nil => rfl
  | cons u us =>
    cases hr.symm.trans h.rest
    rw [h.noEnd t (List.mem_cons_self ..)] at ht
    cases ht

/-- The tokens may be read in two runs. -/
theorem split (h : s.Passes (ts ++ us) s'') : ∃ s', s.Passes ts s' ∧ s'.Passes us s'' :=
  ⟨⟨ts.reverse ++ s.passed, us ++ s''.rest, s.depth⟩,
    ⟨by simp [h.rest], rfl, rfl, fun t ht => h.noEnd t (List.mem_append_left _ ht)⟩,
    ⟨rfl, by simp [h.passed], h.depth, fun t ht => h.noEnd t (List.mem_append_right _ ht)⟩⟩

/-- The first of the tokens may be read before the others. -/
theorem uncons {t : PlacedToken} (h : s.Passes (t :: ts) s'') :
    ∃ s', s.Passes [t] s' ∧ s'.Passes ts s'' :=
  (h : s.Passes ([t] ++ ts) s'').split

theorem withDepth (h : s.Passes ts s') (d : Nat) :
    Passes { s with depth := d } ts { s' with depth := d } := ⟨h.rest, h.passed, rfl, h.noEnd⟩

/-- The stream that is reached is known from the tokens read. -/
theorem eq_mk (h : s.Passes ts s') : s' = ⟨ts.reverse ++ s.passed, s'.rest, s.depth⟩ := by
  obtain ⟨-, hp, hd, -⟩ := h
  cases s'
  simp_all

theorem length_rest (h : s.Passes ts s') : s.rest.length = ts.length + s'.rest.length := by
  rw [h.rest, List.length_append]

end Passes

/-- Every token to come has a place, and a semicolon or the end mark is among them. -/
structure Ready (s : TokenStream) : Prop where
  placed : ∀ t ∈ s.rest, t.span.isSome
  bounded : ∃ t ∈ s.rest, t.isEnd ∨ t.isSemicolon

namespace Ready

variable {s s' : TokenStream} {ts : List PlacedToken}

theorem rest_ne_nil (h : s.Ready) : s.rest ≠ [] := by
  obtain ⟨t, ht, -⟩ := h.bounded
  exact List.ne_nil_of_mem ht

theorem passes (h : s.Ready) (hp : s.Passes ts s') (hts : ∀ t ∈ ts, t.isSemicolon = false) :
    s'.Ready where
  placed t ht := h.placed t (by rw [hp.rest]; exact List.mem_append_right _ ht)
  bounded := by
    obtain ⟨t, ht, hs⟩ := h.bounded
    rw [hp.rest] at ht
    rcases List.mem_append.1 ht with ht | ht
    · rw [hp.noEnd t ht, hts t ht] at hs
      simp at hs
    · exact ⟨t, ht, hs⟩

theorem withDepth (h : s.Ready) (d : Nat) : Ready { s with depth := d } := ⟨h.placed, h.bounded⟩

theorem placed_of_passes (h : s.Ready) (hp : s.Passes ts s') : ∀ t ∈ ts, t.span.isSome :=
  fun t ht => h.placed t (hp.rest ▸ List.mem_append_left _ ht)

/-- Reading one token that is neither a semicolon nor the end mark. -/
theorem next {t : PlacedToken} {rest : List PlacedToken} (h : s.Ready) (hr : s.rest = t :: rest)
    (he : t.isEnd = false) (hsc : t.isSemicolon = false) :
    s.Passes [t] { s with passed := t :: s.passed, rest } ∧
      Ready { s with passed := t :: s.passed, rest } := by
  have hp : s.Passes [t] { s with passed := t :: s.passed, rest } :=
    ⟨hr, rfl, rfl, by simpa using he⟩
  exact ⟨hp, h.passes hp (by simpa using hsc)⟩

end Ready

end TokenStream

/-- Where the report of a rule points to that has read the tokens `ts` and failed at `f`: a token
read, the one before all of them if none was read, or the end mark that stands next. -/
def Diagnostic.Points (d : Diagnostic) (ts : List PlacedToken) (f : TokenStream) : Prop :=
  (∃ t ∈ ts, d.span = t.span) ∨ d.span = f.previousSpan ∨
    ∃ t rest, f.rest = t :: rest ∧ t.isEnd ∧ d.span = t.span

/-- The causes that a rule reports which has read the tokens `ts`: it quotes none but these. -/
inductive Cause.Arises (ts : List PlacedToken) : Cause → Prop where
  | missingToken (wanted : TokenKind) : Arises ts (.missingToken wanted)
  | wrongToken (wanted : TokenKind) {t : PlacedToken} :
    t ∈ ts → Arises ts (.wrongToken wanted t.token)
  | missingExpression : Arises ts .missingExpression
  | notExpression {t : PlacedToken} : t ∈ ts → Arises ts (.notExpression t.token)
  | nesting (limit : Int) : Arises ts (.nesting limit)

namespace Cause.Arises

variable {cause : Cause} {ts us : List PlacedToken}

theorem mono (h : cause.Arises ts) (within : ts ⊆ us) : cause.Arises us := by
  cases h with
  | missingToken wanted => exact .missingToken wanted
  | wrongToken wanted mem => exact .wrongToken wanted (within mem)
  | missingExpression => exact .missingExpression
  | notExpression mem => exact .notExpression (within mem)
  | nesting limit => exact .nesting limit

theorem kind (h : cause.Arises ts) : cause.kind = .parsing := by
  cases h <;> rfl

end Cause.Arises

/-- How a rule fails that has read the tokens `ts` and stopped at `f`. -/
structure Breaks (why : Failure) (ts : List PlacedToken) (f : TokenStream) : Prop where
  reports : ∃ d, why = .diagnostic d ∧ d.Points ts f
  cause : ∀ d, why = .diagnostic d → d.cause.Arises ts
  semicolon : ∀ t ∈ ts.dropLast, t.isSemicolon = false

namespace Breaks

variable {why : Failure} {ts us : List PlacedToken} {f : TokenStream}

/-- A failure of the second of two rules is one of both. -/
theorem prepend (h : Breaks why us f) (hts : ∀ t ∈ ts, t.isSemicolon = false) :
    Breaks why (ts ++ us) f where
  reports := by
    obtain ⟨d, rfl, ⟨t, ht, hd⟩ | hd⟩ := h.reports
    · exact ⟨d, rfl, .inl ⟨t, List.mem_append_right _ ht, hd⟩⟩
    · exact ⟨d, rfl, .inr hd⟩
  cause d hd := (h.cause d hd).mono (List.subset_append_right ..)
  semicolon t ht := by
    rw [List.dropLast_append] at ht
    split at ht
    · exact hts t (List.dropLast_subset _ ht)
    · exact (List.mem_append.1 ht).elim (hts t) (h.semicolon t)

theorem withDepth (h : Breaks why ts f) (d : Nat) : Breaks why ts { f with depth := d } :=
  ⟨h.reports, h.cause, h.semicolon⟩

/-- Failing at the only token read. -/
theorem at_token {d : Diagnostic} {t : PlacedToken} (hd : d.cause.Arises [t])
    (h : d.span = t.span) : Breaks (.diagnostic d) [t] f :=
  ⟨⟨d, rfl, .inl ⟨t, by simp, h⟩⟩, by rintro _ ⟨⟩; exact hd, by simp⟩

/-- Failing at the end mark. -/
theorem at_end {d : Diagnostic} {t : PlacedToken} {rest : List PlacedToken}
    (hf : f.rest = t :: rest) (ht : t.isEnd) (hd : d.cause.Arises []) (h : d.span = t.span) :
    Breaks (.diagnostic d) [] f :=
  ⟨⟨d, rfl, .inr (.inr ⟨t, rest, hf, ht, h⟩)⟩, by rintro _ ⟨⟩; exact hd, by simp⟩

/-- Failing behind the token that was read before. -/
theorem at_previous {d : Diagnostic} (hd : d.cause.Arises []) (h : d.span = f.previousSpan) :
    Breaks (.diagnostic d) [] f :=
  ⟨⟨d, rfl, .inr (.inl h)⟩, by rintro _ ⟨⟩; exact hd, by simp⟩

end Breaks

namespace Rule

variable {α β : Type}

/-- A rule is known from its runs and from the streams that they go through. -/
theorem ext_run {r q : Rule α} (h : ∀ s, r.run s = q.run s)
    (hv : ∀ s t, r.Visits s t ↔ q.Visits s t) : r = q := by
  obtain ⟨run, visits, _⟩ := r
  obtain ⟨run', visits', _⟩ := q
  obtain rfl : run = run' := funext h
  obtain rfl : visits = visits' := funext fun s => funext fun t => propext (hv s t)
  rfl

private theorem exists_done {a : α} {s : TokenStream} {p : α → TokenStream → Prop} :
    (∃ b t, Outcome.done a s = .done b t ∧ p b t) ↔ p a s :=
  ⟨by rintro ⟨_, _, ⟨⟩, h⟩; exact h, fun h => ⟨a, s, rfl, h⟩⟩

@[simp] theorem visits_pure (a : α) (s t : TokenStream) : ¬ (pure a : Rule α).Visits s t := id

theorem visits_bind {r : Rule α} {f : α → Rule β} {s t : TokenStream} :
    (r >>= f).Visits s t ↔ r.Visits s t ∨ ∃ a s', r.run s = .done a s' ∧ (f a).Visits s' t := .rfl

instance : LawfulMonad Rule := .mk' Rule
  (fun r => ext_run
    (fun s => by
      change (r >>= pure).run s = _
      rw [run_bind]
      cases r.run s <;> rfl)
    fun s t => by
      change (r >>= pure).Visits s t ↔ _
      simp [visits_bind])
  (fun a f => ext_run (fun _ => rfl) fun s t => by
    simp only [visits_bind, visits_pure, run_pure, false_or, exists_done])
  (fun r f g => ext_run
    (fun s => by
      simp only [run_bind]
      cases r.run s <;> rfl)
    fun s t => by
      simp only [visits_bind, run_bind, or_assoc]
      cases r.run s <;> simp only [exists_done, reduceCtorEq, false_and, exists_false, or_false])

theorem run_map (f : α → β) (r : Rule α) (s : TokenStream) :
    (f <$> r).run s = match r.run s with
      | .done a s' => .done (f a) s'
      | .failed why s' => .failed why s' := rfl

/-- Run on `s`, the rule reads some tokens; `Q` holds of them and of its value if it gives one, and
`E` holds of the failure, of them and of the stream where it failed if it fails. -/
def Ensures (r : Rule α) (s : TokenStream) (Q : α → List PlacedToken → Prop)
    (E : Failure → List PlacedToken → TokenStream → Prop) : Prop :=
  match r.run s with
  | .done a s' => ∃ ts, s.Passes ts s' ∧ Q a ts
  | .failed why f => ∃ ts, s.Passes ts f ∧ E why ts f

section Ensures

variable {r : Rule α} {s : TokenStream} {Q : α → List PlacedToken → Prop}
  {E : Failure → List PlacedToken → TokenStream → Prop}

theorem Ensures.done (h : r.Ensures s Q E) {a : α} {s' : TokenStream} (hr : r.run s = .done a s') :
    ∃ ts, s.Passes ts s' ∧ Q a ts := by
  rwa [Ensures, hr] at h

theorem Ensures.failed (h : r.Ensures s Q E) {why : Failure} {f : TokenStream}
    (hr : r.run s = .failed why f) : ∃ ts, s.Passes ts f ∧ E why ts f := by
  rwa [Ensures, hr] at h

theorem ensures_of_done {a : α} {s' : TokenStream} {ts : List PlacedToken}
    (hr : r.run s = .done a s') (hp : s.Passes ts s') (hq : Q a ts) : r.Ensures s Q E := by
  rw [Ensures, hr]
  exact ⟨ts, hp, hq⟩

theorem ensures_of_failed {why : Failure} {f : TokenStream} {ts : List PlacedToken}
    (hr : r.run s = .failed why f) (hp : s.Passes ts f) (he : E why ts f) : r.Ensures s Q E := by
  rw [Ensures, hr]
  exact ⟨ts, hp, he⟩

theorem Ensures.mono {Q' : α → List PlacedToken → Prop}
    {E' : Failure → List PlacedToken → TokenStream → Prop} (h : r.Ensures s Q E)
    (hq : ∀ a ts, Q a ts → Q' a ts) (he : ∀ why ts f, E why ts f → E' why ts f) :
    r.Ensures s Q' E' := by
  cases e : r.run s with
  | done a s' =>
    obtain ⟨ts, hp, h⟩ := h.done e
    exact ensures_of_done e hp (hq a ts h)
  | failed why f =>
    obtain ⟨ts, hp, h⟩ := h.failed e
    exact ensures_of_failed e hp (he why ts f h)

theorem Ensures.bind {f : α → Rule β} {R : β → List PlacedToken → Prop}
    (h : r.Ensures s Q E)
    (hf : ∀ a ts s', s.Passes ts s' → Q a ts →
      (f a).Ensures s' (fun b us => R b (ts ++ us)) fun why us g => E why (ts ++ us) g) :
    (r >>= f).Ensures s R E := by
  cases e : r.run s with
  | done a s' =>
    obtain ⟨ts, hp, hq⟩ := h.done e
    have h' := hf a ts s' hp hq
    cases e' : (f a).run s' with
    | done b s'' =>
      obtain ⟨us, hp', hr⟩ := h'.done e'
      exact ensures_of_done (by rw [run_bind, e]; exact e') (hp.trans hp') hr
    | failed why g =>
      obtain ⟨us, hp', he⟩ := h'.failed e'
      exact ensures_of_failed (by rw [run_bind, e]; exact e') (hp.trans hp') he
  | failed why g =>
    obtain ⟨ts, hp, he⟩ := h.failed e
    exact ensures_of_failed (by rw [run_bind, e]) hp he

/-- One rule after another, where the first one does not end a statement. -/
theorem Ensures.andThen {f : α → Rule β} {R : β → List PlacedToken → Prop}
    (h : r.Ensures s Q Breaks) (hs : s.Ready)
    (hQ : ∀ a ts, Q a ts → ∀ t ∈ ts, t.isSemicolon = false)
    (hf : ∀ a ts s', s.Passes ts s' → s'.Ready → Q a ts →
      (f a).Ensures s' (fun b us => R b (ts ++ us)) Breaks) : (r >>= f).Ensures s R Breaks :=
  h.bind fun a ts s' hp hq => (hf a ts s' hp (hs.passes hp (hQ a ts hq)) hq).mono
    (fun _ _ h => h) fun _ _ _ hb => hb.prepend (hQ a ts hq)

theorem ensures_pure {a : α} (h : Q a []) : (pure a : Rule α).Ensures s Q E :=
  ensures_of_done rfl (.refl s) h

theorem ensures_fail {why : Failure} (h : E why [] s) : (fail why : Rule α).Ensures s Q E :=
  ensures_of_failed rfl (.refl s) h

theorem ensures_report {cause : Cause} {span : Option Span}
    (h : E (.diagnostic ⟨cause, span⟩) [] s) : (report cause span : Rule α).Ensures s Q E :=
  ensures_fail h

theorem ensures_stream_bind {f : TokenStream → Rule α} (h : (f s).Ensures s Q E) :
    (stream >>= f).Ensures s Q E := h

theorem ensures_nested
    (h : r.Ensures { s with depth := s.depth + 1 } Q fun why ts f =>
      E why ts { f with depth := s.depth }) : (nested r).Ensures s Q E := by
  have back {ts : List PlacedToken} {s' : TokenStream}
      (hp : TokenStream.Passes { s with depth := s.depth + 1 } ts s') :
      s.Passes ts { s' with depth := s.depth } ∧ s'.depth - 1 = s.depth :=
    ⟨⟨hp.rest, hp.passed, rfl, hp.noEnd⟩, by simp [hp.depth]⟩
  cases e : r.run { s with depth := s.depth + 1 } with
  | done a s' =>
    obtain ⟨ts, hp, hq⟩ := h.done e
    obtain ⟨hp, hd⟩ := back hp
    exact ensures_of_done (by simp only [nested, e, Outcome.mapStream, hd]) hp hq
  | failed why f =>
    obtain ⟨ts, hp, he⟩ := h.failed e
    obtain ⟨hp, hd⟩ := back hp
    exact ensures_of_failed (by simp only [nested, e, Outcome.mapStream, hd]) hp he

end Ensures

/-! ## Looking and reading -/

section Reading

variable {t : PlacedToken} {passed ts : List PlacedToken} {depth : Nat}

@[simp] theorem run_check (wanted : TokenKind → Bool) :
    (check wanted).run ⟨passed, t :: ts, depth⟩ =
      .done (if !t.isEnd && wanted t.kind then some t else none) ⟨passed, t :: ts, depth⟩ := by
  cases e : t.isEnd <;> cases e' : wanted t.kind <;>
    simp [check, peek, head, run_map, e, e', Option.filter]

@[simp] theorem run_advance (ht : t.isEnd = false) :
    advance.run ⟨passed, t :: ts, depth⟩ = .done (some t) ⟨t :: passed, ts, depth⟩ := by
  simp [advance, ht]

@[simp] theorem run_advance_end (ht : t.isEnd = true) :
    advance.run ⟨passed, t :: ts, depth⟩ = .done none ⟨passed, t :: ts, depth⟩ := by
  simp [advance, ht]

@[simp] theorem run_head : head.run ⟨passed, t :: ts, depth⟩ = .done t ⟨passed, t :: ts, depth⟩ :=
  rfl

@[simp] theorem run_report {α : Type} (cause : Cause) (span : Option Span) (s : TokenStream) :
    (report cause span : Rule α).run s = .failed (.diagnostic ⟨cause, span⟩) s := rfl

theorem run_consumeWith_end {α : Type} (wanted : TokenKind) (read : Token → Option α)
    (ht : t.isEnd = true) : (consumeWith wanted read).run ⟨passed, t :: ts, depth⟩ =
      .failed (.diagnostic ⟨.missingToken wanted, t.span⟩) ⟨passed, t :: ts, depth⟩ := by
  simp [consumeWith, run_bind, ht]

theorem run_consumeWith {α : Type} (wanted : TokenKind) (read : Token → Option α)
    (ht : t.isEnd = false) : (consumeWith wanted read).run ⟨passed, t :: ts, depth⟩ =
      match read t.token with
      | some a => .done (a, t) ⟨t :: passed, ts, depth⟩
      | none =>
        .failed (.diagnostic ⟨.wrongToken wanted t.token, t.span⟩) ⟨t :: passed, ts, depth⟩ := by
  cases e : read t.token <;> simp [consumeWith, run_bind, ht, e]

variable {α : Type} {s : TokenStream} {Q : α → List PlacedToken → Prop}
  {E : Failure → List PlacedToken → TokenStream → Prop} {f : Option PlacedToken → Rule α}

/-- Looking at the token that stands next reads nothing. -/
theorem ensures_check_bind {wanted : TokenKind → Bool} (hs : s.Ready)
    (hit : ∀ t rest, s.rest = t :: rest → t.isEnd = false → wanted t.kind →
      (f (some t)).Ensures s Q E)
    (miss : (f none).Ensures s Q E) : (check wanted >>= f).Ensures s Q E := by
  obtain ⟨passed, rest, depth⟩ := s
  obtain ⟨t, ts, rfl⟩ := List.exists_cons_of_ne_nil hs.rest_ne_nil
  unfold Ensures
  rw [run_bind, run_check]
  cases he : t.isEnd with
  | true => exact miss
  | false =>
    cases hw : wanted t.kind with
    | true => exact hit t ts rfl he hw
    | false => exact miss

/-- Reading the token that stands next. -/
theorem ensures_advance (h : s.rest = t :: ts) (ht : t.isEnd = false) :
    advance.Ensures s (fun o us => o = some t ∧ us = [t]) E := by
  obtain ⟨passed, rest, depth⟩ := s
  cases h
  exact ensures_of_done (run_advance ht) (.one ht) ⟨rfl, rfl⟩

theorem ensures_advance_bind (hs : s.Ready) (hr : s.rest = t :: ts) (he : t.isEnd = false)
    (hsc : t.isSemicolon = false)
    (hf : ∀ s', s.Passes [t] s' → s'.Ready →
      (f (some t)).Ensures s' (fun a us => Q a (t :: us)) Breaks) :
    (advance >>= f).Ensures s Q Breaks := by
  refine (ensures_advance hr he).andThen hs ?_ ?_
  · rintro _ _ ⟨rfl, rfl⟩
    simpa using hsc
  · rintro _ _ s' hp hs' ⟨rfl, rfl⟩
    exact hf s' hp hs'

theorem ensures_consumeWith {α : Type} {wanted : TokenKind} {read : Token → Option α}
    (hs : s.Ready) : (consumeWith wanted read).Ensures s
      (fun found us => us = [found.2] ∧ read found.2.token = some found.1) Breaks := by
  obtain ⟨passed, rest, depth⟩ := s
  obtain ⟨t, ts, rfl⟩ := List.exists_cons_of_ne_nil hs.rest_ne_nil
  cases ht : t.isEnd with
  | true =>
    exact ensures_of_failed (run_consumeWith_end wanted read ht) (.refl _)
      (.at_end rfl ht (.missingToken wanted) rfl)
  | false =>
    have run := @run_consumeWith t passed ts depth α wanted read ht
    cases hr : read t.token with
    | none =>
      exact ensures_of_failed (by rw [run, hr]) (.one ht)
        (.at_token (.wrongToken wanted List.mem_cons_self) rfl)
    | some a => exact ensures_of_done (by rw [run, hr]) (.one ht) ⟨rfl, hr⟩

theorem ensures_consume {wanted : TokenKind} (hs : s.Ready) :
    (consume wanted).Ensures s (fun t us => us = [t] ∧ t.kind = wanted) Breaks := by
  refine (ensures_consumeWith hs).bind ?_
  rintro found us s' - ⟨hus, hr⟩
  refine ensures_pure ?_
  split at hr
  · exact ⟨by simpa using hus, ‹_›⟩
  · cases hr

/-- Reading a mark that does not end a statement. -/
theorem ensures_consume_bind {m : Mark} {f : PlacedToken → Rule α} (hs : s.Ready)
    (hm : m ≠ .semicolon)
    (hf : ∀ t a s', t.token = .mark m → t.span = some a → s'.Ready →
      (f t).Ensures s' (fun b us => Q b (t :: us)) Breaks) :
    (consume (.mark m) >>= f).Ensures s Q Breaks := by
  refine (ensures_consume hs).andThen hs ?_ ?_
  · rintro t _ ⟨rfl, hk⟩
    simpa using PlacedToken.isSemicolon_of_ne (PlacedToken.kind_eq_mark.1 hk) hm
  · rintro t _ s' hp hs' ⟨rfl, hk⟩
    obtain ⟨a, ha⟩ := Option.isSome_iff_exists.1
      (hs.placed_of_passes hp t (List.mem_singleton_self _))
    exact hf t a s' (PlacedToken.kind_eq_mark.1 hk) ha hs'

theorem ensures_consumeName (hs : s.Ready) : consumeName.Ensures s
    (fun name us => ∃ span, us = [⟨.identifier name, span⟩]) Breaks := by
  refine (ensures_consumeWith hs).bind ?_
  rintro found us s' - ⟨hus, hr⟩
  refine ensures_pure ?_
  obtain ⟨name, token, span⟩ := found
  cases token <;> simp at hr
  subst hr
  exact ⟨span, by simpa using hus⟩

theorem ensures_consumeName_bind {f : String → Rule α} (hs : s.Ready)
    (hf : ∀ name a s', s'.Ready →
      (f name).Ensures s' (fun b us => Q b (⟨.identifier name, a⟩ :: us)) Breaks) :
    (consumeName >>= f).Ensures s Q Breaks := by
  refine (ensures_consumeName hs).andThen hs ?_ ?_
  · rintro name _ ⟨a, rfl⟩
    simp [PlacedToken.isSemicolon, PlacedToken.kind, Token.kind]
  · rintro name _ s' - hs' ⟨a, rfl⟩
    exact hf name a s' hs'

end Reading

/-! ## Places -/

theorem startOf_eq {t : PlacedToken} {a : Span} (ht : t.span = some a) : startOf t = pure a := by
  rw [startOf, ht]

theorem stopOf_eq {t : PlacedToken} {a : Span} (ht : t.span = some a) : stopOf t = pure a := by
  rw [stopOf, ht]

theorem spanOf_eq {e : Expr} {a : Span} (he : e.span = some a) : spanOf e = pure a := by
  rw [spanOf, he]

/-! ## Loops -/

theorem markIn_eq_some {operators : List Mark} {token : Token} {m : Mark} :
    markIn operators token = some m ↔ token = .mark m ∧ m ∈ operators := by
  cases token <;> simp [markIn]
  constructor
  · rintro ⟨h, rfl⟩
    exact ⟨rfl, h⟩
  · rintro ⟨rfl, h⟩
    exact ⟨h, rfl⟩

/-- A loop keeps what each of its rounds keeps: `P` relates the expression built so far and the
tokens that it was built from. -/
theorem ensures_chain {operators : List Mark} {extend : Expr → Mark → Rule Expr}
    {P : Expr → List PlacedToken → Prop} (hsemi : .semicolon ∉ operators)
    (hend : .endOfFile ∉ operators) (hP : ∀ e ts, P e ts → ∀ t ∈ ts, t.isSemicolon = false)
    (step : ∀ left ts t m s, P left ts → m ∈ operators → t.token = .mark m →
      TokenStream.Ready s → (extend left m).Ensures s (fun e us => P e (ts ++ t :: us)) Breaks)
    {left : Expr} {ts : List PlacedToken} {s : TokenStream} (hl : P left ts) (hs : s.Ready) :
    (chain operators extend left).Ensures s (fun e us => P e (ts ++ us)) Breaks := by
  have operator (t : PlacedToken) (m : Mark) (ht : t.token = .mark m) (hm : m ∈ operators) :
      t.isEnd = false ∧ t.isSemicolon = false :=
    ⟨PlacedToken.isEnd_of_ne ht fun h => hend (h ▸ hm),
      PlacedToken.isSemicolon_of_ne ht fun h => hsemi (h ▸ hm)⟩
  change Rule.Ensures ⟨chainFrom operators extend left, _, _⟩ s _ _
  induction left, s using chainFrom.induct operators extend generalizing ts with
  | case1 left s hr => exact absurd hr hs.rest_ne_nil
  | case2 left s t rest hr hm =>
    refine ensures_of_done (a := left) ?_ (.refl s) (by simpa using hl)
    simp only [chainFrom_eq, hr, hm]
  | case3 left s t rest hr m hm why f e =>
    obtain ⟨ht, hm'⟩ := markIn_eq_some.1 hm
    obtain ⟨hp, hs'⟩ := hs.next hr (operator t m ht hm').1 (operator t m ht hm').2
    obtain ⟨us, hp', hb⟩ := (step left ts t m _ hl hm' ht hs').failed e
    refine ensures_of_failed ?_ (hp.trans hp') (hb.prepend (by simp [(operator t m ht hm').2]))
    simp only [chainFrom_eq, hr, hm, e]
  | case4 left s t rest hr m hm longer s' e ih =>
    obtain ⟨ht, hm'⟩ := markIn_eq_some.1 hm
    obtain ⟨hp, hs'⟩ := hs.next hr (operator t m ht hm').1 (operator t m ht hm').2
    obtain ⟨us, hp', hl'⟩ := (step left ts t m _ hl hm' ht hs').done e
    have hus : ∀ u ∈ us, u.isSemicolon = false := fun u hu =>
      hP _ _ hl' u (List.mem_append_right _ (List.mem_cons_of_mem _ hu))
    have run : (chain operators extend left).run s = chainFrom operators extend longer s' := by
      change chainFrom operators extend left s = _
      simp only [chainFrom_eq operators extend left, hr, hm, e]
    cases e' : chainFrom operators extend longer s' with
    | done a s'' =>
      obtain ⟨vs, hp'', ha⟩ := (ih hl' (hs'.passes hp' hus)).done e'
      exact ensures_of_done (run.trans e') ((hp.trans hp').trans hp'') (by simpa using ha)
    | failed why f =>
      obtain ⟨vs, hp'', hb⟩ := (ih hl' (hs'.passes hp' hus)).failed e'
      refine ensures_of_failed (run.trans e') ((hp.trans hp').trans hp'') ?_
      rw [List.append_assoc]
      exact (hb.prepend hus).prepend (by simp [(operator t m ht hm').2])

end Rule

end Lox
