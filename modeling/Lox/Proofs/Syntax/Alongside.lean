import Lox.Proofs.Syntax.Relocation

/-!
# Two runs side by side

Two lists of tokens are read alike as long as they are alike. The second one may stand elsewhere,
and where the first one ends, it ends too or goes on with a word that starts a statement. No rule
goes on at such a word: it stops there as at the end mark, or it fails, and where the first reader
fails for want of tokens the second one reads the word and quotes it. The second reader may also
allow more levels of nesting; then both part where the first one meets its limit.

* `Pairing`: the tokens that two readers part at, and their limits.
* `Pairing.Beside`: the two readers stand at the same token.
* `Pairing.Matches`, `Pairing.Follows`: how the second reader ends, given how the first one ends,
  with one lemma for each way to build a rule.
* `Pairing.matches_topDeclaration`: this, for declarations.
-/

namespace Lox

/-! ## Causes -/

namespace Cause

/-- The source ended where more was needed. -/
def isEarlyEnd : Cause → Bool
  | missingToken _ | missingExpression => true
  | _ => false

/-- The token that the message quotes. -/
def quoted? : Cause → Option Token
  | wrongToken _ found | notExpression found => some found
  | _ => none

end Cause

/-- Two readers. The tokens of the second one are those of the first one, moved, up to the end mark
of the first one. There the second one has an end mark, too, or a word that starts a statement. -/
structure Pairing where
  move : Location → Location
  /-- The first end mark of the first tokens. -/
  stop : PlacedToken
  after : List PlacedToken
  /-- What the second tokens have in its place. -/
  stop' : PlacedToken
  after' : List PlacedToken
  limit : Int
  limit' : Int
  ends : stop.isEnd
  resumes : TokenStream.resumesAt stop'
  moved : stop'.isEnd → stop' = stop.relocate move

namespace Pairing

variable (w : Pairing)

/-- Where the first reader meets the end mark, the second one meets it, too, or a word that starts a
statement. -/
theorem isEnd_or_startsStatement :
    w.stop'.isEnd ∨
      w.stop'.isEnd = false ∧ ∃ m ∈ Mark.statementStarts, w.stop'.token = .mark m := by
  have h := w.resumes
  cases e : w.stop'.isEnd with
  | true => exact .inl rfl
  | false =>
    rw [TokenStream.resumesAt, e, Bool.false_or, List.any_eq_true] at h
    obtain ⟨m, hm, ht⟩ := h
    exact .inr ⟨rfl, m, hm, PlacedToken.kind_eq_mark.mp (by simpa using ht)⟩

/-- The two readers have read alike tokens and stand at the same one. -/
inductive Beside : TokenStream → TokenStream → Prop
  | mk (passed ts : List PlacedToken) (depth : Nat) : (∀ t ∈ ts, t.isEnd = false) →
    Beside ⟨passed, ts ++ w.stop :: w.after, depth⟩
      ⟨passed.map (PlacedToken.relocate w.move),
        ts.map (PlacedToken.relocate w.move) ++ w.stop' :: w.after', depth⟩

/-- How the second reader ends if the first one ends as it does; `g` is what becomes of its value.
-/
inductive Matches {α β : Type} (g : α → β) : Outcome α → Outcome β → Prop
  | done {a : α} {b : β} {s s' : TokenStream} :
    b = g a → w.Beside s s' → Matches g (.done a s) (.done b s')
  | failed {d : Diagnostic} {s s' : TokenStream} :
    d.cause.isEarlyEnd = false ∨ w.stop'.isEnd → w.Beside s s' →
    Matches g (.failed (.diagnostic d) s) (.failed (.diagnostic (d.relocate w.move)) s')
  | faulted {f f' : Fault} {s s' : TokenStream} :
    Matches g (.failed (.fault f) s) (.failed (.fault f') s')
  /-- The first reader wanted more tokens; the second one reads one and quotes it. -/
  | missed {d d' : Diagnostic} {passed : List PlacedToken} {depth : Nat} :
    w.stop'.isEnd = false → d.cause.isEarlyEnd → d'.cause.quoted? = some w.stop'.token →
    d'.span = w.stop'.span →
    Matches g (.failed (.diagnostic d) ⟨passed, w.stop :: w.after, depth⟩)
      (.failed (.diagnostic d')
        ⟨w.stop' :: passed.map (PlacedToken.relocate w.move), w.after', depth⟩)
  /-- The first reader met its limit; the second one has a larger one. -/
  | excused {d : Diagnostic} {s : TokenStream} {o : Outcome β} :
    d.cause = .nesting w.limit → w.limit < w.limit' → Matches g (.failed (.diagnostic d) s) o

/-- The second rule ends as the first one does, wherever two readers stand. -/
def Follows {α β : Type} (g : α → β) (r : Rule α) (r' : Rule β) : Prop :=
  ∀ ⦃s s' : TokenStream⦄, w.Beside s s' → w.Matches g (r.run s) (r'.run s')

/-! ## Rules -/

section Rules

open Rule
open PlacedToken (relocate)

variable {w} {α α' β β' : Type} {g : α → α'} {h : β → β'} {r : Rule α} {r' : Rule α'}
  {f : α → Rule β} {f' : α' → Rule β'} {s s' : TokenStream}

theorem Beside.withDepth (hs : w.Beside s s') (change : Nat → Nat) :
    w.Beside { s with depth := change s.depth } { s' with depth := change s'.depth } := by
  obtain ⟨passed, ts, depth, hts⟩ := hs
  exact .mk passed ts (change depth) hts

theorem Beside.uncons (hs : w.Beside s s') {t : PlacedToken} {rest : List PlacedToken}
    (hr : s.rest = t :: rest) (ht : t.isEnd = false) :
    ∃ rest', s'.rest = t.relocate w.move :: rest' ∧
      w.Beside { s with passed := t :: s.passed, rest }
        { s' with passed := t.relocate w.move :: s'.passed, rest := rest' } := by
  obtain ⟨passed, _ | ⟨u, ts⟩, depth, hts⟩ := hs
  · cases hr
    simp [w.ends] at ht
  · cases hr
    exact ⟨_, rfl, .mk (t :: passed) ts depth fun u hu => hts u (List.mem_cons_of_mem _ hu)⟩

theorem Beside.previousSpan (hs : w.Beside s s') :
    s'.previousSpan = s.previousSpan.map (Span.relocate w.move) := by
  obtain ⟨_ | ⟨t, passed⟩, ts, depth, hts⟩ := hs <;> rfl

theorem Beside.isEmpty (hs : w.Beside s s') : s'.passed.isEmpty = s.passed.isEmpty := by
  obtain ⟨_ | ⟨t, passed⟩, ts, depth, hts⟩ := hs <;> rfl

theorem follows_pure {a : α} {b : α'} (hb : b = g a) :
    w.Follows g (pure a) (pure b) := fun _ _ hs => .done hb hs

theorem Matches.bind (hr : w.Matches g (r.run s) (r'.run s'))
    (hf : ∀ a t t', r.run s = .done a t → w.Beside t t' →
      w.Matches h ((f a).run t) ((f' (g a)).run t')) :
    w.Matches h ((r >>= f).run s) ((r' >>= f').run s') := by
  rw [run_bind, run_bind]
  generalize r.run s = o, r'.run s' = o' at hr hf
  cases hr with
  | done hb hs => exact hb ▸ hf _ _ _ rfl hs
  | failed hd hs => exact .failed hd hs
  | faulted => exact .faulted
  | missed he hd hq hspan => exact .missed he hd hq hspan
  | excused hd hlt => exact .excused hd hlt

theorem Follows.bind (hr : w.Follows g r r') (hf : ∀ a, w.Follows h (f a) (f' (g a))) :
    w.Follows h (r >>= f) (r' >>= f') := fun _ _ hs => (hr hs).bind fun a _ _ _ ht => hf a ht

theorem follows_report {cause : Cause} {span span' : Option Span} (hc : cause.isEarlyEnd = false)
    (hspan : span' = span.map (Span.relocate w.move)) :
    w.Follows g (report cause span) (report cause span') := by
  intro s s' hs
  subst hspan
  exact Matches.failed (d := ⟨cause, span⟩) (.inl hc) hs

/-- A word that starts a statement is not wanted where none may stand. -/
theorem matches_check_bind {wanted : TokenKind → Bool} {f : Option PlacedToken → Rule β}
    {f' : Option PlacedToken → Rule β'} (hs : w.Beside s s')
    (unwanted : (∀ m ∈ Mark.statementStarts, wanted (.mark m) = false) ∨
      ∃ t ∈ s.rest.head?, t.isEnd = false)
    (hit : ∀ t rest, s.rest = t :: rest → t.isEnd = false → wanted t.kind →
      w.Matches h ((f (some t)).run s) ((f' (some (t.relocate w.move))).run s'))
    (miss : w.Matches h ((f none).run s) ((f' none).run s')) :
    w.Matches h ((check wanted >>= f).run s) ((check wanted >>= f').run s') := by
  obtain ⟨passed, _ | ⟨t, ts⟩, depth, hts⟩ := hs
  · have none' : (!w.stop'.isEnd && wanted w.stop'.kind) = false := by
      obtain he | ⟨-, m, hm, ht⟩ := w.isEnd_or_startsStatement
      · simp [he]
      · obtain hw | ⟨t, ht', he⟩ := unwanted
        · simp [PlacedToken.kind_eq_mark.mpr ht, hw m hm]
        · obtain rfl : w.stop = t := by simpa using ht'
          simp [w.ends] at he
    simpa only [List.nil_append, List.map_nil, run_bind, run_check, none', w.ends, Bool.not_true,
      Bool.false_and, Bool.false_eq_true, if_false] using miss
  · have ht := hts t (List.mem_cons_self ..)
    have ht' : (t.relocate w.move).isEnd = false := ht
    have hkind : (t.relocate w.move).kind = t.kind := rfl
    simp only [List.cons_append, List.map_cons, run_bind, run_check, ht, ht', hkind, Bool.not_false,
      Bool.true_and] at hit miss ⊢
    cases hw : wanted t.kind with
    | true => exact hit t _ rfl ht hw
    | false => exact miss

theorem matches_advance_bind {f : Option PlacedToken → Rule β} {f' : Option PlacedToken → Rule β'}
    (hs : w.Beside s s') {t : PlacedToken} {rest : List PlacedToken} (hr : s.rest = t :: rest)
    (ht : t.isEnd = false) (hf : w.Follows h (f (some t)) (f' (some (t.relocate w.move)))) :
    w.Matches h ((advance >>= f).run s) ((advance >>= f').run s') := by
  obtain ⟨passed, _ | ⟨u, ts⟩, depth, hts⟩ := hs
  · cases hr
    simp [w.ends] at ht
  · cases hr
    have ht' : (t.relocate w.move).isEnd = false := ht
    simp only [List.cons_append, List.map_cons, run_bind, run_advance ht, run_advance ht']
    exact hf (.mk (t :: passed) ts depth fun u hu => hts u (List.mem_cons_of_mem _ hu))

/-- Where the first reader wants more tokens, the second one refuses the word that it meets. -/
theorem follows_consumeWith {wanted : TokenKind} {read : Token → Option α}
    (hread : ∀ m ∈ Mark.statementStarts, read (.mark m) = none) :
    w.Follows (Prod.map id (relocate w.move)) (consumeWith wanted read)
      (consumeWith wanted read) := by
  rintro _ _ ⟨passed, _ | ⟨t, ts⟩, depth, hts⟩
  · simp only [List.nil_append, List.map_nil, run_consumeWith_end wanted read w.ends]
    obtain he | ⟨he, m, hm, ht⟩ := w.isEnd_or_startsStatement
    · rw [run_consumeWith_end wanted read he]
      rw [show w.stop'.span = w.stop.span.map (Span.relocate w.move) from
        congrArg PlacedToken.span (w.moved he)]
      exact .failed (.inr he) (.mk passed [] depth (by simp))
    · rw [run_consumeWith wanted read he, ht, hread m hm]
      exact .missed he rfl (congrArg some ht.symm) rfl
  · have ht := hts t (List.mem_cons_self ..)
    have ht' : (t.relocate w.move).isEnd = false := ht
    have hnext : w.Beside ⟨t :: passed, ts ++ w.stop :: w.after, depth⟩ _ :=
      .mk (t :: passed) ts depth fun u hu => hts u (List.mem_cons_of_mem _ hu)
    simp only [List.cons_append, List.map_cons, run_consumeWith wanted read ht,
      run_consumeWith wanted read ht']
    rw [show (t.relocate w.move).token = t.token from rfl]
    cases read t.token with
    | some a => exact .done rfl hnext
    | none => exact Matches.failed (d := ⟨.wrongToken wanted t.token, t.span⟩) (.inl rfl) hnext

theorem follows_consume {m : Mark} (hm : m ∉ Mark.statementStarts) :
    w.Follows (relocate w.move) (consume (.mark m)) (consume (.mark m)) := by
  refine (follows_consumeWith fun k hk => ?_).bind fun found => follows_pure rfl
  rw [if_neg]
  rintro ⟨⟩
  exact hm hk

theorem follows_consumeName : w.Follows id consumeName consumeName :=
  (follows_consumeWith fun _ _ => rfl).bind fun _ => follows_pure rfl

theorem follows_startOf (t : PlacedToken) :
    w.Follows (Span.relocate w.move) (startOf t) (startOf (t.relocate w.move)) := by
  obtain ⟨token, _ | a⟩ := t
  · exact fun _ _ _ => .faulted
  · exact follows_pure rfl

theorem follows_stopOf (t : PlacedToken) :
    w.Follows (Span.relocate w.move) (stopOf t) (stopOf (t.relocate w.move)) := by
  obtain ⟨token, _ | a⟩ := t
  · exact fun _ _ _ => .faulted
  · exact follows_pure rfl

theorem follows_spanOf (e : Expr) :
    w.Follows (Span.relocate w.move) (spanOf e) (spanOf (e.relocate w.move)) := by
  unfold spanOf
  rw [Expr.span_relocate]
  cases e.span with
  | none => exact fun _ _ _ => .faulted
  | some a => exact follows_pure rfl

theorem Follows.nested (hr : w.Follows g r r') : w.Follows g (nested r) (nested r') := by
  intro s s' hs
  have hrun := hr (hs.withDepth (· + 1))
  simp only [Rule.nested]
  revert hrun
  generalize r.run _ = o, r'.run _ = o'
  rintro (⟨hb, hs⟩ | ⟨hd, hs⟩ | _ | ⟨he, hd, hq, hspan⟩ | ⟨hd, hlt⟩)
  · exact .done hb (hs.withDepth (· - 1))
  · exact .failed hd (hs.withDepth (· - 1))
  · exact .faulted
  · exact .missed he hd hq hspan
  · exact .excused hd hlt

/-- No loop goes on at the end mark or at a word that starts a statement. -/
theorem markIn_stop {operators : List Mark}
    (hops : ∀ m ∈ operators, m ∉ .endOfFile :: Mark.statementStarts) :
    markIn operators w.stop.token = none ∧ markIn operators w.stop'.token = none := by
  have none_of {t : Token} {m : Mark} (ht : t = .mark m)
      (hm : m ∈ .endOfFile :: Mark.statementStarts) : markIn operators t = none := by
    rw [ht, markIn, if_neg fun h => hops m h hm]
  refine ⟨none_of (PlacedToken.isEnd_iff.mp w.ends) (List.mem_cons_self ..), ?_⟩
  obtain he | ⟨-, m, hm, ht⟩ := w.isEnd_or_startsStatement
  · exact none_of (PlacedToken.isEnd_iff.mp he) (List.mem_cons_self ..)
  · exact none_of ht (List.mem_cons_of_mem _ hm)

/-- A round of a loop and the rounds behind it. -/
private theorem chainFrom_of_mem {operators : List Mark} {extend : Expr → Mark → Rule Expr}
    {left : Expr} {t : PlacedToken} {rest : List PlacedToken} {m : Mark} (hr : s.rest = t :: rest)
    (hm : markIn operators t.token = some m) : chainFrom operators extend left s =
      (extend left m >>= chain operators extend).run { s with passed := t :: s.passed, rest } := by
  rw [chainFrom_eq, run_bind]
  simp only [hr, hm]
  cases (extend left m).run _ <;> rfl

theorem follows_chain {operators : List Mark} {extend extend' : Expr → Mark → Rule Expr}
    (hops : ∀ m ∈ operators, m ∉ .endOfFile :: Mark.statementStarts)
    (hext : ∀ e m, w.Follows (Expr.relocate w.move) (extend e m) (extend' (e.relocate w.move) m))
    (left : Expr) : w.Follows (Expr.relocate w.move) (chain operators extend left)
      (chain operators extend' (left.relocate w.move)) := by
  intro s s' hs
  change w.Matches _ (chainFrom operators extend left s) (chainFrom operators extend' _ s')
  obtain ⟨hstop, hstop'⟩ := markIn_stop (w := w) hops
  have operator (t : PlacedToken) (m : Mark) (hm : markIn operators t.token = some m) :
      t.isEnd = false := by
    obtain ⟨ht, hm⟩ := markIn_eq_some.mp hm
    exact PlacedToken.isEnd_of_ne ht fun h => hops m hm (h ▸ List.mem_cons_self ..)
  induction left, s using chainFrom.induct operators extend generalizing s' with
  | case1 left s hr =>
    obtain ⟨passed, ts, depth, hts⟩ := hs
    simp at hr
  | case2 left s t rest hr hm =>
    obtain ⟨passed, _ | ⟨u, ts⟩, depth, hts⟩ := id hs
    · simp only [chainFrom_eq, List.nil_append, List.map_nil, hstop, hstop']
      exact .done rfl hs
    · cases hr
      have hm' : markIn operators (t.relocate w.move).token = none := hm
      simp only [chainFrom_eq, List.cons_append, List.map_cons, hm, hm']
      exact .done rfl hs
  | case3 left s t rest hr m hm why f e =>
    obtain ⟨rest', hr', hnext⟩ := hs.uncons hr (operator t m hm)
    rw [chainFrom_of_mem hr hm, chainFrom_of_mem hr' (t := t.relocate w.move) hm]
    refine (hext left m hnext).bind fun a v v' e' _ => ?_
    cases e.symm.trans e'
  | case4 left s t rest hr m hm longer f e ih =>
    obtain ⟨rest', hr', hnext⟩ := hs.uncons hr (operator t m hm)
    rw [chainFrom_of_mem hr hm, chainFrom_of_mem hr' (t := t.relocate w.move) hm]
    refine (hext left m hnext).bind fun a v v' e' hv => ?_
    cases e.symm.trans e'
    exact ih hv

end Rules

/-! ## The grammar -/

section Grammar

open Rule Grammar
open PlacedToken (relocate)

variable {w} {operand operand' unary unary' expression expression' : Rule Expr}
  {inner inner' : Option (Rule Expr)} {s s' : TokenStream}

theorem follows_leftAssociative {operators : List Mark}
    (hops : ∀ m ∈ operators, m ∉ .endOfFile :: Mark.statementStarts)
    (h : w.Follows (Expr.relocate w.move) operand operand') :
    w.Follows (Expr.relocate w.move) (leftAssociative operators operand)
      (leftAssociative operators operand') :=
  h.bind <| follows_chain hops fun left _ => h.bind fun right => (follows_spanOf left).bind fun _ =>
    (follows_spanOf right).bind fun _ => follows_pure rfl

theorem follows_equality (h : w.Follows (Expr.relocate w.move) unary unary') :
    w.Follows (Expr.relocate w.move) (equality unary) (equality unary') :=
  follows_leftAssociative (by decide) <| follows_leftAssociative (by decide) <|
    follows_leftAssociative (by decide) <| follows_leftAssociative (by decide) h

theorem follows_ternary (h : w.Follows (Expr.relocate w.move) unary unary') :
    w.Follows (Expr.relocate w.move) (ternary unary) (ternary unary') := by
  have operand := follows_equality h
  exact operand.bind <| follows_chain (by decide) fun condition _ => operand.bind fun _ =>
    (follows_consume (by decide)).bind fun _ => operand.bind fun whenFalse =>
      (follows_spanOf condition).bind fun _ => (follows_spanOf whenFalse).bind fun _ =>
        follows_pure rfl

/-- The rules one level deeper, if there are levels left. -/
inductive Deeper (w : Pairing) : Option (Rule Expr) → Option (Rule Expr) → Prop
  | both {unary unary' : Rule Expr} :
    w.Follows (Expr.relocate w.move) unary unary' → Deeper w (some unary) (some unary')
  | neither : w.limit = w.limit' → Deeper w none none
  | beyond {inner' : Option (Rule Expr)} : w.limit < w.limit' → Deeper w none inner'

theorem follows_expressionOver (h : w.Deeper inner inner') :
    w.Follows (Expr.relocate w.move) (expressionOver w.limit inner)
      (expressionOver w.limit' inner') := by
  cases h with
  | both h => exact (follows_ternary h).nested
  | neither heq =>
    refine Follows.nested fun s s' hs => ?_
    rw [heq]
    exact follows_report rfl hs.previousSpan hs
  | beyond hlt => exact fun s s' hs => .excused rfl hlt

private theorem run_primary_end {t : PlacedToken} {passed rest : List PlacedToken} {depth : Nat}
    (ht : t.isEnd) : (primary expression).run ⟨passed, t :: rest, depth⟩ =
      .failed (.diagnostic ⟨.missingExpression, if passed.isEmpty then t.span
        else TokenStream.previousSpan ⟨passed, t :: rest, depth⟩⟩) ⟨passed, t :: rest, depth⟩ := by
  rw [primary, run_bind, run_advance_end ht]
  rfl

/-- No expression starts with a word that starts a statement. -/
private theorem run_primary_of_startsStatement {t : PlacedToken} {passed rest : List PlacedToken}
    {depth : Nat} {m : Mark} (he : t.isEnd = false) (ht : t.token = .mark m)
    (hm : m ∈ Mark.statementStarts) : (primary expression).run ⟨passed, t :: rest, depth⟩ =
      .failed (.diagnostic ⟨.notExpression t.token, t.span⟩) ⟨t :: passed, rest, depth⟩ := by
  rw [primary, run_bind, run_advance he]
  dsimp only
  rw [ht]
  cases m <;> first | rfl | simp [Mark.statementStarts] at hm

theorem follows_primary (h : w.Follows (Expr.relocate w.move) expression expression') :
    w.Follows (Expr.relocate w.move) (primary expression) (primary expression') := by
  intro s s' hs
  obtain ⟨passed, _ | ⟨t, ts⟩, depth, hts⟩ := id hs
  · have hspan := hs.previousSpan
    have hempty := hs.isEmpty
    simp only [List.nil_append, List.map_nil] at hs hspan hempty ⊢
    rw [run_primary_end w.ends]
    obtain he | ⟨he, m, hm, ht⟩ := w.isEnd_or_startsStatement
    · have hstop : w.stop'.span = w.stop.span.map (Span.relocate w.move) :=
        congrArg PlacedToken.span (w.moved he)
      rw [run_primary_end he, hspan, hempty, hstop, ← apply_ite]
      exact .failed (.inr he) hs
    · rw [run_primary_of_startsStatement he ht hm]
      exact .missed he rfl rfl rfl
  · have ht := hts t (List.mem_cons_self ..)
    refine matches_advance_bind hs rfl ht ?_
    obtain ⟨token, span⟩ := t
    have grouping : w.Follows (Expr.relocate w.move) (do
        let body ← expression
        let close ← consume (.mark .rightParen)
        let span := (← startOf ⟨token, span⟩).join (← stopOf close)
        pure (.grouping body (some span))) (do
        let body ← expression'
        let close ← consume (.mark .rightParen)
        let span := (← startOf (relocate w.move ⟨token, span⟩)).join (← stopOf close)
        pure (.grouping body (some span))) :=
      h.bind fun body => (follows_consume (by decide)).bind fun close =>
        (follows_startOf _).bind fun _ => (follows_stopOf close).bind fun _ => follows_pure rfl
    cases token with
    | mark m =>
      cases m with
      | leftParen => exact grouping
      | falseWord | trueWord | nilWord => exact follows_pure rfl
      | _ => exact follows_report rfl rfl
    | identifier | string | number => exact follows_pure rfl
    | comment | whitespace => exact follows_report rfl rfl

theorem follows_unaryOver (h : w.Deeper inner inner') :
    w.Follows (Expr.relocate w.move) (unaryOver w.limit inner) (unaryOver w.limit' inner') := by
  have hprimary := follows_primary (follows_expressionOver h)
  intro s s' hs
  refine matches_check_bind hs (.inl (by decide)) (fun t rest hr ht _ => ?_) (hprimary hs)
  obtain ⟨token, span⟩ := t
  cases token with
  | mark m =>
    refine matches_advance_bind hs hr ht (Follows.bind (Follows.nested ?_) fun right =>
      (follows_startOf ⟨.mark m, span⟩).bind fun _ => (follows_spanOf right).bind fun _ =>
        follows_pure rfl)
    cases h with
    | both h => exact h
    | neither heq => exact heq ▸ follows_report rfl rfl
    | beyond hlt => exact fun s s' hs => .excused rfl hlt
  | _ => exact hprimary hs

/-- The levels that are left: as many to both, or no fewer to the second one if its limit is larger.
-/
def Rooms (w : Pairing) (room room' : Nat) : Prop :=
  (w.limit = w.limit' ∧ room = room') ∨ (w.limit < w.limit' ∧ room ≤ room')

theorem follows_unary {room room' : Nat} (h : w.Rooms room room') :
    w.Follows (Expr.relocate w.move) (Grammar.unary w.limit room)
      (Grammar.unary w.limit' room') := by
  rw [unary_eq, unary_eq]
  refine follows_unaryOver ?_
  induction room generalizing room' with
  | zero =>
    obtain ⟨heq, rfl⟩ | ⟨hlt, -⟩ := h
    · exact .neither heq
    · exact .beyond hlt
  | succ room ih =>
    obtain ⟨room', rfl⟩ : ∃ n, room' = n + 1 := ⟨room' - 1, by
      obtain ⟨-, rfl⟩ | ⟨-, hle⟩ := h
      · rfl
      · omega⟩
    refine .both ?_
    rw [unary_eq, unary_eq]
    exact follows_unaryOver (ih (h.imp (fun h => ⟨h.1, by omega⟩) fun h => ⟨h.1, by omega⟩))

theorem follows_expression {room room' : Nat} (h : w.Rooms room room') :
    w.Follows (Expr.relocate w.move) (Grammar.expression w.limit room)
      (Grammar.expression w.limit' room') := by
  refine follows_expressionOver ?_
  cases room with
  | zero =>
    obtain ⟨heq, rfl⟩ | ⟨hlt, -⟩ := h
    · exact .neither heq
    · exact .beyond hlt
  | succ room =>
    obtain ⟨room', rfl⟩ : ∃ n, room' = n + 1 := ⟨room' - 1, by
      obtain ⟨-, rfl⟩ | ⟨-, hle⟩ := h
      · rfl
      · omega⟩
    exact .both (follows_unary (h.imp (fun h => ⟨h.1, by omega⟩) fun h => ⟨h.1, by omega⟩))

theorem matches_variableDeclaration (h : w.Follows (Expr.relocate w.move) expression expression')
    (hs : w.Beside s s') {t : PlacedToken} {rest : List PlacedToken} (hr : s.rest = t :: rest)
    (ht : t.isEnd = false) : w.Matches (Stmt.relocate w.move)
      ((variableDeclaration expression).run s) ((variableDeclaration expression').run s') := by
  refine matches_advance_bind hs hr ht (follows_consumeName.bind fun name s₁ s₁' hs₁ => ?_)
  have finish (initial : Option Expr) : w.Follows (Stmt.relocate w.move) (do
      let stop ← consume (.mark .semicolon)
      let span := (← startOf t).join (← stopOf stop)
      pure (.declaration name initial (some span))) (do
      let stop ← consume (.mark .semicolon)
      let span := (← startOf (relocate w.move t)).join (← stopOf stop)
      pure (.declaration name (initial.map (Expr.relocate w.move)) (some span))) :=
    (follows_consume (by decide)).bind fun stop => (follows_startOf t).bind fun _ =>
      (follows_stopOf stop).bind fun _ => follows_pure rfl
  refine matches_check_bind hs₁ (.inl (by decide)) (fun u rest₁ hr₁ hu _ => ?_) ?_
  · refine matches_advance_bind hs₁ hr₁ hu ?_
    rw [bind_map_left, bind_map_left]
    exact h.bind fun e => finish (some e)
  · exact (follows_pure (g := Option.map (Expr.relocate w.move)) rfl).bind finish hs₁

theorem matches_statement (h : w.Follows (Expr.relocate w.move) expression expression')
    (hs : w.Beside s s') {t : PlacedToken} {rest : List PlacedToken} (hr : s.rest = t :: rest)
    (ht : t.isEnd = false) : w.Matches (Stmt.relocate w.move) ((statement expression).run s)
      ((statement expression').run s') := by
  refine matches_check_bind hs (.inr ⟨t, by simp [hr], ht⟩) (fun u rest₁ hr₁ hu _ => ?_) ?_
  · exact matches_advance_bind hs hr₁ hu <| h.bind fun body => (follows_consume (by decide)).bind
      fun stop => (follows_startOf u).bind fun _ => (follows_stopOf stop).bind fun _ =>
        follows_pure rfl
  · suffices hrule : w.Follows (Stmt.relocate w.move) _ _ from hrule hs
    exact h.bind fun body => (follows_consume (by decide)).bind fun stop =>
      (follows_spanOf body).bind fun _ => (follows_stopOf stop).bind fun _ => follows_pure rfl

/-- Two readers that start a declaration at the same token end it alike. -/
theorem matches_topDeclaration (hlimit : w.limit ≤ w.limit') (hs : w.Beside s s') {t : PlacedToken}
    {rest : List PlacedToken} (hr : s.rest = t :: rest) (ht : t.isEnd = false) :
    w.Matches (Stmt.relocate w.move) ((topDeclaration w.limit).run s)
      ((topDeclaration w.limit').run s') := by
  have hrooms : w.Rooms w.limit.toNat w.limit'.toNat :=
    (Int.lt_or_eq_of_le hlimit).symm.imp (fun h => ⟨h, h ▸ rfl⟩) fun h => ⟨h, by omega⟩
  have h := follows_expression hrooms
  exact matches_check_bind hs (.inr ⟨t, by simp [hr], ht⟩)
    (fun u rest₁ hr₁ hu _ => matches_variableDeclaration h hs hr₁ hu) (matches_statement h hs hr ht)

end Grammar

end Pairing

end Lox
