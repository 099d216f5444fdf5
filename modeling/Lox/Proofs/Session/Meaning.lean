import Lox.Proofs.Session.Blame

/-!
# Values depend on what is evaluated

What an expression comes to depends on its operators, its literals and what the names mean that are
looked up on the way. Parentheses and places make no difference, save for the place of a report, and
neither do the names in a side of a choice that is not chosen.

* `Expr.core`: an expression without its parentheses and places.
* `Expr.meaning`: what an expression comes to on a stack without end.
* `Expr.eval_approximates_meaning`: on a stack of some size it comes to that too, unless the stack
  is exhausted.
* `Expr.eval_eq_meaning`, `Expr.eval_ne_exhausted`: two frames for every level are enough.
* `Expr.Consults`: evaluating an expression looks a name up.
* `Expr.meaning_congr`: other names make no difference.
* `Expr.meaning_core`: parentheses and places make none but to the place of a report.
* `Expr.evaluate_of_core_eq`: two expressions that are the same without them.
* `Expr.eval_of_core_eq`: the main statement, for different names and stacks.
-/

namespace Lox.Expr

/-- The expression without its parentheses and places. -/
def core : Expr → Expr
  | literal v _ => literal v none
  | named n _ => named n none
  | grouping e _ => e.core
  | unary o e _ => unary o e.core none
  | binary l o r _ => binary l.core o r.core none
  | ternary c t f _ => ternary c.core t.core f.core none
  | stray s => stray s

@[simp] theorem span_core (e : Expr) : e.core.span = none := by
  induction e with
  | grouping e a ih => exact ih
  | _ => rfl

/-! ## A stack without end -/

/-- What an expression comes to on a stack without end. -/
def meaning (lookup : String → Option Value) : Expr → Except Stop Value
  | literal value _ => .ok value
  | named name span =>
    match lookup name with
    | some value => .ok value
    | none => .error (.diagnostic ⟨.undefinedVariable name, span⟩)
  | grouping body _ => body.meaning lookup
  | unary operator right span => do
    let operand ← right.meaning lookup
    applyUnary operator operand span
  | binary left operator right span => do
    let l ← left.meaning lookup
    let r ← right.meaning lookup
    applyBinary operator l r span
  | ternary condition whenTrue whenFalse _ => do
    match ← condition.meaning lookup with
    | .boolean true => whenTrue.meaning lookup
    | .boolean false => whenFalse.meaning lookup
    | value => .error (.diagnostic ⟨.condition value, condition.span⟩)
  | stray sort => .error (.fault (.unknownExpression sort))

section Stack

variable (lookup : String → Option Value) {n : Nat}

/-- A stack of some size is exhausted, or it makes no difference. -/
theorem eval_approximates_meaning (e : Expr) (n : Nat) :
    Approximates (e.eval lookup n) (e.meaning lookup) := by
  induction e generalizing n with
  | literal | named | stray => exact .refl _
  | grouping e a ih => exact approximates_descend fun k _ => ih k
  | unary o e a ih => exact (approximates_descend fun k _ => ih k).bind fun _ _ => .refl _
  | binary l o r a left right =>
    exact (approximates_descend fun k _ => left k).bind fun _ _ =>
      (approximates_descend fun k _ => right k).bind fun _ _ => .refl _
  | ternary c t f a condition whenTrue whenFalse =>
    refine (approximates_descend fun k _ => condition k).bind fun v _ => ?_
    match v with
    | .boolean true => exact approximates_descend fun k _ => whenTrue k
    | .boolean false => exact approximates_descend fun k _ => whenFalse k
    | .number _ | .string _ | .nil => exact .refl _

theorem descend_of_height {e : Expr} {x : Except Stop Value} {cost : Nat} (hcost : cost ≤ 2)
    (room : 2 * (e.height + 1) ≤ n) (h : ∀ {k : Nat}, 2 * e.height ≤ k → e.eval lookup k = x) :
    descend cost n (e.eval lookup) = x := by
  have positive : 0 < e.height := by
    cases e <;> simp [height]
  rw [descend, if_pos (by omega)]
  exact h (by omega)

/-- Two frames for every level of the expression are enough. -/
theorem eval_eq_meaning (e : Expr) (room : 2 * e.height ≤ n) :
    e.eval lookup n = e.meaning lookup := by
  induction e generalizing n with
  | literal | named | stray => rfl
  | grouping e a ih => exact descend_of_height lookup (by decide) room ih
  | unary o e a ih => rw [eval, meaning, descend_of_height lookup le_rfl room ih]
  | binary l o r a left right =>
    rw [height] at room
    rw [eval, meaning, descend_of_height lookup le_rfl (by omega) left,
      descend_of_height lookup le_rfl (by omega) right]
  | ternary c t f a condition whenTrue whenFalse =>
    rw [height] at room
    rw [eval, descend_of_height lookup le_rfl (by omega) condition,
      descend_of_height lookup le_rfl (by omega) whenTrue,
      descend_of_height lookup le_rfl (by omega) whenFalse]
    rfl

/-- A stack without end is not exhausted. -/
theorem meaning_ne_exhausted (e : Expr) : e.meaning lookup ≠ .error .exhausted := by
  intro exhausted
  induction e with
  | literal | stray => cases exhausted
  | named name a =>
    rw [meaning] at exhausted
    split at exhausted <;> cases exhausted
  | grouping e a ih => exact ih exhausted
  | unary o e a ih =>
    obtain inside | ⟨v, -, here⟩ := Except.bind_eq_error.mp exhausted
    · exact ih inside
    · obtain ⟨m, ⟨⟩⟩ | ⟨⟨⟩⟩ := applyUnary_eq_error here
  | binary l o r a left right =>
    obtain inside | ⟨v, -, exhausted⟩ := Except.bind_eq_error.mp exhausted
    · exact left inside
    obtain inside | ⟨w, -, here⟩ := Except.bind_eq_error.mp exhausted
    · exact right inside
    · obtain ⟨m, ⟨⟩⟩ | ⟨⟨⟩⟩ := applyBinary_eq_error here
  | ternary c t f a condition whenTrue whenFalse =>
    obtain inside | ⟨v, -, exhausted⟩ := Except.bind_eq_error.mp exhausted
    · exact condition inside
    match v with
    | .boolean true => exact whenTrue exhausted
    | .boolean false => exact whenFalse exhausted
    | .number _ | .string _ | .nil => cases exhausted

/-- A stack with two frames for every level of the expression is not exhausted. -/
theorem eval_ne_exhausted (e : Expr) (room : 2 * e.height ≤ n) :
    e.eval lookup n ≠ .error .exhausted := by
  rw [e.eval_eq_meaning lookup room]
  exact e.meaning_ne_exhausted lookup

end Stack

/-! ## Names that are looked up -/

/-- Evaluating the expression looks the name up: it stands in no side of a choice that is not
chosen, and behind no operand that fails. -/
inductive Consults (lookup : String → Option Value) : Expr → String → Prop where
  | named {name : String} {a : Option Span} : Consults lookup (.named name a) name
  | grouping {e : Expr} {a : Option Span} {name : String} : Consults lookup e name →
    Consults lookup (.grouping e a) name
  | unary {o : TokenKind} {e : Expr} {a : Option Span} {name : String} : Consults lookup e name →
    Consults lookup (.unary o e a) name
  | left {l r : Expr} {o : TokenKind} {a : Option Span} {name : String} : Consults lookup l name →
    Consults lookup (.binary l o r a) name
  | right {l r : Expr} {o : TokenKind} {a : Option Span} {name : String} {v : Value} :
    l.meaning lookup = .ok v → Consults lookup r name → Consults lookup (.binary l o r a) name
  | condition {c t f : Expr} {a : Option Span} {name : String} : Consults lookup c name →
    Consults lookup (.ternary c t f a) name
  | whenTrue {c t f : Expr} {a : Option Span} {name : String} :
    c.meaning lookup = .ok (.boolean true) → Consults lookup t name →
    Consults lookup (.ternary c t f a) name
  | whenFalse {c t f : Expr} {a : Option Span} {name : String} :
    c.meaning lookup = .ok (.boolean false) → Consults lookup f name →
    Consults lookup (.ternary c t f a) name

/-- Names that are not looked up make no difference. -/
theorem meaning_congr {e : Expr} {lookup lookup' : String → Option Value}
    (agree : ∀ name, e.Consults lookup name → lookup name = lookup' name) :
    e.meaning lookup = e.meaning lookup' := by
  induction e with
  | literal | stray => rfl
  | named name a => rw [meaning, meaning, agree name .named]
  | grouping e a ih => exact ih fun name h => agree name (.grouping h)
  | unary o e a ih => rw [meaning, meaning, ih fun name h => agree name (.unary h)]
  | binary l o r a left right =>
    rw [meaning, meaning, ← left fun name h => agree name (.left h)]
    cases value : l.meaning lookup with
    | error stop => rfl
    | ok v => rw [right fun name h => agree name (.right value h)]
  | ternary c t f a condition whenTrue whenFalse =>
    rw [meaning, meaning, ← condition fun name h => agree name (.condition h)]
    cases value : c.meaning lookup with
    | error stop => rfl
    | ok v =>
      match v with
      | .boolean true => exact whenTrue fun name h => agree name (.whenTrue value h)
      | .boolean false => exact whenFalse fun name h => agree name (.whenFalse value h)
      | .number _ | .string _ | .nil => rfl

/-! ## Parentheses and places -/

/-- Without parentheses and places an expression comes to the same, save for the place of a
report. -/
theorem meaning_core (lookup : String → Option Value) (e : Expr) :
    e.core.meaning lookup = (e.meaning lookup).mapError (Stop.mapSpan fun _ => none) := by
  induction e with
  | literal | stray => rfl
  | named name a =>
    rw [core, meaning, meaning]
    cases lookup name <;> rfl
  | grouping e a ih => exact ih
  | unary o e a ih =>
    rw [core, meaning, meaning, ih, Except.mapError_bind]
    simp only [← applyUnary_mapSpan]
  | binary l o r a left right =>
    rw [core, meaning, meaning, left, right]
    simp only [Except.mapError_bind, ← applyBinary_mapSpan]
  | ternary c t f a condition whenTrue whenFalse =>
    rw [core, meaning, meaning, condition, whenTrue, whenFalse, span_core, Except.mapError_bind]
    congr 1
    funext value
    split <;> rfl

/-- On a stack with two frames for every level, expressions that are the same without parentheses
and places come to the same over the same names, save for the place of a report. -/
theorem evaluate_of_core_eq [Stack] {e f : Expr} (same : e.core = f.core) (globals : Bindings)
    (room : 2 * e.height ≤ Stack.frames) (room' : 2 * f.height ≤ Stack.frames) :
    (e.evaluate globals).mapError (Stop.mapSpan fun _ => none) =
      (f.evaluate globals).mapError (Stop.mapSpan fun _ => none) := by
  rw [evaluate, evaluate, e.eval_eq_meaning _ room, f.eval_eq_meaning _ room', ← meaning_core,
    ← meaning_core, same]

/-- What is left of two outcomes without their places is the same if they are the same value, or
reports with the same cause, or the same fault. -/
theorem eq_but_place {x y : Except Stop Value}
    (h : x.mapError (Stop.mapSpan fun _ => none) = y.mapError (Stop.mapSpan fun _ => none))
    (hx : x ≠ .error .exhausted) :
    (∃ v, x = .ok v ∧ y = .ok v) ∨
      (∃ d d', x = .error (.diagnostic d) ∧ y = .error (.diagnostic d') ∧ d.cause = d'.cause) ∨
      ∃ why, x = .error (.fault why) ∧ y = .error (.fault why) := by
  cases x with
  | ok v =>
    cases y with
    | ok w =>
      obtain rfl : v = w := Except.ok.inj h
      exact .inl ⟨v, rfl, rfl⟩
    | error s => cases h
  | error s =>
    cases y with
    | ok w => cases h
    | error s' =>
      have stops : s.mapSpan (fun _ => none) = s'.mapSpan fun _ => none := Except.error.inj h
      cases s <;> cases s' <;>
        simp only [Stop.mapSpan, reduceCtorEq, Stop.diagnostic.injEq, Diagnostic.mk.injEq, and_true,
          Stop.fault.injEq] at stops
      case diagnostic.diagnostic d d' => exact .inr (.inl ⟨d, d', rfl, rfl, stops⟩)
      case fault.fault why why' => exact .inr (.inr ⟨why, rfl, congrArg _ (stops ▸ rfl)⟩)
      case exhausted.exhausted => exact absurd rfl hx

/-- Two expressions that are the same without parentheses and places come to the same value, to
reports with the same cause, or to the same fault, if all names that evaluating the first one looks
up mean the same for both. Each of them is evaluated on a stack of some size, which is not
exhausted; twice as many frames as the expression is high are enough for that. -/
theorem eval_of_core_eq {e f : Expr} (same : e.core = f.core)
    {lookup lookup' : String → Option Value}
    (agree : ∀ name, e.Consults lookup name → lookup name = lookup' name) {n m : Nat}
    (deep : e.eval lookup n ≠ .error .exhausted) (deep' : f.eval lookup' m ≠ .error .exhausted) :
    (∃ v, e.eval lookup n = .ok v ∧ f.eval lookup' m = .ok v) ∨
    (∃ d d', e.eval lookup n = .error (.diagnostic d) ∧
      f.eval lookup' m = .error (.diagnostic d') ∧ d.cause = d'.cause) ∨
    ∃ why, e.eval lookup n = .error (.fault why) ∧ f.eval lookup' m = .error (.fault why) := by
  have first : e.eval lookup n = e.meaning lookup :=
    (e.eval_approximates_meaning lookup n).resolve_left deep
  have second : f.eval lookup' m = f.meaning lookup' :=
    (f.eval_approximates_meaning lookup' m).resolve_left deep'
  refine eq_but_place ?_ deep
  calc (e.eval lookup n).mapError (Stop.mapSpan fun _ => none)
      = (e.meaning lookup').mapError (Stop.mapSpan fun _ => none) := by
        rw [first, meaning_congr agree]
    _ = e.core.meaning lookup' := (e.meaning_core lookup').symm
    _ = f.core.meaning lookup' := by rw [same]
    _ = (f.meaning lookup').mapError (Stop.mapSpan fun _ => none) := f.meaning_core lookup'
    _ = (f.eval lookup' m).mapError (Stop.mapSpan fun _ => none) := by rw [second]

/-- A sum that fails. Its left operand is a choice, and the side that is not chosen has a name that
only one of both knows. -/
theorem eval_of_core_eq_choice :
    let choice : Expr := .ternary (.named "b" none) (.named "x" none) (.named "y" none) none
    let e : Expr := .binary choice (.mark .plus) (.literal .nil none) (some {})
    let f : Expr := .binary (.grouping choice (some {})) (.mark .plus) (.literal .nil none) none
    let known (name : String) : Option Value :=
      if name = "b" then some (.boolean true) else if name = "x" then some (.number 1) else none
    let more (name : String) : Option Value := if name = "y" then some .nil else known name
    e.core = f.core ∧ (∀ name, e.Consults known name → known name = more name) ∧
      known "y" ≠ more "y" ∧ e.eval known 10 ≠ .error .exhausted ∧
      f.eval more 20 ≠ .error .exhausted ∧
      ∃ d d', e.eval known 10 = .error (.diagnostic d) ∧ f.eval more 20 = .error (.diagnostic d') ∧
        d.cause = d'.cause := by
  intro choice e f known more
  have same : e.core = f.core := rfl
  have agree : ∀ name, e.Consults known name → known name = more name := by
    intro name h
    simp only [e, choice] at h
    cases h with
    | left h =>
      cases h with
      | condition h =>
        cases h
        decide
      | whenTrue _ h =>
        cases h
        decide
      | whenFalse chosen _ => cases chosen
    | right _ h => cases h
  have report : e.eval known 10 = .error (.diagnostic
      ⟨.binaryOperand .plus (.number 1) .nil, some {}⟩) := by decide +kernel
  have report' : f.eval more 20 = .error (.diagnostic
      ⟨.binaryOperand .plus (.number 1) .nil, none⟩) := by decide +kernel
  have deep : e.eval known 10 ≠ .error .exhausted := e.eval_ne_exhausted known (by decide)
  have deep' : f.eval more 20 ≠ .error .exhausted := f.eval_ne_exhausted more (by decide)
  obtain ⟨v, value, -⟩ | ⟨d, d', failed, failed', cause⟩ | ⟨why, fault, -⟩ :=
    eval_of_core_eq same agree deep deep'
  · cases report.symm.trans value
  · exact ⟨same, agree, by decide, deep, deep', d, d', failed, failed', cause⟩
  · cases report.symm.trans fault

end Lox.Expr
