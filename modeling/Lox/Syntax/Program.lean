import Lox.Syntax.Grammar

/-!
# Programs and recovery

A program is a row of declarations. One that cannot be read is reported, and reading goes on at the
next statement: behind the next semicolon, or before the next word that starts a statement. So a
program is read as a row of items (`Item`), each a statement or a report, and every item takes at
least one token.

* `TokenStream.synchronize`: skips to the next statement.
* `TokenStream.loop`, `TokenStream.items`: the items up to the end mark.
* `TokenStream.program`, `parse`: the statements and the reports, each in order.

Reading is bounded by the limit on nesting and by nothing else. With a limit that is far beyond the
default, a text can be nested so deeply that a parser by recursion runs out of stack; that is left
out here. The reports are data: whether there are words for them is asked where tokens and limits
come from elsewhere (`parseMade`).
-/

namespace Lox

/-! ## Rules that read something -/

namespace Rule

variable {α β : Type}

/-- Whenever the rule gives a value, it has read a token. -/
def Consumes (r : Rule α) : Prop :=
  ∀ s a s', r.run s = .done a s' → s'.rest.length < s.rest.length

theorem Consumes.bind_left {r : Rule α} (h : r.Consumes) (f : α → Rule β) :
    (r >>= f).Consumes := by
  intro s b s' e
  rw [run_bind] at e
  split at e
  · rename_i a s'' e'
    have := (f a).shrinks s''
    rw [e] at this
    exact Nat.lt_of_le_of_lt this (h s a s'' e')
  · cases e

theorem Consumes.bind_right (r : Rule α) {f : α → Rule β} (h : ∀ a, (f a).Consumes) :
    (r >>= f).Consumes := by
  intro s b s' e
  rw [run_bind] at e
  split at e
  · rename_i a s'' e'
    have := r.shrinks s
    rw [e'] at this
    exact Nat.lt_of_lt_of_le (h a s'' b s' e) this
  · cases e

theorem consumes_fail (why : Failure) : (fail why : Rule α).Consumes :=
  fun _ _ _ e => by cases e

theorem consumes_consumeWith (wanted : TokenKind) (read : Token → Option α) :
    (consumeWith wanted read).Consumes := by
  intro s b s' e
  rw [consumeWith, run_bind] at e
  simp only [advance] at e
  rcases s with ⟨passed, rest, depth⟩
  cases rest with
  | nil => cases e
  | cons t ts =>
    simp only at e
    split at e
    · rename_i a s'' e'
      split at e'
      · cases e'
        simp only [run_bind, report, fail] at e
        split at e <;> cases e
      · cases e'
        simp only at e
        split at e
        · cases e
          exact Nat.lt_succ_self _
        · cases e
    · cases e

theorem consumes_consume (wanted : TokenKind) : (consume wanted).Consumes :=
  (consumes_consumeWith wanted _).bind_left _

end Rule

namespace Grammar

open Rule

theorem consumes_variableDeclaration (expression : Rule Expr) :
    (variableDeclaration expression).Consumes := by
  refine Consumes.bind_right _ fun keyword => ?_
  cases keyword with
  | none => exact Consumes.bind_right _ fun _ => consumes_fail _
  | some keyword =>
    refine Consumes.bind_left ?_ _
    exact (consumes_consumeWith _ _).bind_left _

theorem consumes_statement (expression : Rule Expr) : (statement expression).Consumes := by
  refine Consumes.bind_right _ fun keyword => ?_
  cases keyword with
  | none =>
    exact Consumes.bind_right _ fun _ => (consumes_consume _).bind_left _
  | some keyword =>
    exact Consumes.bind_right _ fun _ => Consumes.bind_right _ fun _ =>
      (consumes_consume _).bind_left _

/-- A declaration takes at least its semicolon. -/
theorem consumes_declaration (expression : Rule Expr) : (declaration expression).Consumes := by
  refine Consumes.bind_right _ fun keyword => ?_
  cases keyword with
  | none => exact consumes_statement expression
  | some _ => exact consumes_variableDeclaration expression

end Grammar

/-! ## Recovery -/

/-- The words that start a statement. -/
def Mark.statementStarts : List Mark :=
  [.classWord, .forWord, .funWord, .ifWord, .printWord, .returnWord, .varWord, .whileWord]

namespace TokenStream

/-- The token ends the skipping when it stands next. -/
def resumesAt (t : PlacedToken) : Bool :=
  t.isEnd || Mark.statementStarts.any (fun m => t.kind == .mark m)

/-- The latest token read is a semicolon. -/
def closes (passed : List PlacedToken) : Bool :=
  passed.head?.any (fun t => t.kind == .mark .semicolon)

/-- The loop of `synchronize`, over the tokens read and those still to read. -/
def skip (passed : List PlacedToken) :
    List PlacedToken → Except Fault (List PlacedToken × List PlacedToken)
  | [] => if closes passed then .ok (passed, []) else .error .missingEnd
  | t :: ts => if closes passed || resumesAt t then .ok (passed, t :: ts) else skip (t :: passed) ts

/-- Skips to the next statement: stops behind a semicolon, before a word that starts a statement, or
before the end mark. -/
def synchronize (s : TokenStream) : Except Fault TokenStream :=
  (skip s.passed s.rest).map fun (passed, rest) => { s with passed, rest }

/-- Reads whatever token stands next. -/
def stepOver (s : TokenStream) : TokenStream :=
  match s.rest with
  | [] => s
  | t :: ts => { s with passed := t :: s.passed, rest := ts }

/-- Goes on after a failure: skips to the next statement, and over one token if that read nothing
since `start`. -/
def recover (start failed : TokenStream) : Except Fault TokenStream :=
  failed.synchronize.map fun s =>
    if s.rest.length < start.rest.length then s else s.stepOver

theorem skip_shrinks {passed passed' rest rest' : List PlacedToken}
    (h : skip passed rest = .ok (passed', rest')) : rest'.length ≤ rest.length := by
  induction rest generalizing passed with
  | nil =>
    rw [skip] at h
    split at h <;> simp_all
  | cons t ts ih =>
    rw [skip] at h
    split at h
    · simp_all
    · exact Nat.le_succ_of_le (ih h)

theorem recover_shrinks {start failed s : TokenStream} (hs : start.rest ≠ [])
    (hf : failed.rest.length ≤ start.rest.length) (h : recover start failed = .ok s) :
    s.rest.length < start.rest.length := by
  unfold recover synchronize at h
  cases e : skip failed.passed failed.rest with
  | error f => simp [e, Except.map] at h
  | ok r =>
    have hr := skip_shrinks e
    simp only [e, Except.map, Except.ok.injEq] at h
    split at h
    · rename_i hlt
      rw [← h]
      exact hlt
    · rename_i hlt
      rw [← h, stepOver]
      have := List.length_pos_iff.2 hs
      split
      · simp_all
      · rename_i t ts hts
        simp only at hts hlt ⊢
        simp only [hts, List.length_cons] at hlt hr
        omega

end TokenStream

/-! ## Items -/

/-- A declaration as read: a statement, or a report of why it is none. -/
inductive Item where
  | statement (s : Stmt)
  | rejected (d : Diagnostic)
  deriving DecidableEq, Repr

namespace Item

/-- The statement that was read. -/
def statement? : Item → Option Stmt
  | statement s => some s
  | rejected _ => none

/-- The report of what could not be read. -/
def diagnostic? : Item → Option Diagnostic
  | statement _ => none
  | rejected d => some d

end Item

namespace Grammar

/-- A declaration, with no level open yet. -/
def topDeclaration (limit : Int) : Rule Stmt := declaration (expression limit limit.toNat)

end Grammar

namespace TokenStream

/-- The items up to the end mark, and the stream there, with a rule that reads declarations. -/
def loop (declaration : Rule Stmt) (consumes : declaration.Consumes) (s : TokenStream) :
    Except Fault (List Item × TokenStream) :=
  match _next : s.rest with
  | [] => .error .missingEnd
  | t :: _ =>
    if t.isEnd then .ok ([], s)
    else
      match _ran : declaration.run s with
      | .done statement s' =>
        (loop declaration consumes s').map fun (is, stop) => (.statement statement :: is, stop)
      | .failed (.fault f) _ => .error f
      | .failed (.diagnostic d) failed =>
        match _recovered : recover s failed with
        | .error f => .error f
        | .ok s' =>
          (loop declaration consumes s').map fun (is, stop) => (.rejected d :: is, stop)
termination_by s.rest.length
decreasing_by
  · exact consumes _ _ _ _ran
  · refine recover_shrinks (by simp [_next]) ?_ _recovered
    have := declaration.shrinks s
    rwa [_ran] at this

/-- One round of the loop. -/
theorem loop_eq (declaration : Rule Stmt) (consumes : declaration.Consumes) (s : TokenStream) :
    loop declaration consumes s = match s.rest with
      | [] => .error .missingEnd
      | t :: _ =>
        if t.isEnd then .ok ([], s)
        else
          match declaration.run s with
          | .done statement s' =>
            (loop declaration consumes s').map fun (is, stop) => (.statement statement :: is, stop)
          | .failed (.fault f) _ => .error f
          | .failed (.diagnostic d) failed =>
            match recover s failed with
            | .error f => .error f
            | .ok s' =>
              (loop declaration consumes s').map fun (is, stop) => (.rejected d :: is, stop) := by
  rw [loop]
  split
  · rename_i h; rw [h]
  · rename_i t ts h
    simp only [h]
    split
    · rfl
    · split
      · rename_i e; rw [e]
      · rename_i e; rw [e]
      · rename_i e
        simp only [e]
        split <;> rename_i e' <;> rw [e']

/-- The items up to the end mark, and the stream there. -/
def items (limit : Int) (s : TokenStream) : Except Fault (List Item × TokenStream) :=
  s.loop (Grammar.topDeclaration limit) (Grammar.consumes_declaration _)

/-- One round of the loop, for the declarations of the grammar. -/
theorem items_eq (limit : Int) (s : TokenStream) :
    items limit s = match s.rest with
      | [] => .error .missingEnd
      | t :: _ =>
        if t.isEnd then .ok ([], s)
        else
          match (Grammar.topDeclaration limit).run s with
          | .done statement s' =>
            (items limit s').map fun (is, stop) => (.statement statement :: is, stop)
          | .failed (.fault f) _ => .error f
          | .failed (.diagnostic d) failed =>
            match recover s failed with
            | .error f => .error f
            | .ok s' => (items limit s').map fun (is, stop) => (.rejected d :: is, stop) :=
  loop_eq _ _ s

end TokenStream

/-- What parsing gives: the statements, and the reports of what was no statement. -/
structure Parsed where
  statements : List Stmt
  errors : List Diagnostic
  deriving DecidableEq, Repr

namespace Parsed

/-- Statements and reports of a row of items. -/
def ofItems (items : List Item) : Parsed :=
  { statements := items.filterMap Item.statement?, errors := items.filterMap Item.diagnostic? }

end Parsed

/-- The statements and the reports up to the end mark, and the stream there. -/
def TokenStream.program (limit : Int) (s : TokenStream) : Except Fault (Parsed × TokenStream) :=
  (s.items limit).map fun (items, stop) => (.ofItems items, stop)

/-- Reads a list of tokens as a program. -/
def parse (tokens : List PlacedToken) (limit : Int := Grammar.defaultLimit) : Except Fault Parsed :=
  ((TokenStream.ofTokens tokens).program limit).map Prod.fst

end Lox
