import Lox.Syntax.Program

/-!
# Tokens made by hand

The scanner gives every number its value, and a grammar that reports as data has no need to write
its limit down. Whoever makes tokens by hand may leave a value out, and may ask for any limit.
Reading then breaks off where it needs what is not there: the value of a number, the text of a
number that has to be named in a report, or the text of the limit. Nothing that was read up to there
is given back.

* `MadeToken`: a token, or a number without a value.
* `Outcome.unworded?`: a report that there are no words for.
* `MadeToken.breach?`: what a declaration cannot do that has read some tokens.
* `Grammar.madeDeclaration`: a declaration that breaks off there.
* `MadeToken.items`: the items up to the end mark.
* `parseMade`: reads such tokens as a program.
-/

namespace Lox

/-- A token as it may be made by hand: a number may lack its value. A name or a string that lacks
its text counts as one, since some word is put in its place. -/
inductive MadeToken where
  | whole (t : PlacedToken)
  | valueless (span : Option Span)
  deriving DecidableEq, Repr

/-- What breaks off if the outcome is a report that there are no words for. -/
def Outcome.unworded? {α : Type} : Outcome α → Option Fault
  | .failed (.diagnostic d) _ => if d.isWorded then none else some .unwrittenLimit
  | _ => none

namespace MadeToken

/-- The token, with some value where a number has none. No value of a number makes a difference to
how the tokens are read. -/
def filled : MadeToken → PlacedToken
  | whole t => t
  | valueless span => ⟨.number 0, span⟩

/-- The token is a number without a value. -/
def isValueless : MadeToken → Bool
  | whole _ => false
  | valueless _ => true

/-- What a declaration cannot do that has read these tokens and ended like that. A number is read in
two ways only: as an expression, for its value, or where something else is needed, which is reported
under the name of the number and ends the declaration. -/
def breach? (read : List MadeToken) (o : Outcome Stmt) : Option Fault :=
  match read.findIdx? isValueless, o with
  | some i, .failed (.diagnostic ⟨.wrongToken _ _, _⟩) _ =>
    some (if i + 1 = read.length then .unnamedNumber else .missingValue)
  | some _, _ => some .missingValue
  | none, o => o.unworded?

end MadeToken

namespace Rule

variable {α : Type}

/-- The rule, unless how it ended is a breach. -/
def unlessBreach (r : Rule α) (breach? : TokenStream → Outcome α → Option Fault) : Rule α where
  run s :=
    match breach? s (r.run s) with
    | some f => .failed (.fault f) (r.run s).stream
    | none => r.run s
  Visits := r.Visits
  shrinks s := by
    have h := r.shrinks s
    split <;> exact h

theorem Consumes.unlessBreach {r : Rule α} (h : r.Consumes)
    (breach? : TokenStream → Outcome α → Option Fault) : (r.unlessBreach breach?).Consumes := by
  intro s a s' e
  simp only [Rule.unlessBreach] at e
  split at e
  · cases e
  · exact h s a s' e

end Rule

namespace Grammar

/-- A declaration, read from tokens made by hand. -/
def madeDeclaration (made : List MadeToken) (limit : Int) : Rule Stmt :=
  (topDeclaration limit).unlessBreach fun s o =>
    MadeToken.breach? ((made.drop s.index).take (o.stream.index - s.index)) o

theorem consumes_madeDeclaration (made : List MadeToken) (limit : Int) :
    (madeDeclaration made limit).Consumes :=
  (consumes_declaration _).unlessBreach _

end Grammar

namespace MadeToken

/-- A stream at the start of a list of tokens made by hand. -/
def stream (tokens : List MadeToken) : TokenStream := .ofTokens (tokens.map filled)

/-- The tokens that are no white space. -/
def visible (tokens : List MadeToken) : List MadeToken :=
  tokens.filter (fun t => t.filled.kind != .whitespace)

/-- The items up to the end mark, and the stream there. -/
def items (tokens : List MadeToken) (limit : Int) : Except Fault (List Item × TokenStream) :=
  (stream tokens).loop (Grammar.madeDeclaration (visible tokens) limit)
    (Grammar.consumes_madeDeclaration _ _)

end MadeToken

/-- Reads a list of tokens made by hand as a program. -/
def parseMade (tokens : List MadeToken) (limit : Int := Grammar.defaultLimit) :
    Except Fault Parsed :=
  (MadeToken.items tokens limit).map fun (items, _) => .ofItems items

end Lox
