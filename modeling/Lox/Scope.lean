import Std.Data.TreeMap
import Lox.Diagnostic
import Lox.Stack

/-!
# Names and their values

* `Bindings`: what the names of one scope stand for, in the order of the names.
* `Scopes`: scopes that enclose each other. A scope is called by the number of scopes that are older
  than it, and encloses only younger ones; a name means what the nearest scope that defines it says,
  going outwards. Any scope may be given new definitions at any time, and those within it see them.
-/

namespace Lox

/-- What names stand for. -/
abbrev Bindings := Std.TreeMap String Value

/-- One scope, and the scope around it. -/
structure Scope where
  enclosing : Option Nat
  bindings : Bindings := {}

/-- Scopes, the youngest first. -/
structure Scopes where
  scopes : List Scope

namespace Scopes

/-- A single scope, with nothing around it. -/
def initial : Scopes := ⟨[{ enclosing := none }]⟩

/-- The number of scopes, which is also the number of the next scope. -/
def count (s : Scopes) : Nat := s.scopes.length

/-- One more scope, within the scope of this number. -/
def push (s : Scopes) (enclosing : Nat) : Scopes := ⟨{ enclosing := some enclosing } :: s.scopes⟩

/-- The loop of `define`. -/
def defineIn (id : Nat) (name : String) (value : Value) : List Scope → List Scope
  | [] => []
  | scope :: older =>
    if id = older.length then { scope with bindings := scope.bindings.insert name value } :: older
    else scope :: defineIn id name value older

/-- Gives a name a value in one scope, in place of any value that it has there. -/
def define (s : Scopes) (id : Nat) (name : String) (value : Value) : Scopes :=
  ⟨defineIn id name value s.scopes⟩

/-- The loop of `find?`. -/
def findIn (name : String) : List Scope → Nat → Option Value
  | [], _ => none
  | scope :: older, id =>
    if id = older.length then
      match scope.bindings[name]? with
      | some value => some value
      | none => scope.enclosing.bind (findIn name older)
    else findIn name older id

/-- What a name means in a scope. -/
def find? (s : Scopes) (id : Nat) (name : String) : Option Value := findIn name s.scopes id

/-- The walk of `contains?`, with so many frames of the stack left. -/
def containedIn (name : String) : List Scope → Nat → Nat → Option Bool
  | [], _, _ => some false
  | scope :: older, id, frames =>
    if id = older.length then
      if frames = 0 then none
      else if scope.bindings.contains name then some true
      else match scope.enclosing with
        | some outer => containedIn name older outer (frames - 1)
        | none => some false
    else containedIn name older id frames

/-- Whether a name means something in a scope. Every scope that is asked takes a frame of the stack,
and there is no answer when none are left. -/
def contains? [Stack] (s : Scopes) (id : Nat) (name : String) : Option Bool :=
  containedIn name s.scopes id Stack.frames

/-- What a name means in a scope, or the report that it means nothing. -/
def get (s : Scopes) (id : Nat) (name : String) (span : Option Span := none) :
    Except Diagnostic Value :=
  match s.find? id name with
  | some value => .ok value
  | none => .error ⟨.undefinedVariable name, span⟩

/-- The definitions of one scope alone. -/
def bindingsOf (s : Scopes) (id : Nat) : Bindings :=
  match s.scopes[s.count - 1 - id]? with
  | some scope => scope.bindings
  | none => {}

end Scopes

end Lox
