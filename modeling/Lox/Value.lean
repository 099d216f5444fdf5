import Lox.Decimal.Layout
import Lox.Text.Escaped

/-!
# Values

What expressions evaluate to, and what literals stand for.

* `Value.debug`: the text that printing a value shows. It tells values apart.
* `Value.display`: the text as a reader would write the value.
* `Value.truth`: how a value counts as a truth value, if it does.
* `Value.equals`: equality as programs see it. Values of different sorts are never equal, and
  neither is a number that is no number to itself.
-/

namespace Lox

/-- A value of the language. -/
inductive Value where
  | number (x : Float)
  | string (s : String)
  | boolean (b : Bool)
  | nil
  deriving DecidableEq, Repr, Inhabited

namespace Value

/-- The words for truth values. -/
def wordOf (b : Bool) : String := if b then "true" else "false"

/-- The sort of the value, and its content in a form that keeps to one line. -/
def debug : Value → String
  | number x => "Number(" ++ Layout.debug.write x ++ ")"
  | string s => "String(\"" ++ Text.escape s ++ "\")"
  | boolean b => "Boolean(" ++ wordOf b ++ ")"
  | nil => "Nil"

/-- The value as a reader would write it, strings without quotes. -/
def display : Value → String
  | number x => Layout.plain.write x
  | string s => s
  | boolean b => wordOf b
  | nil => "nil"

/-- Truth values count as themselves and nil as false; numbers and strings do not count. -/
def truth : Value → Option Bool
  | boolean b => some b
  | nil => some false
  | _ => none

/-- Equality of values in programs. -/
def equals : Value → Value → Bool
  | number x, number y => x == y
  | string s, string t => s == t
  | boolean b, boolean c => b == c
  | nil, nil => true
  | _, _ => false

end Value

end Lox
