import Lox.Text.Quoted

/-!
# Escaped texts in debug output

The debug text of a string keeps to one line: tabs, line breaks, quotes, backslashes and controls
are written as escapes, everything else as it is.

* `escape`: the text with its escapes.
-/

namespace Lox.Text

/-- The letter that stands for a character behind a backslash. -/
def escapeLetter? : Char → Option Char
  | '\t' => some 't'
  | '\r' => some 'r'
  | '\n' => some 'n'
  | '\\' => some '\\'
  | '"' => some '"'
  | '\x00' => some '0'
  | _ => none

/-- One character, escaped if it is a control, a quote or a backslash. Controls without a letter of
their own are written with their code point between braces. -/
def escapedChar (c : Char) : List Char :=
  match escapeLetter? c with
  | some letter => ['\\', letter]
  | none =>
    if c.toNat < 0x20 ∨ c.toNat = 0x7F then '\\' :: 'u' :: '\x7b' :: hex 0 c.toNat ++ ['\x7d']
    else [c]

/-- The text with its escapes. -/
def escape (s : String) : String := String.ofList (s.toList.flatMap escapedChar)

end Lox.Text
