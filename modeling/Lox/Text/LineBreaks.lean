/-!
# Line breaks

Texts that come from outside may end their lines with a line feed, a carriage return, or both.
Within the library a line ends with a line feed.

* `unifyLineBreaks`: the text with each of the three written as a line feed.
* `linesOf`: the lines of a text.
* `ofLines`: the text of lines.
-/

namespace Lox.Text

/-- Every carriage return, with a line feed behind it if there is one, becomes a line feed. -/
def unifyBreaks : List Char → List Char
  | [] => []
  | '\r' :: '\n' :: cs => '\n' :: unifyBreaks cs
  | c :: cs => (if c = '\r' then '\n' else c) :: unifyBreaks cs

/-- The text with its lines ended by line feeds. -/
def unifyLineBreaks (s : String) : String := String.ofList (unifyBreaks s.toList)

/-- The lines among characters. -/
def splitLines : List Char → List (List Char)
  | [] => []
  | c :: cs =>
    if c = '\n' then [] :: splitLines cs
    else match splitLines cs with
      | [] => [[c]]
      | line :: lines => (c :: line) :: lines

/-- The lines of a text, without the line feeds that end them. The last line may lack one. -/
def linesOf (s : String) : List String := (splitLines s.toList).map String.ofList

/-- The text of lines, each of them ended by a line feed. -/
def ofLines (ls : List String) : String := String.join (ls.map (· ++ "\n"))

end Lox.Text
