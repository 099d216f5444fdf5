import Lox.Command.Reply
import Lox.Command.Transcript
import Lox.Text.LineBreaks

/-!
# The prompt

Without a script the interpreter asks for lines and replies to each, over one set of names. An empty
line ends the session, and so does the end of the input, which leaves the last prompt on a line of
its own. Lines that fail end nothing.

* `replyAt`: the reply to a line.
* `prompt`: what a session leaves behind.
* `promptBreaksDown`: a session comes to a line without a reply.
-/

namespace Lox.Command

/-- What the interpreter writes to ask for a line. -/
def promptMark : String := "> "

/-- The reply to a line; an empty line has none and ends the session. -/
def replyAt [Segmenter] [Stack] (o : Options) (globals : Bindings) (line : String) : Option Reply :=
  if line = "" then none else some (o.reply globals line)

/-- A session over lines, from given names on. -/
def prompt [Segmenter] [Stack] (o : Options) (globals : Bindings) : List String → Transcript
  | [] => { output := promptMark ++ "\n" }
  | line :: more =>
    match replyAt o globals line with
    | none => { output := promptMark }
    | some r =>
      let later := prompt o r.globals more
      { output := promptMark ++ Text.ofLines r.output ++ later.output
        errors := Text.ofLines (o.errorLines r) ++ later.errors }

/-- A session over lines comes to a line that there is no reply to. -/
def promptBreaksDown [Segmenter] (o : Options) (lines : List String) : Bool :=
  (lines.takeWhile (· ≠ "")).any o.breaksDown

end Lox.Command
