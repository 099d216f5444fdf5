import Lox.Folder
import Lox.Session
import Lox.Text.LineBreaks
import Lox.Text.Utf8

/-!
# Scripts

A script is a file that holds a source text. Its bytes are read as text and its lines are made to
end with line feeds, so that what runs has no other line breaks.

* `readScript`: the text of a script, or why it cannot be read.
* `runFile`: running a script is running its text.
* `runFileIn`: the same, for a path within a folder.
-/

namespace Lox

/-- Why a script cannot be read. -/
inductive ReadError where
  | absent (path : String)
  | blocked (path : String)
  | folder (path : String)
  | locked (path : String)
  | tooLong (path : String)
  /-- No path holds a null character. -/
  | nullInPath
  /-- The path starts at the home of a user who is not there. -/
  | homeless
  | malformed (bytes : Text.Utf8.Malformed)
  deriving DecidableEq, Repr

namespace ReadError

/-- The reason in words. -/
def message : ReadError → String
  | absent path => "[Errno 2] No such file or directory: " ++ Text.quote path
  | blocked path => "[Errno 20] Not a directory: " ++ Text.quote path
  | folder path => "[Errno 21] Is a directory: " ++ Text.quote path
  | locked path => "[Errno 13] Permission denied: " ++ Text.quote path
  | tooLong path => "[Errno 36] File name too long: " ++ Text.quote path
  | nullInPath => "embedded null byte"
  | homeless => "Could not determine home directory."
  | malformed bytes => bytes.message

end ReadError

/-- The text of a script, found at the end of a path of this name. -/
def readScript (path : String) : Entry → Except ReadError String
  | .file bytes =>
    match Text.Utf8.decode bytes with
    | .ok text => .ok (Text.unifyLineBreaks text)
    | .error m => .error (.malformed m)
  | .folder => .error (.folder path)
  | .absent => .error (.absent path)
  | .blocked => .error (.blocked path)
  | .locked => .error (.locked path)
  | .tooLong => .error (.tooLong path)

/-- Runs a script over global names. -/
def runFile [Segmenter] [Stack] (globals : Bindings) (path : String) (entry : Entry)
    (limit : Int := Grammar.defaultLimit) : Except ReadError Run :=
  match readScript path entry with
  | .ok text => .ok (run globals text limit)
  | .error e => .error e

/-- Runs the script that a path leads to for one who stands in a folder. -/
def runFileIn [Segmenter] [Stack] (folder : Folder) (globals : Bindings) (path : String)
    (limit : Int := Grammar.defaultLimit) : Except ReadError Run :=
  let p := Path.ofText path
  match folder.expandHome p with
  | none => .error (if Path.holdsNull ⟨"", p.names.take 1⟩ then .nullInPath else .homeless)
  | some p =>
    let goal := p.resolve folder.place
    if p.holdsNull then .error .nullInPath
    else runFile globals goal.text (folder.entry goal) limit

end Lox
