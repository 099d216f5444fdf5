import Lox.Command.Interpreter
import Lox.Corpus.Writer

/-!
# The programs

The outer layer: it finds the files that paths lead to, reads lines for the prompt and writes what
the programs leave behind. Called by the name `generate_corpus` it is the writer of corpora, and the
interpreter by any other name.
-/

namespace Lox

open Command

/-- What a path leads to on the disk. -/
def entryOnDisk (path : Path) : IO Entry := do
  match ← (IO.FS.readBinFile path.text).toBaseIO with
  | .ok bytes => return .file bytes.toList
  | .error (.inappropriateType _ 21 _) => return .folder
  | .error (.inappropriateType ..) => return .blocked
  | .error (.permissionDenied ..) => return .locked
  | .error (.noFileOrDirectory ..) => return .absent
  | .error (.invalidArgument _ _ "name too long") => return .tooLong
  | .error e => throw e

/-- Reports a breakdown; what is left is the exit code. -/
def reportBreakdown (b : Breakdown) : IO UInt32 := do
  IO.eprintln b.message
  return 1

/-- Writes a transcript; what is left is the exit code. -/
def write (t : Transcript) : IO UInt32 := do
  IO.print t.output
  IO.eprint t.errors
  return UInt32.ofNat t.exit

/-- Asks for lines and replies to them. Lines that were read together wait for their turn. -/
partial def ask (o : Options) (globals : Bindings) (waiting : List String) : IO UInt32 := do
  match waiting with
  | line :: more =>
    match replyAt o globals line with
    | none => return 0
    | some r =>
      if o.breaksDown line then reportBreakdown .limitMissing
      else
        IO.print (Text.ofLines r.output)
        IO.eprint (Text.ofLines (o.errorLines r))
        IO.print promptMark
        ask o r.globals more
  | [] =>
    (← IO.getStdout).flush
    match linesOfInput (← (← IO.getStdin).getLine) with
    | [] =>
      IO.println ""
      return 0
    | lines => ask o globals lines

/-- The interpreter. -/
def interpreterMain (words : List String) : IO UInt32 := do
  match Request.ofWords words with
  | .prompt o =>
    IO.print promptMark
    ask o {} []
  | .script o path =>
    let entry ← if path.holdsNull then pure .absent else entryOnDisk path
    let request := Request.script o path
    match request.breakdown? (fun _ => entry) "" with
    | some b => reportBreakdown b
    | none => write (request.transcript (fun _ => entry) "")
  | request => write (request.transcript (fun _ => .absent) "")

/-- The writer of corpora. -/
def writerMain (words : List String) : IO UInt32 := do
  match Corpus.write words (Path.ofText (toString (← IO.currentDir))).names with
  | .error b => reportBreakdown b
  | .ok written =>
    if let some folder := written.folder then
      IO.FS.createDirAll folder.text
      for (name, text) in written.files do
        IO.FS.writeFile (folder.text ++ "/" ++ name) text
    write written.transcript

end Lox

/-- The program that was called. -/
def main (words : List String) : IO UInt32 := do
  if (← IO.appPath).fileStem = some "generate_corpus" then Lox.writerMain words
  else Lox.interpreterMain words
