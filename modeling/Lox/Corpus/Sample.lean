import Lox.Corpus.Generator
import Lox.Corpus.Twister
import Lox.Session
import Lox.Syntax.Canonical

/-!
# Samples

A corpus is a row of random programs that a seed decides. Beside each program stand its canonical
text and what it prints.

* `sources`, `files`: the programs for a seed, without and with the names of their files.
* `canonicalText`: the canonical text of a program.
* `outcome`: what a program prints, and how it fails.
-/

namespace Lox.Corpus

/-- The twister as a source of random numbers. -/
def twister : Randomness Twister where
  fraction := Twister.fraction
  upTo := Twister.upTo

/-- The programs for a seed. A negative number of programs is none. -/
def sources (seed count : Int) : List String :=
  let programs := ((Draw.times count.toNat Draw.program).run twister (Twister.ofSeed seed)).1
  programs.map textOf

/-- The name of a program, by its place in the row. -/
def sampleName (i : Nat) : String :=
  let digits := (toString i).toList
  "case_" ++ String.ofList (List.replicate (6 - digits.length) '0' ++ digits)

/-- The name of the file for a program. -/
def sourceName (name : String) : String := name ++ ".lox"

/-- The programs for a seed, with the names of their files. -/
def files (seed count : Int) : List (String × String) :=
  (sources seed count).zipIdx.map fun (source, i) => (sourceName (sampleName i), source)

/-- The canonical text of a program, if the text is one. -/
def canonicalText [Segmenter] [Stack] (text : String) : Except Unshowable (Option String) :=
  let scanned := scanText text
  if scanned.errors ≠ [] then .ok none
  else
    match parse (withoutComments scanned.tokens) with
    | .error _ => .ok none
    | .ok parsed =>
      if parsed.errors ≠ [] then .ok none else (canonical parsed.statements).map some

/-- The lines that say how a run failed: the stage, then the reports. -/
def failureLines : Ending → List String
  | .stopped stage errors =>
    ("-- " ++ stage.display ++ " failed --") :: errors.map Diagnostic.text
  | _ => []

/-- What a text prints when it is run on its own, how it fails, and in which stage. -/
def outcome [Segmenter] [Stack] (text : String) : String × Option Stage :=
  let r := run {} text
  (Text.ofLines (r.output ++ failureLines r.ending), r.ending.stage?)

end Lox.Corpus
