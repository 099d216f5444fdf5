import Lox.Command.Arguments
import Lox.Command.Transcript
import Lox.Corpus.Sample
import Lox.Folder

/-!
# Writing a corpus

The corpus for a seed is written into a folder of its own, which is named for the seed and the
number of programs. Beside each program stand its canonical text, if it has one, and its outcome,
unless only the programs are wanted.

* `Settings`, `writer`: what the program that writes a corpus can be told, and how.
* `write`: the files that it writes, and what it leaves behind.
-/

namespace Lox.Corpus

open Command

/-- What the writer can be told. What is left out where it belongs is missing. -/
structure Settings where
  seed : Option Int := some 1
  count : Option Int := some 200
  /-- The folder above the folder of the corpus. -/
  target : Option String := some "tests/fixtures/generated_corpus"
  sourcesOnly : Bool := false
  deriving DecidableEq, Repr

/-- The command line of the writer. -/
def writer : CommandLine Settings where
  program := "generate_corpus"
  switches :=
    [⟨["-h", "--help"], .help⟩,
      ⟨["--seed"],
        .value "int" (fun text => (Text.integerOf? text).map fun n s => { s with seed := some n })
          (fun s => { s with seed := none })⟩,
      ⟨["--count"],
        .value "int" (fun text => (Text.integerOf? text).map fun n s => { s with count := some n })
          (fun s => { s with count := none })⟩,
      ⟨["--out"],
        .value "str" (fun target => some fun s => { s with target := some target })
          (fun s => { s with target := none })⟩,
      ⟨["--sources-only"], .flag fun s => { s with sourcesOnly := true }⟩]
  settings := {}
  takesOperands := false
  usage :=
    "usage: generate_corpus [-h] [--seed SEED] [--count COUNT] [--out OUT]\n" ++
    "                       [--sources-only]\n"
  explanation :=
    "options:\n" ++
    "  -h, --help      show this help message and exit\n" ++
    "  --seed SEED\n" ++
    "  --count COUNT\n" ++
    "  --out OUT\n" ++
    "  --sources-only  skip the .fmt.lox and .out files\n"

/-- What the writer leaves behind: its outputs, the folder that it makes, and the files in it. -/
structure Written where
  transcript : Transcript
  /-- The folder of the corpus, unless there is none. -/
  folder : Option Path := none
  /-- The names of the files in it, with their texts. -/
  files : List (String × String) := []
  deriving Repr

/-- The files for a program: its text, and unless only that is wanted its canonical text and its
outcome. -/
def filesOf [Segmenter] [Stack] (sourcesOnly : Bool) (name source : String) :
    List (String × String) :=
  let beside :=
    if sourcesOnly then []
    else
      let canonical := match canonicalText source with
        | .ok (some text) => [(name ++ ".fmt.lox", text)]
        | _ => []
      canonical ++ [(name ++ ".out", (outcome source).1)]
  (sourceName name, source) :: beside

/-- A number in the name of a folder. One that is missing leaves a pair of brackets. -/
def numberText (n : Option Int) : String := (n.map toString).getD "[]"

/-- The name of the folder of a corpus. -/
def folderName (s : Settings) : String :=
  "seed_" ++ numberText s.seed ++ "_count_" ++ numberText s.count

/-- The line that says how many programs ran cleanly. -/
def summary [Segmenter] [Stack] (count : Int) (sources : List String) : String :=
  let failures := (sources.filter fun source => (outcome source).2.isSome).length
  toString (count - failures) ++ " ran cleanly, " ++ toString failures ++
    " stopped with diagnostics"

/-- The folder of a corpus, for one who stands at `place`. -/
def folderOf (s : Settings) (place : List String) : Except Breakdown Path := do
  let some target := s.target | throw .targetMissing
  let target := Path.ofText target
  if target.holdsNull then throw .nullInPath
  let folder := Path.fromTop ((target.resolve place).names ++ [folderName s])
  if Path.nameLimit < (folderName s).utf8ByteSize then throw (.nameTooLong folder.text)
  pure folder

/-- What the writer leaves behind with these settings when it stands at `place`. -/
def writeCorpus [Segmenter] [Stack] (s : Settings) (place : List String) :
    Except Breakdown Written := do
  let folder ← folderOf s place
  let some seed := s.seed | throw .seedMissing
  let some count := s.count | throw .countMissing
  let sources := sources seed count
  let lines := folder.text :: if s.sourcesOnly then [] else [summary count sources]
  pure {
    transcript := { output := Text.ofLines lines }
    folder
    files := sources.zipIdx.flatMap fun (source, i) =>
      filesOf s.sourcesOnly (sampleName i) source }

/-- What the writer leaves behind for a command line. -/
def write [Segmenter] [Stack] (words : List String) (place : List String) :
    Except Breakdown Written :=
  match writer.read words with
  | .error .help => .ok { transcript := { output := writer.help } }
  | .error (.misused m) => .ok { transcript := { exit := 2, errors := writer.report m } }
  | .ok (s, _) => writeCorpus s place

end Lox.Corpus
