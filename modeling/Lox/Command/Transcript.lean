import Lox.Text.Quoted

/-!
# Transcripts

What a program leaves behind: its exit code, and what it wrote to its two outputs. A program that is
asked for something it has no answer to breaks down, and leaves neither.

* `Transcript`: the three of them.
* `Breakdown`: why there is none, worded by `Breakdown.message`.
-/

namespace Lox.Command

/-- What a program leaves behind. -/
structure Transcript where
  exit : Nat := 0
  output : String := ""
  errors : String := ""
  deriving DecidableEq, Repr

/-- Why a program breaks down. -/
inductive Breakdown where
  /-- The limit on nesting was left out, and a text with an expression needs one. -/
  | limitMissing
  /-- The seed of a corpus was left out. -/
  | seedMissing
  /-- The number of programs of a corpus was left out. -/
  | countMissing
  /-- The folder above a corpus was left out. -/
  | targetMissing
  /-- A path holds a null character. -/
  | nullInPath
  /-- A folder cannot be made, for its name is too long. -/
  | nameTooLong (path : String)
  deriving DecidableEq, Repr

namespace Breakdown

/-- What went wrong, in words. -/
def message : Breakdown → String
  | limitMissing => "'>' not supported between instances of 'int' and 'list'"
  | seedMissing =>
    "The only supported seed types are: None,\nint, float, str, bytes, and bytearray."
  | countMissing => "'list' object cannot be interpreted as an integer"
  | targetMissing => "expected str, bytes or os.PathLike object, not list"
  | nullInPath => "embedded null byte"
  | nameTooLong path => "[Errno 36] File name too long: " ++ Text.quote path

end Breakdown

end Lox.Command
