import Lox.Proofs.Text.Utf8
import Lox.Script

/-!
# A script is run as its text with unified line breaks

A file that holds the bytes of a text is never malformed, and running it is running the text in
which every line ends with a line feed. So a text without carriage returns is run as it is. Any
other text is not: its lines may end elsewhere, and so may its strings and comments.

* `Text.unifyBreaks_of_not_mem`, `Text.not_mem_unifyBreaks`: unifying line breaks takes the carriage
  returns out and does nothing else.
* `runFile_toUTF8`: the main statement.
* `runFile_carriageReturn`: a string that a script does not print as its text does.
-/

namespace Lox

namespace Text

/-- A text without carriage returns keeps its line breaks. -/
theorem unifyBreaks_of_not_mem {cs : List Char} (h : '\r' ∉ cs) : unifyBreaks cs = cs := by
  induction cs with
  | nil => rfl
  | cons c cs ih =>
    rw [List.mem_cons, not_or] at h
    obtain ⟨other, rest⟩ := h
    rw [unifyBreaks, if_neg (Ne.symm other), ih rest]
    rintro ds rfl
    exact absurd rfl other

/-- Unified line breaks hold no carriage return. -/
theorem not_mem_unifyBreaks (cs : List Char) : '\r' ∉ unifyBreaks cs := by
  fun_induction unifyBreaks cs with
  | case1 => simp
  | case2 cs ih => simpa using ih
  | case3 c cs _ ih =>
    rw [List.mem_cons, not_or]
    refine ⟨?_, ih⟩
    split
    · decide
    · rename_i other
      exact Ne.symm other

end Text

/-- Running a file that holds the bytes of a text is running the text with unified line breaks.
Those are its own if it holds no carriage return. -/
theorem runFile_toUTF8 [Segmenter] [Stack] (globals : Bindings) (path text : String) (limit : Int) :
    runFile globals path (.file text.toUTF8.data.toList) limit =
      .ok (run globals (Text.unifyLineBreaks text) limit) ∧
    '\r' ∉ (Text.unifyLineBreaks text).toList ∧
    ('\r' ∉ text.toList → Text.unifyLineBreaks text = text) := by
  refine ⟨?_, ?_, fun none => ?_⟩
  · simp only [runFile, readScript, Text.Utf8.decode_toUTF8]
  · rw [Text.unifyLineBreaks, String.toList_ofList]
    exact Text.not_mem_unifyBreaks _
  · rw [Text.unifyLineBreaks, Text.unifyBreaks_of_not_mem none, String.ofList_toList]

/-- A carriage return within a string is a line feed when the text is run from a file. -/
theorem runFile_carriageReturn :
    (runFile {} "script.lox" (.file "print \"a\rb\";".toUTF8.data.toList) 48).map Run.output =
        .ok ["String(\"a\\nb\")"] ∧
      (run {} "print \"a\rb\";" 48).output = ["String(\"a\\rb\")"] := by
  refine ⟨?_, by decide +kernel⟩
  simp only [runFile, readScript, Text.Utf8.decode_toUTF8, Except.map]
  exact congrArg Except.ok (by decide +kernel)

end Lox
