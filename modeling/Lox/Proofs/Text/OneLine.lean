import Lox.Diagnostic
import Lox.Proofs.Text.Debug
import Lox.Text.LineBreaks

/-!
# Texts on one line

A text without a line feed keeps to one line. Numbers, marks and the debug texts of values do so,
whatever they are; and texts that do are the lines of what they are put together to.

* `Layout.oneLine_write`, `Value.oneLine_debug`: numbers and values.
* `Text.splitOn_intercalate`: texts on one line each, with line feeds between them.
* `Text.linesOf_ofLines`: texts on one line each, every one of them ended by a line feed.
-/

namespace Lox

namespace Text

/-! ## Numbers -/

theorem not_mem_toDigits {b : Nat} (hb : 1 < b) (n : Nat) : '\n' ∉ Nat.toDigits b n := fun mem =>
  forall_mem_toDigits (p := (· ≠ '\n')) hb (by simp) n _ mem rfl

@[simp] theorem oneLine_repr (n : Int) : '\n' ∉ n.repr.toList := by
  rw [Int.repr_eq_if]
  split <;> simp [not_mem_toDigits]

/-! ## Lines put together -/

/-- Texts on one line each are what lies between the line feeds that are put between them. -/
theorem splitOn_intercalate {ls : List String} (h : ∀ l ∈ ls, '\n' ∉ l.toList) (some : ls ≠ []) :
    (String.intercalate "\n" ls).toList.splitOn '\n' = ls.map String.toList := by
  rw [String.toList_intercalate]
  refine List.splitOn_intercalate '\n' (fun cs mem => ?_) (by simpa using some)
  obtain ⟨l, among, rfl⟩ := List.mem_map.mp mem
  exact h l among

theorem splitLines_append {cs : List Char} (h : '\n' ∉ cs) (ds : List Char) :
    splitLines (cs ++ '\n' :: ds) = cs :: splitLines ds := by
  induction cs with
  | nil => rfl
  | cons c cs ih =>
    rw [List.mem_cons, not_or] at h
    rw [List.cons_append, splitLines, if_neg (Ne.symm h.1), ih h.2]

/-- Texts on one line each are the lines of the text that they make up. -/
theorem linesOf_ofLines {ls : List String} (h : ∀ l ∈ ls, '\n' ∉ l.toList) :
    linesOf (ofLines ls) = ls := by
  have chars : (ofLines ls).toList = ls.flatMap fun l => l.toList ++ ['\n'] := by
    simp [ofLines, String.toList_join, List.flatMap_map]
  rw [linesOf, chars]
  clear chars
  induction ls with
  | nil => rfl
  | cons l ls ih =>
    rw [List.forall_mem_cons] at h
    rw [List.flatMap_cons, List.append_assoc, List.singleton_append, splitLines_append h.1,
      List.map_cons, ih h.2, String.ofList_toList]

end Text

open Text

/-! ## What reports are made of -/

@[simp] theorem Mark.oneLine_spelling (m : Mark) : '\n' ∉ m.spelling.toList := by
  cases m <;> decide

@[simp] theorem TokenKind.oneLine_display (k : TokenKind) : '\n' ∉ k.display.toList := by
  cases k with
  | mark m => exact m.oneLine_spelling
  | _ => decide

@[simp] theorem DiagnosticKind.oneLine_display (k : DiagnosticKind) :
    '\n' ∉ k.display.toList := by
  cases k <;> decide

/-- A number keeps to one line if the text for what is no number has no controls. -/
theorem Layout.oneLine_write {l : Layout} (nan : ControlFree l.nan) (x : Float) :
    '\n' ∉ (l.write x).toList :=
  (Layout.controlFree_write nan x).oneLine

/-- The debug text of a value keeps to one line. -/
@[simp] theorem Value.oneLine_debug (v : Value) : '\n' ∉ v.debug.toList :=
  v.controlFree_debug.oneLine

end Lox
