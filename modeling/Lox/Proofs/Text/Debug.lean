import Lox.Proofs.Decimal.Layouts
import Lox.Proofs.Text.Unescape
import Lox.Value

/-!
# Debug texts tell values apart

The debug text of a value names its sort and shows its content, so that the value can be told from
it: a number is read back from its text, and a string from its escapes. Values compare equal, as
programs see it, if their debug texts are equal, but for what is no number and for the two zeros.

* `Layout.controlFree_write`: numbers are written without controls.
* `Value.Same`: one sort, and the same content.
* `Value.debug_inj`: values with one debug text are the same.
* `Value.equals_iff`: which values compare equal.
* `Value.debug_faithful`: what the debug texts of values are worth.
-/

namespace Lox

open Text

/-! ## Numbers -/

namespace Layout

theorem not_isControl_of_isNumeral {c : Char} (h : Decimal.IsNumeral c) : ¬ IsControl c := by
  have plain : ControlFree (String.ofList
      (['0', '1', '2', '3', '4', '5', '6', '7', '8', '9'] ++ ['.', '-', '+', 'e'])) := by
    decide
  refine plain c ?_
  rw [String.toList_ofList]
  exact List.mem_append.mpr (h.imp_left Decimal.mem_digits_of_isDigit)

/-- The text of a number has no controls if the text for what is no number has none. -/
theorem controlFree_write {l : Layout} (nan : ControlFree l.nan) (x : Float) :
    ControlFree (l.write x) := by
  by_cases finite : x.isFinite = true
  · intro c mem
    rw [Decimal.write_of_isFinite _ finite, String.toList_ofList] at mem
    exact not_isControl_of_isNumeral ((Decimal.decimalText_decimalText _ _).isNumeral c mem)
  · unfold write
    split
    · exact nan
    · split
      · split <;> decide
      · rename_i number bounded
        obtain rfl | rfl | rfl := Decimal.eq_of_not_isFinite (Bool.eq_false_iff.mpr finite)
        · exact absurd (by decide +kernel) number
        · exact absurd (by decide +kernel) bounded
        · exact absurd (by decide +kernel) bounded

end Layout

namespace Value

/-! ## Sameness -/

/-- The values are of one sort and have the same content. All that is no number is the same, and a
zero with a sign is not the same as one without. -/
def Same : Value → Value → Prop
  | number x, number y =>
    x.isNaN ∧ y.isNaN ∨ x.isNaN = false ∧ y.isNaN = false ∧ x.toBits = y.toBits
  | string s, string t => s = t
  | boolean b, boolean c => b = c
  | nil, nil => True
  | _, _ => False

variable {v w : Value}

theorem same_iff : v.Same w ↔ v = w := by
  cases v with
  | number x =>
    cases w with
    | number y =>
      rw [number.injEq, Same, Decimal.toBits_inj]
      constructor
      · rintro (⟨hx, hy⟩ | ⟨-, -, same⟩)
        · exact Decimal.eq_of_isNaN hx hy
        · exact same
      · rintro rfl
        cases x.isNaN <;> simp
    | _ => simp [Same]
  | _ => cases w <;> simp [Same]

/-! ## Debug texts -/

/-- A debug text begins with the name of the sort. -/
theorem take_debug (v : Value) : v.debug.toList.take 2 = match v with
    | number _ => ['N', 'u']
    | string _ => ['S', 't']
    | boolean _ => ['B', 'o']
    | nil => ['N', 'i'] := by
  cases v <;> simp [debug]

/-- Values with one debug text are the same. -/
theorem debug_inj : v.debug = w.debug ↔ v = w := by
  refine ⟨fun same => ?_, fun same => same ▸ rfl⟩
  have sort := congrArg (fun s : String => s.toList.take 2) same
  simp only [take_debug] at sort
  cases v <;> cases w <;> first | rfl | cases sort
  case number.number x y =>
    have inside : Layout.debug.write x = Layout.debug.write y := by simpa [debug] using same
    rw [(Decimal.write_inj (Decimal.floatOfText?_nan _ (by simp))).mp inside]
  case string.string s t =>
    have inside : escape s = escape t := by simpa [debug] using same
    rw [escape_inj.mp inside]
  case boolean.boolean b c =>
    cases b <;> cases c <;> first | rfl | exact absurd same (by decide)

/-- A debug text has no controls, whatever the value. -/
theorem controlFree_debug (v : Value) : ControlFree v.debug := by
  have ends : ControlFree ")" ∧ ControlFree "\")" := by decide
  cases v with
  | number x =>
    have front : ControlFree "Number(" := by decide
    simpa [debug, front, ends] using Layout.controlFree_write (l := .debug) (by decide) x
  | string s =>
    have front : ControlFree "String(\"" := by decide
    simpa [debug, front, ends] using controlFree_escape s
  | boolean b => cases b <;> decide
  | nil => decide

/-! ## Equality -/

/-- Values compare equal if they are the same, what is no number left out, or if they are the two
zeros. -/
theorem equals_iff : v.equals w = true ↔
    (v = w ∧ ∀ x, v = number x → x.isNaN = false) ∨
      v = number 0 ∧ w = number (-0) ∨ v = number (-0) ∧ w = number 0 := by
  cases v with
  | number x =>
    cases w with
    | number y =>
      have zero : (0 : Float).isNaN = false ∧ (-0 : Float).isNaN = false := by decide +kernel
      have compared : (number x).equals (number y) = true ↔ _ := Decimal.beq_iff
      simp only [compared, number.injEq, forall_eq']
      constructor
      · rintro (same | ⟨rfl | rfl, rfl | rfl⟩)
        · exact .inl same
        · exact .inl ⟨rfl, zero.1⟩
        · exact .inr (.inl ⟨rfl, rfl⟩)
        · exact .inr (.inr ⟨rfl, rfl⟩)
        · exact .inl ⟨rfl, zero.2⟩
      · rintro (same | ⟨rfl, rfl⟩ | ⟨rfl, rfl⟩)
        · exact .inl same
        · exact .inr ⟨.inl rfl, .inr rfl⟩
        · exact .inr ⟨.inr rfl, .inl rfl⟩
    | _ => simp [equals]
  | _ => cases w <;> simp [equals]

/-- What the debug texts of values are worth. They have no controls, so each keeps to its line. The
escapes of a string lead back to it, and between its delimiters every quote is escaped: an odd
number of backslashes stands before it. Values have one debug text if they are the same, and then
they compare equal unless they are no numbers; no others compare equal but the two zeros. -/
theorem debug_faithful :
    (∀ v : Value, ∀ c ∈ v.debug.toList, 0x20 ≤ c.toNat ∧ c.toNat ≠ 0x7F) ∧
    (∀ s : String, ∃ inside, (string s).debug = "String(\"" ++ inside ++ "\")" ∧
      unescape? inside = some s ∧
      ∀ front back, inside.toList = front ++ '"' :: back → Odd (backslashes front)) ∧
    (∀ v w : Value, v.debug = w.debug ↔ v.Same w) ∧
    ∀ v w : Value, v.equals w = true ↔
      (v.debug = w.debug ∧ ∀ x, v = number x → x.isNaN = false) ∨
        v = number 0 ∧ w = number (-0) ∨ v = number (-0) ∧ w = number 0 := by
  refine ⟨fun v c mem => ?_, fun s => ?_, fun v w => debug_inj.trans same_iff.symm, fun v w => ?_⟩
  · have visible := controlFree_debug v c mem
    unfold IsControl at visible
    omega
  · have accepted : (unescape? (escape s)).isSome := unescape?_escape s ▸ rfl
    exact ⟨escape s, rfl, unescape?_escape s, fun front back => odd_backslashes accepted⟩
  · rw [debug_inj]
    exact equals_iff

end Value

end Lox
