import Mathlib.Data.Nat.Digits.Lemmas
import Lox.Text.Integer

/-!
# Whole numbers that can be written

No text stands for a number that has none itself: the limit on digits is the same for reading and
for writing.

* `Text.isWritable_of_integerOf?`: whatever a text stands for can be written.
-/

namespace Lox.Text

theorem isWritable_iff {n : Int} : isWritable n ↔ n.natAbs < 10 ^ maxDigits := by
  simp [isWritable]

/-! ## Digits -/

theorem digitValue?_lt {c : Char} {d : Nat} (h : digitValue? c = some d) : d < 10 := by
  obtain ⟨first, found, rfl⟩ := Option.map_eq_some_iff.mp h
  have within : first ≤ c.toNat ∧ c.toNat ≤ first + 9 := by simpa using List.find?_some found
  omega

theorem forall_mem_digitsOf? {cs : List Char} {ds : List Nat} (h : digitsOf? cs = some ds) :
    ∀ d ∈ ds, d < 10 := by
  have cons {c : Char} {cs : List Char} {ds : List Nat}
      (ih : ∀ {ds}, digitsOf? cs = some ds → ∀ d ∈ ds, d < 10)
      (h : (do let d ← digitValue? c; let ds ← digitsOf? cs; pure (d :: ds)) = some ds) :
      ∀ d ∈ ds, d < 10 := by
    simp only [Option.bind_eq_bind, Option.bind_eq_some_iff, Option.pure_def] at h
    obtain ⟨d, digit, ds', later, ⟨⟩⟩ := h
    exact List.forall_mem_cons.mpr ⟨digitValue?_lt digit, ih later⟩
  induction cs using digitsOf?.induct generalizing ds with
  | case1 => cases h
  | case2 c =>
    obtain ⟨d, digit, rfl⟩ := Option.map_eq_some_iff.mp h
    simpa using digitValue?_lt digit
  | case3 c cs ih => exact cons ih h
  | case4 c cs some line ih => exact cons ih (digitsOf?.eq_4 c cs some line ▸ h)

/-- A number with so many digits is less than that power of ten. -/
theorem foldl_lt {ds : List Nat} (h : ∀ d ∈ ds, d < 10) :
    ds.foldl (fun n d => 10 * n + d) 0 < 10 ^ ds.length := by
  have value : ds.foldl (fun n d => 10 * n + d) 0 = Nat.ofDigits 10 ds.reverse := by
    rw [Nat.ofDigits_eq_foldr, List.foldr_reverse]
    simp only [Nat.cast_id, Nat.add_comm]
  rw [value, ← List.length_reverse]
  exact Nat.ofDigits_lt_base_pow_length (by decide) fun d hd => h d (List.mem_reverse.mp hd)

theorem naturalOf?_lt {cs : List Char} {n : Nat} (h : naturalOf? cs = some n) :
    n < 10 ^ maxDigits := by
  simp only [naturalOf?, Option.bind_eq_bind, Option.bind_eq_some_iff, Option.pure_def] at h
  obtain ⟨ds, digits, _, few, ⟨⟩⟩ := h
  have few : ds.length ≤ maxDigits := by
    by_contra many
    simp [guard, many] at few
  exact (foldl_lt (forall_mem_digitsOf? digits)).trans_le (Nat.pow_le_pow_right (by decide) few)

/-- Whatever a text stands for can be written. -/
theorem isWritable_of_integerOf? {s : String} {n : Int} (h : integerOf? s = some n) :
    isWritable n := by
  obtain ⟨cs, m, natural, same⟩ : ∃ cs m, naturalOf? cs = some m ∧ n.natAbs = m := by
    unfold integerOf? at h
    split at h
    · simp only [Option.map_eq_some_iff, Option.bind_eq_bind, Option.bind_eq_some_iff,
        Option.pure_def] at h
      obtain ⟨_, ⟨m, natural, ⟨⟩⟩, rfl⟩ := h
      exact ⟨_, m, natural, by simp⟩
    all_goals
      obtain ⟨m, natural, rfl⟩ := Option.map_eq_some_iff.mp h
      exact ⟨_, m, natural, rfl⟩
  exact isWritable_iff.mpr (same ▸ naturalOf?_lt natural)

end Lox.Text
