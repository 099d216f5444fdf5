import Lox.Proofs.Session.Safety
import Lox.Proofs.Syntax.Handmade
import Lox.Proofs.Text.Integer

/-!
# Runs and the limit on nesting

A run may break off for one reason only: too deep nesting has to be reported, and the limit that the
report names has too many digits to be written. That is where parsing breaks off. A limit that was
itself given as a text is never one of those.

* `runSource_eq`: a run breaks off where parsing its tokens does.
* `runSource_of_integerOf?`: with a limit that was given as a text, no run breaks off.
* `runSource_regular`: all other runs end regularly.
-/

namespace Lox

/-- Only the parser may lack words. -/
theorem Diagnostic.isWorded_of_kind {d : Diagnostic} (h : d.kind ≠ .parsing) : d.isWorded := by
  by_contra unworded
  obtain ⟨named, cause, -⟩ := d.exists_of_not_isWorded unworded
  exact h (by rw [kind, cause, Cause.kind])

section

variable [Segmenter] [Stack] (globals : Bindings) (text : String) (limit : Int)

/-- The run breaks off if a report of the stage that stopped lacks words. -/
theorem runSource_eq_ite : runSource globals text limit =
    if (run globals text limit).ending.errors.all Diagnostic.isWorded
    then .ok (run globals text limit) else .error .unwrittenLimit := by
  have regular := regular_run globals text limit
  unfold runSource
  dsimp only
  split
  · rename_i e
    rw [e] at regular
    cases regular
  · rfl

/-- A run breaks off where parsing its tokens does. -/
theorem runSource_eq : runSource globals text limit =
    if (scanText text).errors ≠ [] then .ok (run globals text limit)
    else (parseMade ((withoutComments (scanText text).tokens).map .whole) limit).map
      fun _ => run globals text limit := by
  obtain ⟨p, parsed, -⟩ := exists_evaluable text limit
  have follows := follows_run globals parsed
  rw [runSource_eq_ite, parseMade_whole parsed, apply_ite (Except.map _)]
  generalize (run globals text limit).ending = ending at follows ⊢
  cases follows with
  | scan some =>
    have worded : (scanText text).errors.all Diagnostic.isWorded := by
      refine List.all_eq_true.mpr fun d mem => d.isWorded_of_kind ?_
      rw [kind_of_mem_scan mem]
      decide
    rw [Ending.errors, if_pos worded, if_pos some]
  | parse none some =>
    simp only [none, ne_eq, not_true_eq_false, if_false, Ending.errors, Except.map]
    rfl
  | finished none read => simp [none, read, Ending.errors, Except.map]
  | @runtime d none read kind =>
    have worded : d.isWorded := d.isWorded_of_kind (by rw [kind]; decide)
    simp [none, read, worded, Ending.errors, Except.map]

/-- A run breaks off only if it has to report too deep nesting, with a limit that has too many
digits. -/
theorem exists_of_runSource_eq_error {f : Fault} (h : runSource globals text limit = .error f) :
    f = .unwrittenLimit ∧ ¬ Text.isWritable limit ∧ (scanText text).errors = [] ∧
      ∃ p, parse (withoutComments (scanText text).tokens) limit = .ok p ∧
        ∃ d ∈ p.errors, d.cause = .nesting limit := by
  obtain ⟨p, parsed, -⟩ := exists_evaluable text limit
  rw [runSource_eq, parseMade_whole parsed] at h
  by_cases scanned : (scanText text).errors = []
  · by_cases worded : p.errors.all Diagnostic.isWorded
    · simp [scanned, worded, Except.map] at h
    · obtain ⟨d, mem, unworded⟩ : ∃ d ∈ p.errors, ¬ d.isWorded := by simpa using worded
      obtain ⟨cause, unwritable⟩ := (names_of_mem_parse parsed mem).of_not_isWorded unworded
      simp only [scanned, ne_eq, not_true_eq_false, if_false, worded, Except.map,
        Bool.false_eq_true, Except.error.injEq] at h
      exact ⟨h.symm, unwritable, scanned, p, parsed, d, mem, cause⟩
  · simp [scanned] at h

/-- A run that does not break off is the run of the session. -/
theorem eq_run_of_runSource {r : Run} (h : runSource globals text limit = .ok r) :
    r = run globals text limit := by
  rw [runSource_eq_ite] at h
  split at h
  · exact (Except.ok.inj h).symm
  · cases h

/-- With a limit that was given as a text, no run breaks off. -/
theorem runSource_of_integerOf? {s : String} (given : Text.integerOf? s = some limit) :
    runSource globals text limit = .ok (run globals text limit) := by
  cases h : runSource globals text limit with
  | ok r => rw [eq_run_of_runSource globals text limit h]
  | error f =>
    have unwritable := (exists_of_runSource_eq_error globals text limit h).2.1
    exact absurd (Text.isWritable_of_integerOf? given) unwritable

/-- A run ends regularly, or breaks off because too deep nesting has to be reported for a limit of
too many digits. The numbers in the text are decimal texts, and what is read from it can be
evaluated. -/
theorem runSource_regular :
    ((∃ r, runSource globals text limit = .ok r ∧ r.ending.Regular) ∨
      runSource globals text limit = .error .unwrittenLimit ∧ ¬ Text.isWritable limit ∧
        (scanText text).errors = [] ∧
        ∃ p, parse (withoutComments (scanText text).tokens) limit = .ok p ∧
          ∃ d ∈ p.errors, d.cause = .nesting limit) ∧
    (∀ t ∈ (scanText text).tokens, ∀ x, t.token = .number x →
      ∃ a, t.span = some a ∧ Decimal.floatOfText? ((Source.ofText text).textOf a) = some x) ∧
    ∃ p, parse (withoutComments (scanText text).tokens) limit = .ok p ∧
      ∀ st ∈ p.statements, st.Evaluable := by
  obtain ⟨regular, numbers, trees⟩ := run_regular globals text limit
  refine ⟨?_, numbers, trees⟩
  cases h : runSource globals text limit with
  | ok r => exact .inl ⟨r, rfl, eq_run_of_runSource globals text limit h ▸ regular⟩
  | error f =>
    obtain ⟨rfl, unwritable, reported⟩ := exists_of_runSource_eq_error globals text limit h
    exact .inr ⟨rfl, unwritable, reported⟩

end

/-- Nothing can be refused in the name of a limit of too many digits. -/
theorem runSource_breaks_off :
    runSource {} "nil;" (-Nat.pow 10 Text.maxDigits) = .error .unwrittenLimit := by
  have scanned : (scanText "nil;").errors = [] := by decide +kernel
  have read : parseMade ((withoutComments (scanText "nil;").tokens).map .whole)
      (-Nat.pow 10 Text.maxDigits) = .error .unwrittenLimit := by decide +kernel
  rw [runSource_eq, read, scanned]
  rfl

end Lox
