import Lox.Command.Reply
import Lox.Corpus.Sample
import Lox.Proofs.Session.Safety

/-!
# All ways to look at a text agree on what a program is

A text can be run, its tokens or the outlines of its statements can be shown, and for a corpus it
gets a canonical text and an outcome. Each of them scans on its own, most of them leave out the
comments and parse on their own, and each one gives up at a place of its own. They all give up on
the same texts, with the same reports.

* `Ending.IsRejection`: the run stopped before anything ran, for the text is no program.
* `unshown_eq_nil`: statements that were parsed can be shown unless they are too deep.
* `Command.replyOutlines_eq`: what is reported when statements are shown.
* `Corpus.canonicalText_eq_none_iff`: which texts have no canonical text.
* `front_ends_agree`: the main statement.
-/

namespace Lox

/-- The text was no program: scanning it or parsing it reported something. -/
def Ending.IsRejection (e : Ending) : Prop := e.stage? = some .scan ∨ e.stage? = some .parse

instance (e : Ending) : Decidable e.IsRejection := inferInstanceAs (Decidable (_ ∨ _))

section Follows

variable {scanned parsed : List Diagnostic} {e : Ending}

/-- A text is no program if one of the first two stages reported something. -/
theorem Ending.Follows.isRejection_iff (h : e.Follows scanned parsed) :
    e.IsRejection ↔ scanned ≠ [] ∨ parsed ≠ [] := by
  cases h with
  | scan some => exact ⟨fun _ => .inl some, fun _ => .inl rfl⟩
  | parse none some => exact ⟨fun _ => .inr some, fun _ => .inr rfl⟩
  | finished none none' | runtime none none' => simp [IsRejection, stage?, none, none']

/-- A text that is no program is reported by the first stage that reports anything. -/
theorem Ending.Follows.errors_eq (h : e.Follows scanned parsed) (rejected : e.IsRejection) :
    e.errors = if scanned ≠ [] then scanned else parsed := by
  cases h with
  | scan some => exact (if_pos some).symm
  | parse none => exact (if_neg (not_not_intro none)).symm
  | finished | runtime => obtain ⟨⟨⟩⟩ | ⟨⟨⟩⟩ := rejected

theorem Ending.Follows.errors_ne_nil (h : e.Follows scanned parsed) (rejected : e.IsRejection) :
    e.errors ≠ [] := by
  cases h with
  | scan some | parse _ some => exact some
  | finished | runtime => obtain ⟨⟨⟩⟩ | ⟨⟨⟩⟩ := rejected

end Follows

/-! ## Statements that are too deep -/

/-- A statement that was parsed can be shown unless it is too deep. -/
theorem Stmt.outline?_of_shaped [Stack] {st : Stmt} (shaped : st.Shaped) :
    st.outline? = .ok st.outline ∨ st.outline? = .error .tooDeep := by
  unfold outline? obstacle?
  rw [flaw?_eq_none shaped]
  split
  · rename_i u obstacle
    split at obstacle <;> cases obstacle
    exact .inr rfl
  · exact .inl rfl

/-- No statement of the text is too deep to be shown. -/
def Displayable [Stack] [Segmenter] (text : String) (limit : Int) : Prop :=
  ∀ p, (scanText text).errors = [] →
    parse (withoutComments (scanText text).tokens) limit = .ok p →
    ∀ st ∈ p.statements, st.outline? ≠ .error .tooDeep

variable {text : String} {limit : Int} {p : Parsed}

/-- Then all of them can be shown. -/
theorem Displayable.unshown_eq_nil [Stack] [Segmenter] (h : Displayable text limit)
    (scanned : (scanText text).errors = [])
    (parsed : parse (withoutComments (scanText text).tokens) limit = .ok p) :
    Command.unshown p.statements = [] := by
  obtain ⟨q, parsed', read⟩ := exists_parse_scan text limit
  obtain rfl : q = p := Except.ok.inj (parsed'.symm.trans parsed)
  apply List.filterMap_eq_nil_iff.mpr
  intro st mem
  obtain shown | deep := Stmt.outline?_of_shaped (read st mem).1
  · rw [shown]
  · exact absurd deep (h q scanned parsed st mem)

/-! ## Each way by itself -/

namespace Command

/-- Showing the tokens fails where scanning does. -/
theorem status_replyTokens [Stack] [Segmenter] (names globals : Bindings) (text : String)
    (limit : Int) : (replyTokens names text).status =
      if (run globals text limit).ending.stage? = some .scan then .badText else .fine := by
  obtain ⟨p, parsed, -⟩ := exists_evaluable text limit
  have follows := follows_run globals parsed
  show Status.ofErrors (scanText text).errors = _
  generalize (run globals text limit).ending = ending at follows ⊢
  cases follows with
  | scan some => simp [Status.ofErrors, some, Ending.stage?]
  | parse none | finished none | runtime none => simp [Status.ofErrors, none, Ending.stage?]

/-- Showing the statements reports what scanning does or else what parsing does, and then the
statements that are too deep. -/
theorem replyOutlines_eq [Stack] [Segmenter] (names : Bindings)
    (parsed : parse (withoutComments (scanText text).tokens) limit = .ok p) :
    let errors := if (scanText text).errors ≠ [] then (scanText text).errors
      else p.errors ++ unshown p.statements
    (replyOutlines names text limit).status = .ofErrors errors ∧
      (replyOutlines names text limit).reports = errors.map Diagnostic.text := by
  intro errors
  rw [replyOutlines]
  by_cases scanned : (scanText text).errors = []
  · simp [errors, scanned, parsed]
  · simp [errors, scanned, Status.ofErrors]

/-- If no statement is too deep, showing the statements fails where the text is no program, and
reports what running it does. -/
theorem replyOutlines_of_displayable [Stack] [Segmenter] (names globals : Bindings)
    (shown : Displayable text limit) :
    let r := run globals text limit
    (replyOutlines names text limit).status = (if r.ending.IsRejection then .badText else .fine) ∧
      (replyOutlines names text limit).reports =
        if r.ending.IsRejection then r.ending.errors.map Diagnostic.text else [] := by
  intro r
  obtain ⟨p, parsed, -⟩ := exists_evaluable text limit
  have follows : r.ending.Follows _ _ := follows_run globals parsed
  obtain ⟨status, reports⟩ := replyOutlines_eq names parsed
  have same : (if (scanText text).errors ≠ [] then (scanText text).errors
      else p.errors ++ unshown p.statements) =
        if (scanText text).errors ≠ [] then (scanText text).errors else p.errors := by
    split
    · rfl
    · rename_i scanned
      rw [shown.unshown_eq_nil (not_not.mp scanned) parsed, List.append_nil]
  rw [same] at status reports
  rw [status, reports]
  by_cases rejected : r.ending.IsRejection
  · rw [← follows.errors_eq rejected, if_pos rejected, if_pos rejected]
    exact ⟨if_neg (follows.errors_ne_nil rejected), rfl⟩
  · obtain ⟨scanned, read⟩ := not_or.mp (mt follows.isRejection_iff.mpr rejected)
    simp [not_not.mp scanned, not_not.mp read, rejected, Status.ofErrors]

end Command

namespace Corpus

/-- Which texts have no canonical text: those that are no program. -/
theorem canonicalText_eq_none_iff [Stack] [Segmenter] (text : String) :
    canonicalText text = .ok none ↔ (run {} text).ending.IsRejection := by
  obtain ⟨p, parsed, -⟩ := exists_evaluable text Grammar.defaultLimit
  rw [(follows_run {} parsed).isRejection_iff, canonicalText]
  by_cases scanned : (scanText text).errors = []
  · by_cases read : p.errors = []
    · simp only [scanned, parsed, read, ne_eq, not_true_eq_false, if_false, or_false, iff_false]
      cases canonical p.statements <;> exact nofun
    · simp [scanned, parsed, read]
  · simp [scanned]

/-- The lines that say how a run failed name its stage and tell its reports. -/
theorem failureLines_eq (e : Ending) : failureLines e = match e.stage? with
    | none => []
    | some stage =>
      ("-- " ++ stage.display ++ " failed --") :: e.errors.map Diagnostic.text := by
  cases e <;> rfl

end Corpus

/-! ## Agreement -/

/-- All ways to look at a text agree on what a program is. Showing its tokens fails where running it
stops at scanning. Showing its statements fails where running it stops before anything runs, with
the same reports, unless a statement is too deep to be shown. Under the limit that there is by
default, the same texts have no canonical text, and the outcome of a text tells how it was run. -/
theorem front_ends_agree [Stack] [Segmenter] (names globals : Bindings) (text : String)
    (limit : Int) :
    let r := run globals text limit
    (Command.replyTokens names text).status =
      (if r.ending.stage? = some .scan then .badText else .fine) ∧
    (Displayable text limit →
      (Command.replyOutlines names text limit).status =
          (if r.ending.IsRejection then .badText else .fine) ∧
        (Command.replyOutlines names text limit).reports =
          if r.ending.IsRejection then r.ending.errors.map Diagnostic.text else []) ∧
    let alone := run {} text
    (Corpus.canonicalText text = .ok none ↔ alone.ending.IsRejection) ∧
    Corpus.outcome text =
      (Text.ofLines (alone.output ++ match alone.ending.stage? with
        | none => []
        | some stage =>
          ("-- " ++ stage.display ++ " failed --") :: alone.ending.errors.map Diagnostic.text),
        alone.ending.stage?) := by
  intro r
  refine ⟨Command.status_replyTokens names globals text limit,
    Command.replyOutlines_of_displayable names globals, Corpus.canonicalText_eq_none_iff text, ?_⟩
  rw [Corpus.outcome, Corpus.failureLines_eq]

/-- A text with a comment whose first statement is one, and whose second statement is none. -/
theorem front_ends_agree_partial :
    let text := "print y; // one\nprint (;"
    (Command.replyTokens {} text).status = .fine ∧ Displayable text 48 ∧
      (Command.replyOutlines {} text 48).status = .badText ∧
      (Command.replyOutlines {} text 48).reports =
        (run {} text 48).ending.errors.map Diagnostic.text ∧
      Corpus.canonicalText text = .ok none ∧ (Corpus.outcome text).2 = some .parse := by
  intro text
  have stage : (run {} text 48).ending.stage? = some .parse := by decide +kernel
  have rejected : (run {} text 48).ending.IsRejection := .inr stage
  have shown : Displayable text 48 := by
    intro p scanned parsed
    have outlines : (parse (withoutComments (scanText text).tokens) 48).map
        (·.statements.map Stmt.outline?) = .ok [.ok "Print Statement: y"] := by decide +kernel
    rw [parsed] at outlines
    obtain ⟨st, only, outline⟩ := List.map_eq_singleton_iff.mp (Except.ok.inj outlines)
    rw [only, List.forall_mem_singleton, outline]
    nofun
  obtain ⟨tokens, statements, canonical, outcome⟩ := front_ends_agree {} {} text 48
  obtain ⟨status, reports⟩ := statements shown
  rw [if_pos rejected] at status reports
  rw [stage] at tokens
  exact ⟨tokens, shown, status, reports, canonical.mpr rejected, outcome ▸ stage⟩

end Lox
