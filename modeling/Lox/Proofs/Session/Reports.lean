import Lox.Command.Reply
import Lox.Proofs.Session.Scoping
import Lox.Proofs.Syntax.Alongside
import Lox.Proofs.Text.OneLine

/-!
# One line for each report

A report quotes what it is about: a grapheme that starts no token, a token that stands in the wrong
place, a name that means nothing, the values that an operator cannot take. All of these keep to one
line, save a string that goes over lines in the source. So the reports of a run are as many lines as
there are reports, unless one of them quotes such a string.

* `Cause.OneLine`: message and subject keep to one line.
* `oneLine_of_mem_scan`, `oneLine_iff_of_arises`, `oneLine_of_execute`: what the stages report.
* `mem_errors_run`: a run reports what its stages report.
* `run_reports_oneLine`: the main statement.
-/

namespace Lox

/-- Message and subject keep to one line. -/
def Cause.OneLine (c : Cause) : Prop := '\n' ∉ c.message.toList ∧ ∀ s ∈ c.subject, '\n' ∉ s.toList

/-- Place and stage keep to one line, whatever they are. -/
theorem Diagnostic.oneLine_text (d : Diagnostic) : '\n' ∉ d.text.toList ↔ d.cause.OneLine := by
  obtain ⟨cause, span⟩ := d
  cases span <;> cases h : cause.subject <;> simp [text, Cause.OneLine, h]

/-! ## Scanning -/

theorem isWhole_of_mem_cut [Segmenter] {text : String} {p : Piece}
    (h : p ∈ Piece.cut (Grapheme.split text)) : ∀ g ∈ p.graphemes, g.IsWhole :=
  fun _ mem => ((Grapheme.clusters_split _).part (Piece.mem_cut h).1).whole mem

/-- A grapheme that is no white space keeps to one line. -/
theorem Grapheme.IsWhole.oneLine_text [Segmenter] {g : Grapheme} (h : g.IsWhole)
    (noBlank : Blank.ofGrapheme? g = none) : '\n' ∉ g.text.toList := by
  rw [text, String.toList_ofList]
  intro mem
  obtain rfl | rfl := eq_of_isNewline (h.isNewline mem) <;> cases noBlank

theorem Piece.oneLine_of_reading [Segmenter] {p : Piece} {cause : Cause}
    (h : p.reading = .error cause) (whole : p.lead.IsWhole) :
    cause.quoted? = none ∧ cause.OneLine := by
  unfold reading at h
  split at h
  · cases h
  · cases h
  · cases h
  rename_i noBlank
  split at h
  · cases h
  split at h
  · split at h <;> cases h
    exact ⟨rfl, by decide, nofun⟩
  split at h
  · cases h
  split at h <;> cases h
  refine ⟨rfl, ?_, by simp [Cause.subject, whole.oneLine_text noBlank]⟩
  unfold Cause.message
  simp

/-- What scanning reports keeps to one line. -/
theorem oneLine_of_mem_scan [Segmenter] {text : String} {d : Diagnostic}
    (h : d ∈ (scanText text).errors) : d.cause.quoted? = none ∧ d.cause.OneLine := by
  obtain ⟨p, mem, diagnostic⟩ := List.mem_filterMap.mp h
  exact Piece.oneLine_of_reading (PlacedPiece.diagnostic?_eq_some.mp diagnostic).1
    (isWhole_of_mem_cut (mem_of_mem_place mem) _ List.mem_cons_self)

/-! ## Parsing -/

/-- No line break continues a name. -/
theorem Lexeme.oneLine_identifier [Segmenter] {gs rest : List Grapheme} {n : String}
    (h : Lexeme gs rest (.ok (.identifier n))) (whole : ∀ g ∈ gs, g.IsWhole) : '\n' ∉ n.toList := by
  cases h with
  | @identifier g tail _ alpha run _ =>
    have word : ∀ e ∈ g :: tail, e.isAlphanumeric := by
      rw [List.forall_mem_cons]
      exact ⟨by rw [Grapheme.isAlphanumeric, alpha, Bool.true_or], run.inside⟩
    rw [Grapheme.join, String.toList_ofList, List.mem_flatMap]
    rintro ⟨e, mem, feed⟩
    have other := (Grapheme.other_of_isNewline ((whole e mem).isNewline feed)).1
    rw [word e mem] at other
    cases other

theorem oneLine_of_mem_tokens [Segmenter] {text : String} {t : PlacedToken}
    (h : t ∈ (scanText text).tokens) {n : String} (name : t.token = .identifier n) :
    '\n' ∉ n.toList := by
  have inner : t.isEnd = false := by
    rw [PlacedToken.isEnd, PlacedToken.kind, name]
    rfl
  obtain ⟨p, mem, reading⟩ := exists_piece_of_mem_scan h inner
  obtain ⟨rest, lexeme⟩ := Piece.exists_lexeme mem (reading.trans (congrArg Except.ok name))
  exact lexeme.oneLine_identifier (isWhole_of_mem_cut mem)

/-- A token that the parser sees keeps to one line, if it is no string that does not. -/
theorem oneLine_text_iff [Segmenter] {text : String} {t : PlacedToken}
    (h : t ∈ withoutComments (scanText text).tokens) :
    '\n' ∉ t.token.text.toList ↔ ∀ s, t.token = .string s → '\n' ∉ s.toList := by
  obtain ⟨mem, seen⟩ := mem_withoutComments.mp h
  have name (n : String) := @oneLine_of_mem_tokens _ text t mem n
  obtain ⟨token, span⟩ := t
  cases token with
  | mark m => simp [Token.text]
  | identifier n => simp [Token.text, name n rfl]
  | string s => simp [Token.text]
  | number x => simp [Token.text, Layout.oneLine_write (l := Layout.plain) (by decide) x]
  | comment s => exact absurd rfl seen
  | whitespace b => cases b <;> simp [Token.text, Blank.name]

/-- What parsing quotes was given. -/
theorem Cause.Arises.exists_quoted {cause : Cause} {ts : List PlacedToken} (h : cause.Arises ts)
    {t : Token} (quoted : cause.quoted? = some t) : ∃ u ∈ ts, u.token = t := by
  cases h with
  | wrongToken _ mem | notExpression mem => exact ⟨_, mem, Option.some.inj quoted⟩
  | missingToken | missingExpression | nesting => cases quoted

/-- What parsing reports keeps to one line, if it quotes no string that does not. -/
theorem oneLine_iff_of_arises [Segmenter] {text : String} {cause : Cause}
    (h : cause.Arises (withoutComments (scanText text).tokens)) :
    cause.OneLine ↔ ∀ s, cause.quoted? = some (.string s) → '\n' ∉ s.toList := by
  cases h with
  | wrongToken wanted mem | notExpression mem =>
    unfold Cause.OneLine Cause.message
    simp [Cause.subject, Cause.quoted?, oneLine_text_iff mem]
  | missingToken | missingExpression | nesting =>
    unfold Cause.OneLine Cause.message
    simp [Cause.subject, Cause.quoted?]

/-! ## Running -/

/-- Values are reported by their debug texts, so only a name could go over lines. -/
theorem Cause.oneLine_of_isRuntime {cause : Cause} (h : cause.isRuntime)
    (names : ∀ n, cause = .undefinedVariable n → '\n' ∉ n.toList) :
    cause.quoted? = none ∧ cause.OneLine := by
  unfold OneLine message
  cases cause with
  | undefinedVariable n => simp [quoted?, subject, names n rfl]
  | unaryOperand | binaryOperand | condition | tooDeepToEvaluate => simp [quoted?, subject]
  | _ => cases h

/-- The expression of a statement is a part of its tokens. -/
theorem Stmt.mem_yield_of_body {st : Stmt} {e : Expr} (h : e ∈ st.body?) {t : Token}
    (mem : t ∈ e.yield) : t ∈ st.yield := by
  cases st with
  | expression | print =>
    cases h
    simp [yield, mem]
  | declaration _ initial =>
    cases h
    simp [yield, mem]
  | stray => cases h

/-- What running statements reports keeps to one line, if their names do. -/
theorem oneLine_of_execute [Stack] {globals : Bindings} {statements : List Stmt} {d : Diagnostic}
    (evaluable : ∀ st ∈ statements, st.Evaluable)
    (names : ∀ st ∈ statements, ∀ n, .identifier n ∈ st.yield → '\n' ∉ n.toList)
    (failed : (execute globals statements).failure = some (.diagnostic d)) :
    d.cause.quoted? = none ∧ d.cause.OneLine := by
  obtain ⟨_, ⟨⟩, runtime⟩ := isRuntime_of_execute evaluable failed
  refine Cause.oneLine_of_isRuntime runtime fun n undefined => ?_
  obtain ⟨before, st, after, stop, rfl, -, stopped, report⟩ := exists_stop_of_execute failed
  have name : stop.undefined? = some n := by
    obtain ⟨cause, span⟩ := d
    cases undefined
    cases stop <;> cases report
    rfl
  obtain ⟨e, body, among, -⟩ := Stmt.undefined_of_value (Stmt.value_of_execute stopped) name
  exact names st (by simp) n (Stmt.mem_yield_of_body body among)

/-! ## Whole runs -/

/-- A run reports what its stages report. -/
theorem mem_errors_run [Segmenter] [Stack] {globals : Bindings} {text : String} {limit : Int}
    {p : Parsed} (parsed : parse (withoutComments (scanText text).tokens) limit = .ok p)
    {d : Diagnostic}
    (h : d ∈ (run globals text limit).ending.errors) :
    d ∈ (scanText text).errors ∨ d ∈ p.errors ∨
      (execute globals p.statements).failure = some (.diagnostic d) := by
  rw [run] at h
  by_cases scanned : (scanText text).errors = []
  · by_cases read : p.errors = []
    · simp only [scanned, parsed, read, ne_eq, not_true_eq_false, if_false, runStatements] at h
      rcases failure : (execute globals p.statements).failure with _ | d' | why <;>
        simp only [failure] at h
      · cases h
      · obtain rfl := List.mem_singleton.mp h
        exact .inr (.inr rfl)
      · cases h
    · simp only [scanned, parsed, read, ne_eq, not_true_eq_false, not_false_eq_true, if_false,
        if_true] at h
      exact .inr (.inl h)
  · simp only [scanned, ne_eq, not_false_eq_true, if_true] at h
    exact .inl h

/-- The names in statements that are read from a text keep to one line. -/
theorem oneLine_of_mem_yield [Segmenter] {text : String} {limit : Int} {p : Parsed}
    (parsed : parse (withoutComments (scanText text).tokens) limit = .ok p) :
    ∀ st ∈ p.statements, ∀ n, .identifier n ∈ st.yield → '\n' ∉ n.toList := by
  intro st mem n among
  obtain ⟨q, read, derived⟩ :=
    exists_parse limit placed_withoutComments (exists_isEnd_withoutComments text)
  obtain rfl : q = p := Except.ok.inj (read.symm.trans parsed)
  obtain ⟨ts, derives, within⟩ := derived st mem
  rw [← derives.map_token] at among
  obtain ⟨t, given, name⟩ := List.mem_map.mp among
  exact oneLine_of_mem_tokens (mem_withoutComments.mp (within t given).1).1 name

/-- A run that reports something is replied to with its reports. -/
theorem reports_replyRun [Segmenter] [Stack] (globals : Bindings) (text : String) (limit : Int) :
    (Command.replyRun globals text limit).reports =
      (run globals text limit).ending.errors.map Diagnostic.text := by
  have regular := regular_run globals text limit
  rw [Command.replyRun]
  generalize (run globals text limit).ending = ending at regular ⊢
  cases regular <;> rfl

/-- A report of a run keeps to one line, unless it quotes a string of the source that does not. If
all of them do, they are the lines that they are put together to, and the lines of the reply. -/
theorem run_reports_oneLine [Segmenter] [Stack] (globals : Bindings) (text : String) (limit : Int) :
    let errors := (run globals text limit).ending.errors
    (∀ d ∈ errors, '\n' ∉ d.text.toList ↔
      ∀ s, d.cause.quoted? = some (.string s) → '\n' ∉ s.toList) ∧
    (∀ d ∈ errors, ∀ s, d.cause.quoted? = some (.string s) →
      ∃ t ∈ (scanText text).tokens, t.token = .string s) ∧
    ((∀ d ∈ errors, '\n' ∉ d.text.toList) →
      (errors ≠ [] → (Diagnostic.render errors).toList.splitOn '\n' =
        errors.map fun d => d.text.toList) ∧
      Text.linesOf (Text.ofLines (Command.replyRun globals text limit).reports) =
        errors.map Diagnostic.text) := by
  intro errors
  obtain ⟨p, parsed, evaluable⟩ := exists_evaluable text limit
  -- Scanning and running quote no token at all, and parsing quotes those that it was given.
  have reported : ∀ d ∈ errors, d.cause.quoted? = none ∧ d.cause.OneLine ∨
      d.cause.Arises (withoutComments (scanText text).tokens) := by
    intro d mem
    obtain scanning | parsing | running := mem_errors_run parsed mem
    · exact .inl (oneLine_of_mem_scan scanning)
    · exact .inr (arises_of_mem_parse placed_withoutComments (exists_isEnd_withoutComments text)
        parsed parsing)
    · exact .inl (oneLine_of_execute evaluable (oneLine_of_mem_yield parsed) running)
  refine ⟨fun d mem => ?_, fun d mem s quoted => ?_, fun lines => ⟨fun some => ?_, ?_⟩⟩
  · rw [d.oneLine_text]
    obtain ⟨none, line⟩ | arises := reported d mem
    · simp [none, line]
    · exact oneLine_iff_of_arises arises
  · obtain ⟨none, -⟩ | arises := reported d mem
    · cases none.symm.trans quoted
    · obtain ⟨t, given, token⟩ := arises.exists_quoted quoted
      exact ⟨t, (mem_withoutComments.mp given).1, token⟩
  · rw [Diagnostic.render, Text.splitOn_intercalate (by simpa using lines) (by simpa using some),
      List.map_map]
    rfl
  · rw [reports_replyRun, Text.linesOf_ofLines (by simpa using lines)]

/-- A string in place of a semicolon, and a statement without its expression. -/
theorem run_reports_oneLine_quoted :
    let errors := (run {} "1 \"a b\"; print ;" 48).ending.errors
    errors.map (fun d => d.cause.quoted?) = [some (.string "a b"), some (.mark .semicolon)] ∧
      (∀ d ∈ errors, '\n' ∉ d.text.toList) ∧
      (Diagnostic.render errors).toList.splitOn '\n' = errors.map fun d => d.text.toList := by
  intro errors
  obtain ⟨oneLine, -, lines⟩ := run_reports_oneLine {} "1 \"a b\"; print ;" 48
  have quoted : errors.map (fun d => d.cause.quoted?) =
      [some (.string "a b"), some (.mark .semicolon)] := by decide +kernel
  have short : ∀ d ∈ errors, '\n' ∉ d.text.toList := by
    intro d mem
    refine (oneLine d mem).mpr fun s string => ?_
    have among := quoted ▸ List.mem_map_of_mem mem
    rw [string] at among
    obtain rfl : s = "a b" := by simpa using among
    decide
  have some : errors ≠ [] := by
    intro none
    rw [none] at quoted
    cases quoted
  exact ⟨quoted, short, (lines short).1 some⟩

/-- A string that goes over lines takes its report with it. -/
theorem run_reports_string_over_lines :
    ∃ d, (run {} "1 \"a\nb\";" 48).ending.errors = [d] ∧ '\n' ∈ d.text.toList ∧
      (Diagnostic.render [d]).toList.splitOn '\n' =
        ["[line: 1, col: 3] Parsing Error (Expected ';', instead found '\"a".toList,
          "b\"')".toList] ∧
      Text.linesOf (Text.ofLines (Command.replyRun {} "1 \"a\nb\";" 48).reports) =
        ["[line: 1, col: 3] Parsing Error (Expected ';', instead found '\"a", "b\"')"] := by
  have errors : (run {} "1 \"a\nb\";" 48).ending.errors =
      [⟨.wrongToken (.mark .semicolon) (.string "a\nb"), some ⟨⟨1, 3, 2⟩, ⟨2, 3, 7⟩⟩⟩] := by
    decide +kernel
  refine ⟨_, errors, by decide +kernel, by decide +kernel, ?_⟩
  rw [reports_replyRun, errors]
  decide +kernel

end Lox
