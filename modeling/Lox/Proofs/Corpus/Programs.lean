import Lox.Corpus.Sample
import Lox.Proofs.Corpus.Phrases
import Lox.Proofs.Session.Scoping
import Lox.Proofs.Token.Display

/-!
# Random programs

However the draws fall, the text of a program is read without a report, as one to eight statements
with finite numbers, and every name is declared before it is used. So running it finishes, or it
reports something else than a name that means nothing.

* `Line.Spells`: the line is the text of a statement.
* `Rows`: the lines are statements, with comments between them.
* `Rows.exists_lexed`, `Rows.mem_names`: how they are read, and what they use.
* `Draw.rows_program`: the lines of a program that is drawn.
* `IsSound`: what is promised of a program.
* `sources_sound`: the main statement.
-/

namespace Lox.Corpus

open Grapheme (plain IsPlain)
open Token (space)

/-! ## Lines -/

/-- The line is the text of the statement, whose expression uses names from those given. -/
structure Line.Spells [Segmenter] (names : List String) (l : Line) (st : Stmt) : Prop where
  shaped : st.Shaped
  phrase : ∀ e ∈ st.body?, ∃ p : Phrase, p.Spells names Draw.depth e
  written : WrittenAs l.text.toList st.printed
  ended : l.text.toList.getLast? = some ';'
  declared : ∀ n, st.declared? = some n → IsName n
  namesAfter : l.namesAfter names = names ++ st.declared?.toList

theorem getLast?_append_semicolon (s : String) : (s ++ ";").toList.getLast? = some ';' := by
  rw [String.toList_append]
  exact List.getLast?_concat

namespace Line.Spells

variable [Segmenter] {names : List String} {p : Phrase} {e : Expr}

theorem print (h : p.Spells names Draw.depth e) : (Line.print p).Spells names (.print e none) where
  shaped := by rintro _ ⟨⟩; exact h.operand.shaped
  phrase := by rintro _ ⟨⟩; exact ⟨p, h⟩
  written := by
    have text : (Line.print p).text.toList =
        Mark.printWord.spelling.toList ++
          ([' '] ++ (p.text.toList ++ Mark.semicolon.spelling.toList)) := by
      simp [Line.text, Mark.spelling]
    rw [text]
    exact (written_mark (by decide)).append (written_space.append
      (h.written.append (written_mark (by decide))))
  ended := getLast?_append_semicolon _
  declared := nofun
  namesAfter := (List.append_nil _).symm

theorem expression (h : p.Spells names Draw.depth e) :
    (Line.expression p).Spells names (.expression e none) where
  shaped := by rintro _ ⟨⟩; exact h.operand.shaped
  phrase := by rintro _ ⟨⟩; exact ⟨p, h⟩
  written := by
    rw [Line.text, String.toList_append]
    exact h.written.append (written_mark (m := .semicolon) (by decide))
  ended := getLast?_append_semicolon _
  declared := nofun
  namesAfter := (List.append_nil _).symm

theorem declaration {name : String} (h : p.Spells names Draw.depth e) (hn : IsName name) :
    (Line.declaration name (some p)).Spells names (.declaration name (some e) none) where
  shaped := by rintro _ ⟨⟩; exact h.operand.shaped
  phrase := by rintro _ ⟨⟩; exact ⟨p, h⟩
  written := by
    have text : (Line.declaration name (some p)).text.toList = Mark.varWord.spelling.toList ++
        ([' '] ++ (name.toList ++ ([' '] ++ (Mark.equal.spelling.toList ++ ([' '] ++
          (p.text.toList ++ Mark.semicolon.spelling.toList)))))) := by
      simp [Line.text, Mark.spelling]
    rw [text]
    exact (written_mark (by decide)).append (written_space.append (hn.written.append
      (written_space.append ((written_mark (by decide)).append (written_space.append
        (h.written.append (written_mark (by decide))))))))
  ended := getLast?_append_semicolon _
  declared := by rintro _ ⟨⟩; exact hn
  namesAfter := rfl

theorem bare {name : String} (hn : IsName name) :
    (Line.declaration name none).Spells names (.declaration name none none) where
  shaped := nofun
  phrase := nofun
  written := by
    have text : (Line.declaration name none).text.toList = Mark.varWord.spelling.toList ++
        ([' '] ++ (name.toList ++ Mark.semicolon.spelling.toList)) := by
      simp [Line.text, Mark.spelling]
    rw [text]
    exact (written_mark (by decide)).append (written_space.append (hn.written.append
      (written_mark (by decide))))
  ended := getLast?_append_semicolon _
  declared := by rintro _ ⟨⟩; exact hn
  namesAfter := rfl

end Line.Spells

/-- A statement that is drawn is the text of one. -/
theorem Draw.spells_statement [Segmenter] {names : List String} (h : ∀ n ∈ names, IsName n) :
    (Draw.statement names).Always fun l => ∃ st, l.Spells names st := by
  intro x
  dsimp only
  split
  · refine Draw.always_name.bind fun name hn => (Draw.always_chance _).bind fun _ _ => ?_
    split
    · exact (Draw.spells_phrase h Draw.depth).bind fun p ⟨e, spells⟩ =>
        Draw.always_pure ⟨_, .declaration spells hn⟩
    · exact Draw.always_pure ⟨_, .bare hn⟩
  split
  · exact (Draw.spells_phrase h Draw.depth).bind fun p ⟨e, spells⟩ =>
      Draw.always_pure ⟨_, .print spells⟩
  · exact (Draw.spells_phrase h Draw.depth).bind fun p ⟨e, spells⟩ =>
      Draw.always_pure ⟨_, .expression spells⟩

/-! ## Programs -/

/-- The lines are the texts of the statements, over the names that are declared before each of them,
with comments between them. -/
inductive Rows [Segmenter] : List String → List Line → List Stmt → Prop where
  | nil {names : List String} : Rows names [] []
  | statement {names : List String} {l : Line} {st : Stmt} {lines : List Line} {ss : List Stmt} :
    l.Spells names st → Rows (l.namesAfter names) lines ss → Rows names (l :: lines) (st :: ss)
  | comment {names : List String} {word : String} {lines : List Line} {ss : List Stmt} :
    IsName word → Rows names lines ss → Rows names (.comment word :: lines) ss

/-- The lines of a program that is drawn are those of statements, as many as were asked for. -/
theorem Draw.rows_statements [Segmenter] {names : List String} (h : ∀ n ∈ names, IsName n)
    (count : Nat) : (Draw.statements names count).Always fun lines =>
      ∃ ss, Rows names lines ss ∧ ss.length = count := by
  induction count generalizing names with
  | zero => exact ⟨[], .nil, rfl⟩
  | succ count ih =>
    refine (spells_statement h).bind fun l ⟨st, spells⟩ => ?_
    have later : ∀ n ∈ l.namesAfter names, IsName n := by
      rw [spells.namesAfter, List.forall_mem_append]
      exact ⟨h, fun n mem => spells.declared n (by simpa using mem)⟩
    have comments : Draw.comment.Always fun c =>
        ∀ l ∈ c, ∃ word, l = .comment word ∧ IsName word := by
      refine (always_chance _).bind fun _ _ => ?_
      split
      · refine always_name.bind fun word hw => always_pure ?_
        rintro _ ⟨⟩
        exact ⟨word, rfl, hw⟩
      · exact always_pure nofun
    refine comments.bind fun c hc => (ih later).bind fun more ⟨ss, rows, length⟩ => always_pure ?_
    refine ⟨st :: ss, .statement spells ?_, congrArg (· + 1) length⟩
    cases c with
    | none => exact rows
    | some c =>
      obtain ⟨word, rfl, hw⟩ := hc c rfl
      exact .comment hw rows

theorem Draw.rows_program [Segmenter] :
    Draw.program.Always fun lines => ∃ ss, Rows [] lines ss ∧ 1 ≤ ss.length ∧ ss.length ≤ 8 := by
  refine (always_between 1 7).bind fun count bounds => ?_
  refine (rows_statements (List.forall_mem_nil _) count).mono fun lines ⟨ss, rows, length⟩ => ?_
  exact ⟨ss, rows, by omega, by omega⟩

/-! ## How they are read -/

namespace Line.Spells

variable [Segmenter] {names : List String} {l : Line} {st : Stmt}

theorem lexed (h : l.Spells names st) : Lexed l.text.toList st.printed :=
  h.written.lexed (Stmt.chain_printed h.shaped)

/-- The tokens in its expression are known. -/
theorem known (h : l.Spells names st) {e : Expr} (body : e ∈ st.body?) :
    ∀ t ∈ e.yield, Known names t := by
  obtain ⟨p, phrase⟩ := h.phrase e body
  exact phrase.known_of_yield

end Line.Spells

namespace IsName

variable {word : String}

theorem isAlphanumeric (h : IsName word) :
    ∀ c ∈ word.toList, Grapheme.isAlphanumeric ⟨c, []⟩ = true := by
  obtain ⟨c, cs, spelled, alpha, alphanumeric, -⟩ := h.word
  rw [spelled, List.forall_mem_cons]
  exact ⟨by rw [Grapheme.isAlphanumeric, alpha, Bool.true_or], alphanumeric⟩

/-- A name behind two slashes is a comment. -/
theorem lexed_comment [Segmenter] (h : IsName word) :
    Lexed (Line.comment word).text.toList [.comment ("// " ++ word)] := by
  have isPlain : ∀ c ∈ '/' :: '/' :: ' ' :: word.toList, IsPlain c := by
    obtain ⟨⟨c, cs, spelled, -, -, isPlain⟩, -⟩ := h
    rw [List.forall_mem_cons, List.forall_mem_cons, List.forall_mem_cons, spelled]
    exact ⟨by decide, by decide, by decide, isPlain⟩
  have inside : ∀ g ∈ plain (' ' :: word.toList), (!g.isNewline) = true := by
    simp only [plain, List.map_cons, List.forall_mem_cons, List.forall_mem_map]
    refine ⟨by decide, fun c mem => ?_⟩
    rw [Bool.not_eq_true', Bool.eq_false_iff]
    intro newline
    have alphanumeric := h.isAlphanumeric c mem
    obtain same | same := Grapheme.eq_of_isNewline newline
    · rw [same] at alphanumeric
      cases alphanumeric
    · cases same
  have spelled : (Line.comment word).text.toList = '/' :: '/' :: ' ' :: word.toList :=
    String.toList_append
  have text : Grapheme.join (plain ('/' :: '/' :: ' ' :: word.toList)) = "// " ++ word := by
    rw [Grapheme.join, Grapheme.flatMap_chars_plain, ← spelled, String.ofList_toList]
    rfl
  have lexeme : Lexeme (plain ('/' :: '/' :: ' ' :: word.toList)) [] (.ok (.comment
      (Grapheme.join (plain ('/' :: '/' :: ' ' :: word.toList))))) :=
    .comment ⟨inside, fun g mem => absurd mem (Option.not_mem_none g)⟩
  have lexed := lexeme.lexed (Grapheme.clusters_plain isPlain)
  rwa [text, Grapheme.flatMap_chars_plain, ← spelled] at lexed

theorem getLast?_comment (h : IsName word) :
    (Line.comment word).text.toList.getLast? ≠ some '\r' := by
  have some : word.toList ≠ [] := by
    obtain ⟨⟨c, cs, spelled, -⟩, -⟩ := h
    rw [spelled]
    exact List.cons_ne_nil c cs
  intro last
  rw [Line.text, String.toList_append, List.getLast?_append_of_ne_nil _ some] at last
  cases h.isAlphanumeric _ (List.mem_of_getLast? last)

end IsName

/-- The text of lines is that of the first and that of the others, with a line feed between them. -/
theorem toList_textOf_cons (l : Line) (lines : List Line) :
    (textOf (l :: lines)).toList = l.text.toList ++ '\n' :: (textOf lines).toList := by
  simp [textOf, Text.ofLines, String.toList_join]

namespace Rows

variable [Segmenter] {names : List String} {lines : List Line} {ss : List Stmt}

theorem shaped (h : Rows names lines ss) :
    ∀ st ∈ ss, st.Shaped ∧ ∀ e ∈ st.body?, e.nesting ≤ Draw.depth := by
  induction h with
  | nil => simp
  | statement spells _ ih =>
    refine List.forall_mem_cons.mpr ⟨⟨spells.shaped, fun e body => ?_⟩, ih⟩
    obtain ⟨p, phrase⟩ := spells.phrase e body
    exact phrase.nesting
  | comment _ _ ih => exact ih

/-- The text of the lines is made of the tokens of the statements, with white space and comments
between them. -/
theorem exists_lexed (h : Rows names lines ss) : ∃ ts, Lexed (textOf lines).toList ts ∧
    ts.filter Token.isSeen = ss.flatMap Stmt.yield := by
  induction h with
  | nil => exact ⟨[], lexed_nil, rfl⟩
  | statement spells _ ih =>
    obtain ⟨ts, lexed, seen⟩ := ih
    have last := spells.ended.trans_ne (by decide : some ';' ≠ some '\r')
    have both := spells.lexed.lineFeed last lexed
    rw [← toList_textOf_cons] at both
    refine ⟨_, both, ?_⟩
    rw [List.filter_append, Stmt.filter_isSeen spells.shaped, List.flatMap_cons, ← seen]
    rfl
  | comment word _ ih =>
    obtain ⟨ts, lexed, seen⟩ := ih
    have both := word.lexed_comment.lineFeed word.getLast?_comment lexed
    rw [← toList_textOf_cons] at both
    refine ⟨_, both, ?_⟩
    exact seen

/-- A name in a statement is in use, or a statement before it declares it. -/
theorem mem_names (h : Rows names lines ss) {before after : List Stmt} {st : Stmt}
    (split : ss = before ++ st :: after) {e : Expr} (body : e ∈ st.body?) {n : String}
    (mem : .identifier n ∈ e.yield) : n ∈ names ∨ ∃ d ∈ before, d.declared? = some n := by
  induction h generalizing before with
  | nil => cases List.append_ne_nil_of_right_ne_nil before (List.cons_ne_nil st after) split.symm
  | statement spells _ ih =>
    cases before with
    | nil =>
      obtain ⟨rfl, rfl⟩ := List.cons_eq_cons.mp split
      exact .inl (spells.known body _ mem)
    | cons d before =>
      obtain ⟨rfl, rest⟩ := List.cons_eq_cons.mp split
      obtain known | ⟨d', among, declared⟩ := ih rest
      · rw [spells.namesAfter, List.mem_append, Option.mem_toList] at known
        exact known.imp_right fun declared => ⟨_, List.mem_cons_self, declared⟩
      · exact .inr ⟨d', List.mem_cons_of_mem _ among, declared⟩
  | comment _ _ ih => exact ih split

theorem finite (h : Rows names lines ss) :
    ∀ st ∈ ss, ∀ e ∈ st.body?, ∀ x, .number x ∈ e.yield → x.isFinite := by
  induction h with
  | nil => simp
  | statement spells _ ih =>
    exact List.forall_mem_cons.mpr ⟨fun e body x mem => spells.known body _ mem, ih⟩
  | comment _ _ ih => exact ih

end Rows

/-! ## Sound programs -/

/-- The text is a program: it is read without a report, as one to eight statements with finite
numbers, each of which uses only what was declared before. So running it by itself finishes, or it
reports something else than a name that means nothing. -/
structure IsSound [Stack] [Segmenter] (text : String) (limit : Int)
    (statements : List Stmt) : Prop where
  reads : ReadsAs text limit statements
  length : 1 ≤ statements.length ∧ statements.length ≤ 8
  finite : ∀ st ∈ statements, ∀ e ∈ st.body?, ∀ x, .number x ∈ e.yield → x.isFinite
  closed : Scoped statements
  ending : let r := run {} text limit
    r.ending = .finished ∨
      ∃ d, r.ending = .stopped .runtime [d] ∧ ∀ n, d.cause ≠ .undefinedVariable n

/-- Lines of statements are a program, if the limit lets expressions be nested three deep. -/
theorem Rows.exists_isSound [Stack] [Segmenter] {lines : List Line} {ss : List Stmt} {limit : Int}
    (h : Rows [] lines ss) (length : 1 ≤ ss.length ∧ ss.length ≤ 8) (deep : 4 ≤ limit) :
    ∃ statements, IsSound (textOf lines) limit statements := by
  obtain ⟨ts, lexed, seen⟩ := h.exists_lexed
  obtain ⟨statements, reads, same⟩ := @exists_readsAs _ _ limit _ _ lexed seen
    (fun st mem => (h.shaped st mem).1) fun st mem e body => by
      have nesting : e.nesting ≤ 3 := (h.shaped st mem).2 e body
      omega
  have closed : Scoped ss := fun before st after split e body n mem =>
    (h.mem_names split body mem).resolve_left List.not_mem_nil
  refine ⟨statements, reads, ?_, fun st mem e body x number => ?_, closed.of_bare same,
    reads.run_scoped (closed.of_bare same) {}⟩
  · rwa [← List.length_map Stmt.bare, same, List.length_map]
  · have among : st.bare ∈ ss.map Stmt.bare := same ▸ List.mem_map_of_mem mem
    obtain ⟨st', mem', bare⟩ := List.mem_map.mp among
    obtain ⟨e', body', yield⟩ := Stmt.exists_body_of_bare bare.symm body
    exact h.finite st' mem' e' body' x (yield ▸ number)

/-- A corpus has as many programs as were asked for, and all of them are sound, whatever the seed
and wherever the random numbers come from: each is read without a report as one to eight statements
with finite numbers, if expressions may be nested three deep, and never uses a name before declaring
it. -/
theorem sources_sound [Stack] [Segmenter] {limit : Int} (deep : 4 ≤ limit) :
    (∀ seed count : Int, (sources seed count).length = count.toNat ∧
      ∀ text ∈ sources seed count, ∃ statements, IsSound text limit statements) ∧
    ∀ {σ : Type} (r : Randomness σ) (s : σ) (count : Nat),
      let programs := ((Draw.times count Draw.program).run r s).1
      programs.length = count ∧
        ∀ program ∈ programs, ∃ statements, IsSound (textOf program) limit statements := by
  have drawn {σ : Type} (r : Randomness σ) (s : σ) (count : Nat) :
      let programs := ((Draw.times count Draw.program).run r s).1
      programs.length = count ∧
        ∀ program ∈ programs, ∃ statements, IsSound (textOf program) limit statements := by
    obtain ⟨count, rows⟩ := (Draw.always_times Draw.rows_program count).run r s
    refine ⟨count, fun program mem => ?_⟩
    obtain ⟨ss, rows, length⟩ := rows program mem
    exact rows.exists_isSound length deep
  refine ⟨fun seed count => ?_, drawn⟩
  obtain ⟨length, sound⟩ := drawn twister (.ofSeed seed) count.toNat
  exact ⟨(List.length_map _).trans length, List.forall_mem_map.mpr sound⟩

/-- Random numbers that are all alike make a program of one statement, with nothing in the
string. -/
theorem sources_sound_alike : (4 : Int) ≤ 48 ∧
    ∃ statements, IsSound "print (((\"\")));\n" 48 statements := by
  have deep : (4 : Int) ≤ 48 := by decide
  refine ⟨deep, ?_⟩
  obtain ⟨-, drawn⟩ :=
    (sources_sound deep).2 (⟨fun _ => (0.5, ()), fun _ _ => (0, ())⟩ : Randomness Unit) () 1
  exact drawn [.print (.parentheses (.parentheses (.parentheses (.string ""))))] (by decide +kernel)

end Lox.Corpus
