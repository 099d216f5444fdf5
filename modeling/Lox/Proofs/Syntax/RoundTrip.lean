import Lox.Proofs.Syntax.Acceptance
import Lox.Proofs.Syntax.Boundary
import Lox.Proofs.Syntax.Printing
import Lox.Session

/-!
# Canonical text reads back

The statements that were read from a text, written back as canonical text, are read again as the
same statements, and their canonical text is the same. This needs that no statement is too deep to
be written, that the numbers in them are finite, and that their names join with no character beside
them; what could not be read in the first text does no harm.

* `exists_parse`: reading always ends, and every statement is derived from tokens of the text.
* `Token.exists_legible`: the tokens of a text are legible.
* `canonical_eq`: what is derived and not too deep has a canonical text.
* `canonical_of_parse`: reading, writing and reading again.
-/

namespace Lox

/-! ## What was read -/

namespace TokenStream

variable {limit : Int} {s s' : TokenStream} {items : List Item} {ranges : List (List PlacedToken)}

/-- Every statement that was read is derived from tokens of the stream. -/
theorem Rounds.exists_derives (h : Rounds limit s items ranges s') (hs : s.Guarded) {st : Stmt}
    (mem : .statement st ∈ items) : ∃ ts, StmtDerives limit.toNat st ts ∧
      ∀ t ∈ ts, t ∈ s.rest ∧ t.isEnd = false := by
  induction h with
  | nil => cases mem
  | @cons s s₁ s' t rest ts item items ranges hr ht hround hp _ ih =>
    rcases List.mem_cons.1 mem with rfl | mem
    · obtain ⟨item', us, s₂, hround', hp', -, hst⟩ :=
        exists_round limit (hs [] s (.refl s) (by simp [hr])) hr ht
      rw [hround] at hround'
      cases hround'
      refine ⟨us, hst st rfl, fun u hu => ⟨?_, hp'.noEnd u hu⟩⟩
      rw [hp'.rest]
      exact List.mem_append_left _ hu
    · obtain ⟨us, hd, hus⟩ := ih (hs.passes hp) mem
      refine ⟨us, hd, fun u hu => ⟨?_, (hus u hu).2⟩⟩
      rw [hp.rest]
      exact List.mem_append_right _ (hus u hu).1

end TokenStream

/-- Reading always ends: it is a row of rounds. -/
theorem exists_rounds_of_parse (limit : Int) {tokens : List PlacedToken}
    (hplaced : ∀ t ∈ tokens, t.span.isSome) (hend : ∃ t ∈ tokens, t.isEnd) :
    ∃ items ranges s', TokenStream.Rounds limit (.ofTokens tokens) items ranges s' ∧
      parse tokens limit = .ok (.ofItems items) := by
  have hclosed := closed_ofTokens hplaced hend
  obtain ⟨items, ranges, s', hrounds, hstop⟩ := TokenStream.exists_rounds limit hclosed.guarded
  obtain ⟨stop, after, hr⟩ :=
    List.exists_cons_of_ne_nil (hclosed.passes hrounds.passes).ready.rest_ne_nil
  exact ⟨items, ranges, s', hrounds, parse_eq (hrounds.items_eq hr (hstop stop (by simp [hr])))⟩

/-- Reading always ends, and every statement is derived from tokens of the list. -/
theorem exists_parse (limit : Int) {tokens : List PlacedToken}
    (hplaced : ∀ t ∈ tokens, t.span.isSome) (hend : ∃ t ∈ tokens, t.isEnd) :
    ∃ p, parse tokens limit = .ok p ∧ ∀ st ∈ p.statements, ∃ ts, StmtDerives limit.toNat st ts ∧
      ∀ t ∈ ts, t ∈ tokens ∧ t.isEnd = false := by
  obtain ⟨items, ranges, s', hrounds, hparse⟩ := exists_rounds_of_parse limit hplaced hend
  refine ⟨_, hparse, fun st hst => ?_⟩
  have hmem : .statement st ∈ items := by
    simp only [Parsed.ofItems, List.mem_filterMap] at hst
    obtain ⟨item, hitem, hst⟩ := hst
    cases item with
    | statement st' => cases hst; exact hitem
    | rejected d => cases hst
  obtain ⟨ts, hd, hts⟩ := hrounds.exists_derives (closed_ofTokens hplaced hend).guarded hmem
  exact ⟨ts, hd, fun t ht => ⟨(List.mem_filter.1 (hts t ht).1).1, (hts t ht).2⟩⟩

/-! ## Tokens of a text are legible -/

/-- Every token of a text has a place, and the last one is its end. -/
theorem span_isSome_of_mem_scan [Segmenter] {text : String} {t : PlacedToken}
    (h : t ∈ (scanText text).tokens) : t.span.isSome := by
  rcases List.mem_append.1 h with h | h
  · obtain ⟨p, -, htoken⟩ := List.mem_filterMap.1 h
    unfold PlacedPiece.token? at htoken
    split at htoken
    · cases htoken
      rfl
    · cases htoken
  · rw [List.mem_singleton.1 h]
    rfl

theorem mem_withoutComments {ts : List PlacedToken} {t : PlacedToken} :
    t ∈ withoutComments ts ↔ t ∈ ts ∧ t.kind ≠ .comment := by
  rw [withoutComments, List.mem_filter, bne_iff_ne]

theorem placed_withoutComments [Segmenter] {text : String} :
    ∀ t ∈ withoutComments (scanText text).tokens, t.span.isSome :=
  fun _ mem => span_isSome_of_mem_scan (mem_withoutComments.mp mem).1

/-- A text without its comments still has an end. -/
theorem exists_isEnd_withoutComments [Segmenter] (text : String) :
    ∃ t ∈ withoutComments (scanText text).tokens, t.isEnd := by
  refine ⟨(Source.ofText text).endToken, mem_withoutComments.mpr ⟨?_, nofun⟩, rfl⟩
  exact List.mem_append_right _ List.mem_cons_self

/-- The token can be written so that it is read back: a number is finite, and a name joins with no
character beside it. -/
def Token.IsWritable [Segmenter] : Token → Prop
  | .number x => x.isFinite
  | .identifier n => (∀ c ∈ n.toList.head?, Grapheme.OpensApart c) ∧
    ∀ c ∈ n.toList.getLast?, Grapheme.ClosesApart c
  | _ => True

/-- The tokens of a text are legible, all but comments, white space and the end. -/
theorem Token.exists_legible [Segmenter] {text : String} {t : PlacedToken}
    (h : t ∈ (scanText text).tokens) (ht : t.isEnd = false) (ink : t.token.isInk)
    (hc : t.kind ≠ .comment)
    (writable : t.token.IsWritable) : ∃ p, Legible t.token p := by
  obtain ⟨p, hp, reading⟩ := exists_piece_of_mem_scan h ht
  have clusters : Grapheme.Clusters (Grapheme.split text) := Grapheme.clusters_split _
  obtain ⟨token, span⟩ := t
  cases token with
  | mark m =>
    refine exists_legible_mark ?_
    rintro rfl
    cases ht
  | identifier n =>
    exact ⟨p, legible_identifier clusters hp reading (fun c mem => (writable.1 c mem).freeBefore)
      fun c mem => (writable.2 c mem).freeBehind⟩
  | string s => exact ⟨p, legible_string clusters hp reading⟩
  | number x =>
    cases Piece.readAs_of_reading reading
    exact exists_legible_number p.toBits_numberOf_lt writable
  | comment s => exact absurd rfl hc
  | whitespace b => cases ink

/-! ## Canonical texts -/

/-- An expression with the right shape has no flaw. -/
theorem Expr.flaw?_eq_none {b : Bool} {e : Expr} (h : e.Shaped) : e.flaw? b = none := by
  induction e with
  | literal | named => rfl
  | grouping e s ih => exact ih h
  | unary o e s ih =>
    obtain ⟨rfl | rfl, -, shaped⟩ := h <;> simp [flaw?, TokenKind.flaw?, ih shaped]
  | binary l o r s ihl ihr =>
    obtain ⟨⟨k, operator, -⟩, left, right⟩ := h
    cases o with
    | mark m => simp [flaw?, TokenKind.flaw?, ihl left, ihr right]
    | _ => cases operator
  | ternary c t f s ihc iht ihf =>
    obtain ⟨-, -, condition, whenTrue, whenFalse⟩ := h
    simp [flaw?, ihc condition, iht whenTrue, ihf whenFalse]
  | stray => exact h.elim

theorem Stmt.flaw?_eq_none {b : Bool} {st : Stmt} (h : st.Shaped) : st.flaw? b = none := by
  cases st with
  | expression e s | print e s => exact Expr.flaw?_eq_none (h e rfl)
  | declaration n e s =>
    cases e with
    | none => rfl
    | some e => exact Expr.flaw?_eq_none (h e rfl)
  | stray => exact h.elim

/-- Statements of the right shape that are not too deep have a canonical text. -/
theorem canonical_eq [Stack] {statements : List Stmt} (hshaped : ∀ st ∈ statements, st.Shaped)
    (hheight : ∀ st ∈ statements, st.height ≤ Stack.frames) :
    canonical statements = .ok (programSource statements) := by
  have lines : statements.mapM Stmt.source? = .ok (statements.map Stmt.source) := by
    induction statements with
    | nil => rfl
    | cons st statements ih =>
      rw [List.forall_mem_cons] at hshaped hheight
      have head : st.source? = .ok st.source := by
        unfold Stmt.source? obstacle?
        rw [if_neg (Nat.not_lt.mpr hheight.1), Stmt.flaw?_eq_none hshaped.1]
        rfl
      rw [List.mapM_cons, head, ih hshaped.2 hheight.2]
      rfl
  rw [canonical, lines, programSource]
  show Except.ok (String.join ((statements.map Stmt.source).map (· ++ "\n"))) = _
  rw [List.map_map]
  rfl

/-! ## Trees that differ in their spans are written alike -/

theorem Expr.source_bare (e : Expr) : e.bare.source = e.source := by
  induction e <;> simp_all [bare, source]

theorem Stmt.source_bare (st : Stmt) : st.bare.source = st.source := by
  cases st with
  | expression e s | print e s => simp [bare, source, Expr.source_bare]
  | declaration n e s => cases e <;> simp [bare, source, Expr.source_bare]
  | stray k => rfl

theorem Expr.height_bare (e : Expr) : e.bare.height = e.height := by
  induction e <;> simp_all [bare, height]

theorem Stmt.height_bare (st : Stmt) : st.bare.height = st.height := by
  cases st with
  | expression e s | print e s => exact congrArg (· + 1) e.height_bare
  | declaration n e s =>
    cases e with
    | none => rfl
    | some e => exact congrArg (· + 1) e.height_bare
  | stray k => rfl

theorem Expr.yield_bare (e : Expr) : e.bare.yield = e.yield := by
  induction e <;> simp_all [bare, yield]

theorem Stmt.yield_bare (st : Stmt) : st.bare.yield = st.yield := by
  cases st with
  | expression e s | print e s => simp [bare, yield, Expr.yield_bare]
  | declaration n e s => cases e <;> simp [bare, yield, Expr.yield_bare]
  | stray k => rfl

theorem Value.Alike.eq {v w : Value} (h : v.Alike Eq w) : v = w := by
  cases h with
  | number h => rw [h]
  | string | boolean | nil => rfl

theorem Expr.Alike.bare_eq {d e : Expr} (h : d.Alike Eq e) : d.bare = e.bare := by
  induction h with
  | literal _ _ hv => rw [bare, bare, hv.eq]
  | named | stray => rfl
  | grouping _ _ _ ih | unary _ _ _ _ ih => rw [bare, bare, ih]
  | binary _ _ _ _ _ ihl ihr => rw [bare, bare, ihl, ihr]
  | ternary _ _ _ _ _ ihc iht ihf => rw [bare, bare, ihc, iht, ihf]

theorem Stmt.Alike.bare_eq {st st' : Stmt} (h : st.Alike Eq st') : st.bare = st'.bare := by
  cases h with
  | expression _ _ h | print _ _ h => rw [Stmt.bare, Stmt.bare, h.bare_eq]
  | bare | stray => rfl
  | declaration _ _ _ h => rw [Stmt.bare, Stmt.bare, Option.map_some, Option.map_some, h.bare_eq]

theorem map_bare_eq {statements statements' : List Stmt}
    (h : List.Forall₂ (Stmt.Alike Eq) statements' statements) :
    statements'.map Stmt.bare = statements.map Stmt.bare := by
  induction h with
  | nil => rfl
  | cons head _ ih => rw [List.map_cons, List.map_cons, head.bare_eq, ih]

theorem programSource_eq_of_bare {statements statements' : List Stmt}
    (h : statements'.map Stmt.bare = statements.map Stmt.bare) :
    programSource statements' = programSource statements := by
  have lines (ss : List Stmt) : programSource ss =
      String.join ((ss.map Stmt.bare).map fun st => st.source ++ "\n") := by
    rw [programSource, List.map_map]
    simp [Function.comp_def, Stmt.source_bare]
  rw [lines, lines, h]

/-! ## Reading a canonical text -/

/-- The token is neither a comment nor the end of a source. -/
def Token.isSpoken (t : Token) : Bool := t.kind != .comment && t.kind != .mark .endOfFile

@[simp]
theorem Token.isSpoken_mark {m : Mark} : (Token.mark m).isSpoken = (m != .endOfFile) := by
  cases m <;> rfl

@[simp]
theorem Token.isSpoken_identifier (n : String) : (Token.identifier n).isSpoken = true :=
  rfl

@[simp]
theorem Value.isSpoken_token (v : Value) : v.token.isSpoken = true := by
  cases v with
  | boolean b => cases b <;> rfl
  | _ => rfl

/-- An expression holds no comments and not the end of a source. -/
theorem Expr.all_yield {e : Expr} (h : e.Shaped) : e.yield.all Token.isSpoken = true := by
  induction e with
  | literal v s => simp [yield]
  | named n s => rfl
  | grouping e s ih => simp [yield, ih h]
  | unary o e s ih =>
    obtain ⟨rfl | rfl, -, shaped⟩ := h <;> simp [yield, TokenKind.tokens, ih shaped]
  | binary l o r s ihl ihr =>
    obtain ⟨⟨k, operator, -⟩, left, right⟩ := h
    cases o with
    | mark m =>
      have spoken : m ≠ .endOfFile := by
        rintro rfl
        cases operator
      simp [yield, TokenKind.tokens, ihl left, ihr right, spoken]
    | _ => cases operator
  | ternary c t f s ihc iht ihf =>
    obtain ⟨-, -, condition, whenTrue, whenFalse⟩ := h
    simp [yield, ihc condition, iht whenTrue, ihf whenFalse]
  | stray => exact h.elim

theorem Stmt.all_yield {st : Stmt} (h : st.Shaped) : st.yield.all Token.isSpoken = true := by
  cases st with
  | expression e s | print e s => simp [yield, Expr.all_yield (h e rfl)]
  | declaration n e s =>
    cases e with
    | none => rfl
    | some e => simp [yield, Expr.all_yield (h e rfl)]
  | stray => exact h.elim

/-- A printed program holds no comments. -/
theorem ne_comment_of_mem_printedProgram {statements : List Stmt}
    (h : ∀ st ∈ statements, st.Shaped) {t : Token} (mem : t ∈ printedProgram statements) :
    t.kind ≠ .comment := by
  have spoken : t.isSpoken = true := by
    obtain ⟨st, hst, mem⟩ | rfl | rfl := mem_printedProgram mem
    · exact List.all_eq_true.mp (Stmt.all_yield (h st hst)) t mem
    · rfl
    · rfl
  rw [Token.isSpoken, Bool.and_eq_true, bne_iff_ne] at spoken
  exact spoken.1

theorem Token.alike_refl (t : Token) : t.Alike Eq t := by
  cases t with
  | number x => exact .number rfl
  | _ => exact .other (by rintro ⟨⟩)

theorem shaped_of_derives {levels : Nat} {statements : List Stmt}
    {ranges : List (List PlacedToken)} (h : List.Forall₂ (StmtDerives levels) statements ranges) :
    ∀ st ∈ statements, st.Shaped := by
  induction h with
  | nil => simp
  | cons head _ ih => exact List.forall_mem_cons.mpr ⟨head.shaped, ih⟩

/-- The tokens of statements that the parser can build are read as these statements, whatever white
space stands between them. -/
theorem exists_parse_of_yield {placed : List PlacedToken} {stop : PlacedToken}
    {statements : List Stmt} {limit : Int} (hstop : stop.isEnd)
    (hplaced : ∀ t ∈ placed ++ [stop], t.span.isSome) (hshaped : ∀ st ∈ statements, st.Shaped)
    (hnest : ∀ st ∈ statements, ∀ e ∈ st.body?, e.nesting < limit.toNat)
    (yields : (placed.map PlacedToken.token).filter Token.isInk = statements.flatMap Stmt.yield) :
    ∃ statements', parse (placed ++ [stop]) limit = .ok ⟨statements', []⟩ ∧
      (∀ st ∈ statements', st.Shaped) ∧ statements'.map Stmt.bare = statements.map Stmt.bare := by
  have inked : (placed.filter (fun t => t.kind != .whitespace)).map PlacedToken.token =
      statements.flatMap Stmt.yield := by
    rw [← yields, List.filter_map]
    rfl
  have spells : Spells Eq (placed.filter (fun t => t.kind != .whitespace))
      (statements.flatMap Stmt.yield) := by
    rw [← inked, Spells, List.forall₂_map_right_iff]
    exact List.forall₂_same.mpr fun t _ => Token.alike_refl t.token
  -- The end of a source is no white space, so it would be among the tokens of the statements.
  have hend : ∀ t ∈ placed, t.isEnd = false := by
    intro t mem
    refine Bool.eq_false_iff.mpr fun isEnd => ?_
    have token : t.token = .mark .endOfFile := PlacedToken.isEnd_iff.mp isEnd
    have among : t.token ∈ statements.flatMap Stmt.yield := by
      rw [← yields, List.mem_filter]
      exact ⟨List.mem_map_of_mem mem, by rw [token]; rfl⟩
    obtain ⟨st, hst, mem⟩ := List.mem_flatMap.mp among
    have spoken := List.all_eq_true.mp (Stmt.all_yield (hshaped st hst)) t.token mem
    rw [token] at spoken
    cases spoken
  obtain ⟨statements', ranges, hd, hflat, ha⟩ := exists_ranges_of_spells hshaped hnest
    (fun t ht => hplaced t (List.mem_append_left _ (List.mem_filter.1 ht).1)) spells
  exact ⟨statements', (parse_eq_ok_iff hstop hend hplaced).mpr ⟨ranges, hd, hflat⟩,
    shaped_of_derives hd, map_bare_eq ha⟩

/-- The canonical text of statements that the parser can build is scanned without a report and read
as these statements. -/
theorem parse_programSource [Segmenter] {statements : List Stmt} {limit : Int}
    (hshaped : ∀ st ∈ statements, st.Shaped)
    (hnest : ∀ st ∈ statements, ∀ e ∈ st.body?, e.nesting < limit.toNat)
    (hlegible : ∀ st ∈ statements, ∀ t ∈ st.yield, ∃ p, Legible t p) :
    ∃ tokens statements', scanText (programSource statements) = ⟨tokens, []⟩ ∧
      withoutComments tokens = tokens ∧ parse tokens limit = .ok ⟨statements', []⟩ ∧
      (∀ st ∈ statements', st.Shaped) ∧
      statements'.map Stmt.bare = statements.map Stmt.bare := by
  have legible : ∀ t ∈ printedProgram statements, ∃ p, Legible t p := by
    intro t mem
    obtain ⟨st, hst, mem⟩ | rfl | rfl := mem_printedProgram mem
    · exact hlegible st hst t mem
    · exact exists_legible_space
    · exact exists_legible_newline
  obtain ⟨placed, stop, scanned, hstop, hplaced, tokens⟩ :=
    scan_of_legible legible (chain_printedProgram hshaped) (toList_programSource hshaped)
  obtain ⟨statements', parsed, shaped, same⟩ := exists_parse_of_yield hstop hplaced hshaped hnest
    (by rw [tokens, filter_printedProgram])
  refine ⟨placed ++ [stop], statements', scanned, ?_, parsed, shaped, same⟩
  refine List.filter_eq_self.mpr fun t mem => ?_
  rcases List.mem_append.1 mem with mem | mem
  · have printed : t.token ∈ printedProgram statements := tokens ▸ List.mem_map_of_mem mem
    exact bne_iff_ne.mpr (ne_comment_of_mem_printedProgram hshaped printed)
  · rw [List.mem_singleton.1 mem, beq_iff_eq.1 hstop]
    rfl

/-- One statement that the parser can build is written as a text that is read as one statement,
which differs in its spans at most. -/
theorem exists_parse_source [Segmenter] {st : Stmt} {limit : Int} (shaped : st.Shaped)
    (nesting : ∀ e ∈ st.body?, e.nesting < limit.toNat)
    (legible : ∀ t ∈ st.yield, ∃ p, Legible t p) :
    ∃ st', parse (withoutComments (scanText (programSource [st])).tokens) limit =
        .ok ⟨[st'], []⟩ ∧ st'.height = st.height ∧ st'.yield = st.yield := by
  obtain ⟨tokens, statements', scanned, uncommented, parsed, -, same⟩ := parse_programSource
    (List.forall_mem_singleton.mpr shaped) (List.forall_mem_singleton.mpr nesting)
    (List.forall_mem_singleton.mpr legible)
  obtain ⟨st', rfl⟩ : ∃ st', statements' = [st'] :=
    List.length_eq_one_iff.mp (by simpa using congrArg List.length same)
  have bare : st'.bare = st.bare := List.head_eq_of_cons_eq same
  refine ⟨st', by rw [scanned, uncommented, parsed], ?_, ?_⟩
  · rw [← st'.height_bare, bare, st.height_bare]
  · rw [← st'.yield_bare, bare, st.yield_bare]

/-- What is read from a text without its comments is read, and its statements have the right shape,
fit the limit and hold tokens of the text. -/
theorem exists_parse_scan [Segmenter] (text : String) (limit : Int) :
    ∃ p, parse (withoutComments (scanText text).tokens) limit = .ok p ∧
      ∀ st ∈ p.statements, st.Shaped ∧ (∀ e ∈ st.body?, e.nesting < limit.toNat) ∧
        ∀ t ∈ st.yield, t.IsWritable → ∃ q, Legible t q := by
  obtain ⟨p, hp, hderived⟩ := exists_parse limit placed_withoutComments
    (exists_isEnd_withoutComments text)
  refine ⟨p, hp, fun st hst => ?_⟩
  obtain ⟨ts, hd, hts⟩ := hderived st hst
  refine ⟨hd.shaped, hd.nesting_lt, fun t ht writable => ?_⟩
  have ink : t.isInk := by
    rw [← st.filter_printed] at ht
    exact (List.mem_filter.1 ht).2
  rw [← hd.map_token] at ht
  obtain ⟨u, hu, rfl⟩ := List.mem_map.1 ht
  obtain ⟨mem, notEnd⟩ := hts u hu
  obtain ⟨scanned, noComment⟩ := mem_withoutComments.mp mem
  exact Token.exists_legible scanned notEnd ink noComment writable

/-- What was read from a text, the part that could be read, is written as a text that is scanned and
read without a report, as the same statements, and written as the same text again. This needs that
the statements are not too deep for the stack. -/
theorem canonical_of_parse [Segmenter] [Stack] {text : String} {limit : Int} {p : Parsed}
    (parsed : parse (withoutComments (scanText text).tokens) limit = .ok p)
    (heights : ∀ st ∈ p.statements, st.height ≤ Stack.frames)
    (writable : ∀ st ∈ p.statements, ∀ t ∈ st.yield, t.IsWritable) :
    ∃ text' q, canonical p.statements = .ok text' ∧ (scanText text').errors = [] ∧
      parse (scanText text').tokens limit = .ok q ∧ q.errors = [] ∧
      q.statements.map Stmt.bare = p.statements.map Stmt.bare ∧
      canonical q.statements = .ok text' := by
  obtain ⟨q, parsed', read⟩ := exists_parse_scan text limit
  obtain rfl : q = p := Except.ok.inj (parsed'.symm.trans parsed)
  have shaped : ∀ st ∈ q.statements, st.Shaped := fun st hst => (read st hst).1
  obtain ⟨tokens, statements', scanned, -, reparsed, shaped', same⟩ := parse_programSource shaped
    (fun st hst => (read st hst).2.1)
    (fun st hst t ht => (read st hst).2.2 t ht (writable st hst t ht))
  have heights' : ∀ st ∈ statements', st.height ≤ Stack.frames := by
    intro st hst
    have mem : st.bare ∈ q.statements.map Stmt.bare := same ▸ List.mem_map_of_mem hst
    obtain ⟨st', hst', bare⟩ := List.mem_map.1 mem
    rw [← st.height_bare, ← bare, st'.height_bare]
    exact heights st' hst'
  refine ⟨programSource q.statements, ⟨statements', []⟩, canonical_eq shaped heights, ?_, ?_, rfl,
    same, ?_⟩
  · rw [scanned]
  · rw [scanned]
    exact reparsed
  · rw [canonical_eq shaped' heights', programSource_eq_of_bare same]

end Lox
