import Lox.Proofs.Syntax.Lockstep
import Lox.Proofs.Syntax.RoundTrip

/-!
# Where reading resumes

Tokens without a semicolon make no statement. A statement that starts with a word of its own and
stands behind them is read all the same if what failed before it failed at a token of its own: then
skipping stops before the word. If it failed for want of tokens, the word is what it reads instead
and is quoted in the report, and the statement is skipped.

* `StmtDerives.exists_keyword`: the tokens of a statement that starts with a word of its own.
* `TokenStream.synchronize_semicolon`: skipping to the next semicolon.
* `TokenStream.Rounds.parse_statement`: the statement is read.
* `Pairing.Misses.parse_rejected`: the word is read in place of something else.
* `parse_resumes`: both cases.
* `parse_resumes_word_lost`: a word that is lost.
-/

namespace Lox

/-- The statement starts with a word of its own. -/
def Stmt.hasKeyword : Stmt → Bool
  | print _ _ | declaration _ _ _ => true
  | expression _ _ | stray _ => false

namespace TokenStream

theorem resumesAt_of_mark {t : PlacedToken} {m : Mark} (ht : t.token = .mark m) :
    resumesAt t = decide (m ∈ .endOfFile :: Mark.statementStarts) := by
  obtain ⟨token, span⟩ := t
  cases ht
  cases m <;> rfl

end TokenStream

open TokenStream (resumesAt resumesAt_of_mark)

/-- Reading does not resume within an expression. -/
theorem Derives.resumesAt_eq_false {l : Level} {room : Nat} {e : Expr} {ts : List PlacedToken}
    (h : Derives l room e ts) {t : PlacedToken} (ht : t ∈ ts) : resumesAt t = false := by
  refine Bool.or_eq_false_iff.mpr ⟨(h.within t ht).2, List.any_eq_false.mpr fun m hm hk => ?_⟩
  have hin := h.mem_inExpressions t ht m (PlacedToken.kind_eq_mark.mp (by simpa using hk))
  revert hm hin
  cases m <;> decide

/-- The tokens of a statement that starts with a word of its own: no other place to resume lies
before its semicolon. -/
theorem StmtDerives.exists_keyword {levels : Nat} {st : Stmt} {ts : List PlacedToken}
    (h : StmtDerives levels st ts) (hst : st.hasKeyword) :
    ∃ k us stop, ts = k :: (us ++ [stop]) ∧ k.isEnd = false ∧ resumesAt k ∧ k.isSemicolon = false ∧
      stop.isSemicolon ∧ ∀ u ∈ us, u.isSemicolon = false ∧ resumesAt u = false := by
  have word {t : PlacedToken} {m : Mark} (ht : t.token = .mark m)
      (hm : m = .printWord ∨ m = .varWord) :
      t.isEnd = false ∧ resumesAt t ∧ t.isSemicolon = false := by
    rw [resumesAt_of_mark ht]
    obtain rfl | rfl := hm <;> exact ⟨PlacedToken.isEnd_of_ne ht (by decide), by decide,
      PlacedToken.isSemicolon_of_ne ht (by decide)⟩
  cases h with
  | expression => cases hst
  | @print _ _ us k stop _ _ hk h hstop =>
    obtain ⟨hend, hres, hsemi⟩ := word hk (.inl rfl)
    exact ⟨k, us, stop, rfl, hend, hres, hsemi, PlacedToken.isSemicolon_iff.mpr hstop, fun u hu =>
      ⟨(h.within u hu).1, h.resumesAt_eq_false hu⟩⟩
  | @bare _ k stop _ _ name c hk hstop =>
    obtain ⟨hend, hres, hsemi⟩ := word hk (.inr rfl)
    exact ⟨k, [⟨.identifier name, c⟩], stop, rfl, hend, hres, hsemi,
      PlacedToken.isSemicolon_iff.mpr hstop, List.forall_mem_singleton.mpr ⟨rfl, rfl⟩⟩
  | @declaration _ _ us k equal stop _ _ name c hk hequal h hstop =>
    obtain ⟨hend, hres, hsemi⟩ := word hk (.inr rfl)
    refine ⟨k, ⟨.identifier name, c⟩ :: equal :: us, stop, rfl, hend, hres, hsemi,
      PlacedToken.isSemicolon_iff.mpr hstop, ?_⟩
    simp only [List.forall_mem_cons, resumesAt_of_mark hequal]
    exact ⟨⟨rfl, rfl⟩, ⟨PlacedToken.isSemicolon_of_ne hequal (by decide), by decide⟩, fun u hu =>
      ⟨(h.within u hu).1, h.resumesAt_eq_false hu⟩⟩

namespace TokenStream

/-- Where nothing else is to stop at, skipping stops behind the next semicolon. -/
theorem synchronize_semicolon {passed us : List PlacedToken} {stop : PlacedToken}
    (hpassed : closes passed = false) (hstop : stop.isSemicolon)
    (hus : ∀ u ∈ us, u.isSemicolon = false ∧ resumesAt u = false) (rest : List PlacedToken)
    (depth : Nat) :
    synchronize ⟨passed, us ++ stop :: rest, depth⟩ =
      .ok ⟨stop :: (us.reverse ++ passed), rest, depth⟩ := by
  have skips : skip passed (us ++ stop :: rest) = .ok (stop :: (us.reverse ++ passed), rest) := by
    induction us generalizing passed with
    | nil =>
      have hres : resumesAt stop = false := resumesAt_of_mark (PlacedToken.isSemicolon_iff.mp hstop)
      have hcloses : closes (stop :: passed) = true := hstop
      rw [List.nil_append, skip, hpassed, hres, Bool.or_false, if_neg (by decide)]
      cases rest <;> simp [skip, hcloses]
    | cons u us ih =>
      obtain ⟨⟨hsemi, hres⟩, hus⟩ := List.forall_mem_cons.mp hus
      have hcloses : closes (u :: passed) = false := hsemi
      rw [List.cons_append, skip, hpassed, hres, Bool.or_false, if_neg (by decide), ih hcloses hus]
      simp
  rw [synchronize, skips]
  rfl

end TokenStream

/-- No statement is read from tokens without a semicolon. -/
theorem statements_eq_nil_of_parse {limit : Int} {tokens : List PlacedToken} {p : Parsed}
    (placed : ∀ t ∈ tokens, t.span.isSome) (ended : ∃ t ∈ tokens, t.isEnd)
    (parsed : parse tokens limit = .ok p) (none : ∀ t ∈ tokens, t.isSemicolon = false) :
    p.statements = [] := by
  obtain ⟨q, parsed', derived⟩ := exists_parse limit placed ended
  obtain rfl : p = q := Except.ok.inj (parsed.symm.trans parsed')
  refine List.eq_nil_iff_forall_not_mem.mpr fun st hst => ?_
  obtain ⟨ts, hd, hts⟩ := derived st hst
  obtain ⟨us, stop, rfl, hstop, -⟩ := hd.eq_concat
  rw [none stop (hts stop (by simp)).1] at hstop
  cases hstop

/-- Readers of tokens without and with a statement behind them. -/
def Pairing.followedBy {stop k : PlacedToken} (ends : stop.isEnd) (hk : k.isEnd = false)
    (resumes : resumesAt k) (us : List PlacedToken) (limit : Int) : Pairing where
  move := id
  stop := stop
  after := []
  stop' := k
  after' := us ++ [stop]
  limit := limit
  limit' := limit
  ends := ends
  resumes := resumes
  moved h := by simp [hk] at h

theorem Parsed.ofItems_append (items items' : List Item) : ofItems (items ++ items') =
    ⟨(ofItems items).statements ++ (ofItems items').statements,
      (ofItems items).errors ++ (ofItems items').errors⟩ := by
  simp [ofItems]

section

variable {limit : Int} {ts us : List PlacedToken} {stop k semicolon : PlacedToken} {st : Stmt}

private theorem isEnd_eq_false_of_inner (hsemi : semicolon.isSemicolon)
    (hus : ∀ u ∈ us, u.isSemicolon = false ∧ resumesAt u = false) :
    ∀ u ∈ us ++ [semicolon], u.isEnd = false :=
  List.forall_mem_append.mpr ⟨fun u hu => (Bool.or_eq_false_iff.mp (hus u hu).2).1,
    List.forall_mem_singleton.mpr
      (PlacedToken.isEnd_of_ne (PlacedToken.isSemicolon_iff.mp hsemi) (by decide))⟩

/-- What the round does that reads the word in place of what it wanted: it skips the statement that
the word starts. -/
theorem Pairing.Misses.round_eq (hlimit : 1 ≤ limit) {ends : stop.isEnd} {hk : k.isEnd = false}
    {resumes : resumesAt k} {item : Item} {m failed : TokenStream} {d' : Diagnostic}
    (h : (followedBy ends hk resumes (us ++ [semicolon]) limit).Misses item m d' failed)
    (ready : m.Ready) (hhead : ∃ t ∈ m.rest.head?, t.isEnd = false) (hksemi : k.isSemicolon = false)
    (hsemi : semicolon.isSemicolon)
    (hus : ∀ u ∈ us, u.isSemicolon = false ∧ resumesAt u = false) :
    ∃ ts g, TokenStream.round limit m = .ok (.rejected d', g) ∧ m.Passes ts g ∧
      g.rest = [stop] := by
  have hrun : (Grammar.topDeclaration limit).run m = .failed (.diagnostic d') failed := h.run
  obtain ⟨t, ht, hend⟩ := hhead
  obtain ⟨rest, hr⟩ : ∃ rest, m.rest = t :: rest := List.head?_eq_some_iff.mp ht
  obtain ⟨ts, hp, -⟩ := (Grammar.ensures_topDeclaration limit ready).failed hrun
  have hne : ts ≠ [] :=
    (Grammar.selfContained_topDeclaration hlimit).opens.ne_nil hr hend (by rwa [hrun])
  have hlt : failed.rest.length < m.rest.length := by
    have := hp.length_rest
    have := List.length_pos_iff.mpr hne
    omega
  obtain ⟨passed, rest', depth⟩ := failed
  have hcloses : TokenStream.closes passed = false := by
    rw [TokenStream.closes, show passed.head? = some k from h.passed]
    exact hksemi
  have hrest : rest' = us ++ semicolon :: [stop] :=
    h.rest.trans (List.append_assoc us [semicolon] [stop])
  subst hrest
  have hsync := TokenStream.synchronize_semicolon hcloses hsemi hus [stop] depth
  refine ⟨ts ++ (us ++ [semicolon]), ⟨semicolon :: (us.reverse ++ passed), [stop], depth⟩, ?_,
    hp.trans ⟨by simp, by simp, rfl, isEnd_eq_false_of_inner hsemi hus⟩, rfl⟩
  rw [TokenStream.round, hrun]
  simp only [TokenStream.recover_eq hlt, hsync, Except.map]

/-- What both readers end alike says nothing of an early end, if the second one does not end. -/
theorem Pairing.isEarlyEnd_of_ends {w : Pairing} (apart : w.stop'.isEnd = false)
    {items : List Item} (h : ∀ item ∈ items, w.Ends item) :
    ∀ d ∈ (Parsed.ofItems items).errors, d.cause.isEarlyEnd = false := by
  intro d hd
  obtain ⟨item, hitem, hdiag⟩ := List.mem_filterMap.mp hd
  cases item with
  | statement => cases hdiag
  | rejected =>
    cases hdiag
    exact (h _ hitem _ rfl).resolve_right (by simp [apart])

/-- What is read in rounds, and then the tokens of a statement. -/
theorem TokenStream.Rounds.parse_statement {tokens : List PlacedToken} {items : List Item}
    {ranges : List (List PlacedToken)} {m : TokenStream}
    (h : Rounds limit (.ofTokens tokens) items ranges m) {vs : List PlacedToken}
    (hrest : m.rest = vs ++ [stop]) (hd : StmtDerives limit.toNat st vs)
    (hvs : ∀ v ∈ vs, v.isEnd = false) (hstop : stop.isEnd) :
    parse tokens limit =
      .ok ⟨(Parsed.ofItems items).statements ++ [st], (Parsed.ofItems items).errors⟩ := by
  have hp : m.Passes [vs].flatten ⟨vs.reverse ++ m.passed, [stop], m.depth⟩ := by
    rw [List.flatten_singleton]
    exact ⟨hrest, rfl, rfl, hvs⟩
  have whole := h.trans (rounds_of_derivations (.cons hd .nil) hp)
  rw [parse_eq (whole.items_eq rfl hstop), Parsed.ofItems_append]
  simp [Parsed.ofItems, Item.statement?, Item.diagnostic?]

/-- What is read in rounds, and then a round that reads the word in place of what it wanted. -/
theorem Pairing.Misses.parse_rejected (hlimit : 1 ≤ limit) {ends : stop.isEnd}
    {hk : k.isEnd = false} {resumes : resumesAt k} {item : Item} {m failed : TokenStream}
    {d' : Diagnostic}
    (h : (followedBy ends hk resumes (us ++ [semicolon]) limit).Misses item m d' failed)
    {tokens : List PlacedToken} {items : List Item} {ranges : List (List PlacedToken)}
    (hrounds : TokenStream.Rounds limit (.ofTokens tokens) items ranges m) (ready : m.Ready)
    (hhead : ∃ t ∈ m.rest.head?, t.isEnd = false) (hksemi : k.isSemicolon = false)
    (hsemi : semicolon.isSemicolon) (hus : ∀ u ∈ us, u.isSemicolon = false ∧ resumesAt u = false) :
    parse tokens limit =
      .ok ⟨(Parsed.ofItems items).statements, (Parsed.ofItems items).errors ++ [d']⟩ := by
  obtain ⟨vs, g, hround, hp, hg⟩ := h.round_eq hlimit ready hhead hksemi hsemi hus
  obtain ⟨t, ht, hend⟩ := hhead
  obtain ⟨rest, hr⟩ : ∃ rest, m.rest = t :: rest := List.head?_eq_some_iff.mp ht
  have whole := hrounds.trans (.cons hr hend hround hp (.nil g))
  rw [parse_eq (whole.items_eq hg ends), Parsed.ofItems_append]
  simp [Parsed.ofItems, Item.statement?, Item.diagnostic?]

/-- A statement spelled by tokens starts with their first one if that is a word. -/
private theorem head?_yield {same : Float → Float → Prop} {vs : List PlacedToken}
    (word : st.hasKeyword)
    (spelled : List.Forall₂ (fun t u => Token.Alike same t.token u) (k :: vs) st.yield) :
    st.yield.head? = some k.token := by
  cases st with
  | print =>
    obtain ⟨_, _, ⟨⟩, hk, -⟩ := Spells.cons spelled
    exact congrArg some hk.eq_mark.symm
  | declaration name initial =>
    cases initial <;>
    · obtain ⟨_, _, ⟨⟩, hk, -⟩ := Spells.cons spelled
      exact congrArg some hk.eq_mark.symm
  | expression | stray => cases word

/-- A statement that starts with a word of its own, behind tokens without a semicolon. If no report
on the tokens alone says that more was expected, the statement is read and the reports are the same.
If one does, it is the last one; the report in its place quotes the word, and the statement is
lost. -/
theorem parse_resumes {same : Float → Float → Prop} (hlimit : 1 ≤ limit) (hstop : stop.isEnd)
    (placed : ∀ t ∈ ts ++ us ++ [stop], t.span.isSome)
    (hts : ∀ t ∈ ts, t.isEnd = false ∧ t.isSemicolon = false)
    (shaped : st.Shaped) (within : ∀ e ∈ st.body?, 1 + (e.nesting : Int) ≤ limit)
    (word : st.hasKeyword)
    (spelled : List.Forall₂ (fun t u => Token.Alike same t.token u)
      (us.filter (fun t => t.kind != .whitespace)) st.yield) :
    ∃ p, parse (ts ++ [stop]) limit = .ok p ∧ p.statements = [] ∧
      ((∀ d ∈ p.errors, d.cause.isEarlyEnd = false) → ∃ st', st'.Alike same st ∧
        parse (ts ++ us ++ [stop]) limit = .ok ⟨[st'], p.errors⟩) ∧
      ((∃ d ∈ p.errors, d.cause.isEarlyEnd) → ∃ d', d'.cause.quoted? = st.yield.head? ∧
        parse (ts ++ us ++ [stop]) limit = .ok ⟨[], p.errors.dropLast ++ [d']⟩) := by
  have placed₁ : ∀ t ∈ ts ++ [stop], t.span.isSome := fun t ht => placed t (by
    rw [List.append_assoc]
    exact (List.mem_append.mp ht).elim (List.mem_append_left _) fun h => by simp [h])
  have closed₁ := closed_ofTokens placed₁ ⟨stop, by simp, hstop⟩
  have closed := closed_ofTokens placed ⟨stop, by simp, hstop⟩
  have inside : ∀ t ∈ ts.filter (fun t => t.kind != .whitespace), t.isEnd = false :=
    fun t ht => (hts t (List.mem_filter.mp ht).1).1
  have nested (e : Expr) (he : e ∈ st.body?) : e.nesting < limit.toNat := by
    have := within e he
    omega
  -- The statement as it is derived from its tokens, the first of which is the word.
  obtain ⟨st', hd, alike⟩ := exists_stmtDerives shaped nested
    (fun t ht => placed t (by simp [(List.mem_filter.mp ht).1])) spelled
  obtain ⟨k, vs, semicolon, hvs, hk, resumes, hksemi, hsemi, hinner⟩ := hd.exists_keyword (by
    cases alike <;> exact word)
  rw [hvs] at spelled hd
  -- The tokens alone are read up to the end mark.
  have hrest₁ : (TokenStream.ofTokens (ts ++ [stop])).rest =
      ts.filter (fun t => t.kind != .whitespace) ++ stop :: [] := by
    simp [TokenStream.ofTokens, ne_whitespace_of_isEnd hstop]
  obtain ⟨items, ranges, e, hrounds, he⟩ :=
    closed₁.exists_rounds_of_rest limit hrest₁ inside hstop
  have parsed := parse_eq (hrounds.items_eq he hstop)
  have none := statements_eq_nil_of_parse placed₁ ⟨stop, by simp, hstop⟩ parsed <|
    List.forall_mem_append.mpr ⟨fun t ht => (hts t ht).2, List.forall_mem_singleton.mpr
      (PlacedToken.isSemicolon_of_ne (PlacedToken.isEnd_iff.mp hstop) (by decide))⟩
  refine ⟨_, parsed, none, ?_⟩
  -- With the statement behind they are read alike, unless the last round wants more of them.
  let w : Pairing := .followedBy hstop hk resumes (vs ++ [semicolon]) limit
  have beside : w.Beside (.ofTokens (ts ++ [stop])) (.ofTokens (ts ++ us ++ [stop])) := by
    have := Pairing.Beside.mk (w := w) [] _ 0 inside
    simpa [w, TokenStream.ofTokens, ne_whitespace_of_isEnd hstop, hvs, Pairing.followedBy]
      using this
  have unmoved (items : List Item) : items.map (Item.relocate w.move) = items := by
    simp [w, Pairing.followedBy]
  obtain ⟨e', hrounds', hbeside, hends⟩ | ⟨before, last, ranges', m', d', failed, rfl, hrounds', hm,
    hmiss⟩ := Pairing.rounds_beside (Int.le_refl limit) hrounds beside closed₁ he fun item _ h =>
      absurd h.1 (Int.lt_irrefl limit)
  · have hnever := Pairing.isEarlyEnd_of_ends hk hends
    have hneither : ¬ ∃ d ∈ (Parsed.ofItems items).errors, d.cause.isEarlyEnd = true := by
      rintro ⟨d, hd, h⟩
      exact Bool.false_ne_true ((hnever d hd).symm.trans h)
    refine ⟨fun _ => ⟨st', alike, ?_⟩, fun h => absurd h hneither⟩
    have read := hrounds'.parse_statement (hbeside.rest_eq he) hd
      (List.forall_mem_cons.mpr ⟨hk, isEnd_eq_false_of_inner hsemi hinner⟩) hstop
    rwa [unmoved, none] at read
  · have hlast : ∃ d, last = .rejected d ∧ d.cause.isEarlyEnd := hmiss.early
    obtain ⟨d, rfl, hearly⟩ := hlast
    refine ⟨fun h => ?_, fun _ => ⟨d', hmiss.quoted.trans (head?_yield word spelled).symm, ?_⟩⟩
    · rw [h d (by simp [Parsed.ofItems, Item.diagnostic?])] at hearly
      cases hearly
    · have read := hmiss.parse_rejected hlimit hrounds' (closed.passes hrounds'.passes).ready hm
        hksemi hsemi hinner
      rw [Parsed.ofItems_append] at none ⊢
      rw [unmoved, (List.append_eq_nil_iff.mp none).1] at read
      exact read.trans (by simp [Parsed.ofItems, Item.diagnostic?])

/-- Printing nothing, behind a stray parenthesis. -/
theorem parse_resumes_stray_parenthesis : ∃ p,
    parse [⟨.mark .rightParen, some {}⟩, ⟨.mark .endOfFile, some {}⟩] 1 = .ok p ∧
      p.statements = [] ∧ ((∀ d ∈ p.errors, d.cause.isEarlyEnd = false) →
        ∃ st', st'.Alike Eq (.print (.literal .nil none) none) ∧
          parse [⟨.mark .rightParen, some {}⟩, ⟨.mark .printWord, some {}⟩,
            ⟨.mark .nilWord, some {}⟩, ⟨.mark .semicolon, some {}⟩, ⟨.mark .endOfFile, some {}⟩] 1 =
              .ok ⟨[st'], p.errors⟩) := by
  obtain ⟨p, parsed, none, read, -⟩ := @parse_resumes 1 [⟨.mark .rightParen, some {}⟩]
    [⟨.mark .printWord, some {}⟩, ⟨.mark .nilWord, some {}⟩, ⟨.mark .semicolon, some {}⟩]
    ⟨.mark .endOfFile, some {}⟩ (.print (.literal .nil none) none) Eq (by decide) (by decide)
    (by decide) (by decide) (by simp [Stmt.Shaped, Stmt.body?, Expr.Shaped])
    (by simp [Stmt.body?, Expr.nesting]) rfl
    (.cons (.mark .printWord) (.cons (.mark .nilWord) (.cons (.mark .semicolon) .nil)))
  exact ⟨p, parsed, none, read⟩

/-- Where the semicolon of a statement is missing, the word of the next one is read in its place,
and the next statement is lost. -/
theorem parse_resumes_word_lost :
    (Stmt.print (.literal .nil none) none).yield =
        [.mark .printWord, .mark .nilWord, .mark .semicolon] ∧
      parse [⟨.mark .printWord, some {}⟩, ⟨.mark .nilWord, some {}⟩, ⟨.mark .printWord, some {}⟩,
        ⟨.mark .nilWord, some {}⟩, ⟨.mark .semicolon, some {}⟩, ⟨.mark .endOfFile, some {}⟩] 1 =
        .ok ⟨[], [⟨.wrongToken (.mark .semicolon) (.mark .printWord), some {}⟩]⟩ := by
  refine ⟨rfl, ?_⟩
  decide +kernel

end

end Lox
