import Lox.Proofs.Syntax.Framing
import Lox.Proofs.Syntax.Reading

/-!
# Recovery accounts for every token

Reading a program goes in rounds, and every round gives an item. The tokens of a round are a range
of the program: those of a statement, or those that were read and skipped because of a report. Where
there is room for one level at least, no token lies between two ranges or in two of them, and a
report points to a token of its own range, or to the end mark if no range follows.

* `TokenStream.round`: one round. `TokenStream.items_of_round` is the loop in terms of rounds.
* `TokenStream.Closed`: every token has a place, and the end mark lies ahead.
* `TokenStream.exists_round`: what a round does to its stream.
* `Ranges`: a row of items and the ranges that they account for.
* `exists_ranges`: parsing splits a program into ranges.
-/

namespace Lox

namespace TokenStream

/-! ## Rounds -/

/-- One round of `items`, where the next token is not the end mark. -/
def round (limit : Int) (s : TokenStream) : Except Fault (Item × TokenStream) :=
  match (Grammar.topDeclaration limit).run s with
  | .done statement s' => .ok (.statement statement, s')
  | .failed (.fault f) _ => .error f
  | .failed (.diagnostic d) failed => (recover s failed).map fun s' => (.rejected d, s')

section

variable {limit : Int} {s s' : TokenStream} {t : PlacedToken} {rest : List PlacedToken}

/-- At the end mark there are no items left. -/
theorem items_of_isEnd (hr : s.rest = t :: rest) (ht : t.isEnd) : items limit s = .ok ([], s) := by
  rw [items_eq, hr]
  simp only [ht, if_true]

/-- The loop in terms of rounds, with any rule that does here what the grammar does. -/
theorem loop_eq_round {declaration : Rule Stmt} {consumes : declaration.Consumes}
    (same : declaration.run s = (Grammar.topDeclaration limit).run s) (hr : s.rest = t :: rest)
    (ht : t.isEnd = false) : s.loop declaration consumes =
      match round limit s with
      | .error f => .error f
      | .ok (item, s') =>
        (s'.loop declaration consumes).map fun (is, stop) => (item :: is, stop) := by
  rw [loop_eq, hr, same, round]
  simp only [ht, Bool.false_eq_true, if_false]
  cases (Grammar.topDeclaration limit).run s with
  | done statement stop => rfl
  | failed why failed =>
    cases why with
    | fault f => rfl
    | diagnostic d =>
      dsimp only
      cases recover s failed <;> rfl

theorem items_eq_round (hr : s.rest = t :: rest) (ht : t.isEnd = false) :
    items limit s = match round limit s with
      | .error f => .error f
      | .ok (item, s') => (items limit s').map fun (is, stop) => (item :: is, stop) :=
  loop_eq_round rfl hr ht

/-- The items are that of the first round and those of the stream that it leaves. -/
theorem items_of_round {item : Item} (hr : s.rest = t :: rest) (ht : t.isEnd = false)
    (h : round limit s = .ok (item, s')) :
    items limit s = (items limit s').map fun (is, stop) => (item :: is, stop) := by
  rw [items_eq_round hr ht, h]

/-- A round ends with a statement, or with a report behind which reading goes on. -/
theorem exists_of_round {item : Item} (h : round limit s = .ok (item, s')) :
    (∃ st, item = .statement st ∧ (Grammar.topDeclaration limit).run s = .done st s') ∨
      ∃ d failed, item = .rejected d ∧
        (Grammar.topDeclaration limit).run s = .failed (.diagnostic d) failed ∧
        recover s failed = .ok s' := by
  rw [round] at h
  cases e : (Grammar.topDeclaration limit).run s with
  | done st stop =>
    rw [e] at h
    cases h
    exact .inl ⟨st, rfl, rfl⟩
  | failed why failed =>
    rw [e] at h
    cases why with
    | fault f => cases h
    | diagnostic d =>
      dsimp only at h
      cases hrec : recover s failed with
      | error f => simp [hrec, Except.map] at h
      | ok stop =>
        rw [hrec] at h
        cases h
        exact .inr ⟨d, failed, rfl, rfl, hrec⟩

/-- A round takes at least one token. -/
theorem round_shrinks {item : Item} (hr : s.rest = t :: rest)
    (h : round limit s = .ok (item, s')) : s'.rest.length < s.rest.length := by
  obtain ⟨st, -, e⟩ | ⟨d, failed, -, e, hrec⟩ := exists_of_round h
  · exact Grammar.consumes_declaration _ _ _ _ e
  · have hle := (Grammar.topDeclaration limit).shrinks s
    rw [e] at hle
    exact recover_shrinks (by simp [hr]) hle hrec

end

/-- Every token to come has a place, and the end mark is among them. -/
structure Closed (s : TokenStream) : Prop where
  placed : ∀ t ∈ s.rest, t.span.isSome
  ended : ∃ t ∈ s.rest, t.isEnd

namespace Closed

variable {s s' : TokenStream} {ts : List PlacedToken}

theorem ready (h : s.Closed) : s.Ready :=
  ⟨h.placed, let ⟨t, ht, he⟩ := h.ended; ⟨t, ht, .inl he⟩⟩

theorem passes (h : s.Closed) (hp : s.Passes ts s') : s'.Closed where
  placed t ht := h.placed t (by rw [hp.rest]; exact List.mem_append_right _ ht)
  ended := by
    obtain ⟨t, ht, he⟩ := h.ended
    rw [hp.rest] at ht
    rcases List.mem_append.1 ht with ht | ht
    · rw [hp.noEnd t ht] at he
      cases he
    · exact ⟨t, ht, he⟩

end Closed

/-! ## Skipping -/

theorem closes_cons (t : PlacedToken) (ts : List PlacedToken) :
    closes (t :: ts) = t.isSemicolon := rfl

/-- A rule that reads a semicolon at most as its last token leaves something to stop skipping at. -/
theorem Ready.bounded_of_passes {s f : TokenStream} {ts : List PlacedToken} (hs : s.Ready)
    (hp : s.Passes ts f) (hts : ∀ t ∈ ts.dropLast, t.isSemicolon = false) :
    closes f.passed ∨ ∃ t ∈ f.rest, t.isEnd ∨ t.isSemicolon := by
  obtain ⟨t, ht, h⟩ := hs.bounded
  rw [hp.rest] at ht
  rcases List.mem_append.1 ht with ht | ht
  · left
    have hsemi : t.isSemicolon := h.resolve_left (by simp [hp.noEnd t ht])
    obtain ⟨us, u, rfl⟩ := (List.eq_nil_or_concat' ts).resolve_left (List.ne_nil_of_mem ht)
    rw [List.dropLast_concat] at hts
    rcases List.mem_append.1 ht with ht | ht
    · rw [hts t ht] at hsemi
      cases hsemi
    · rw [List.mem_singleton] at ht
      simp [hp.passed, closes_cons, ← ht, hsemi]
  · exact .inr ⟨t, ht, h⟩

/-- Skipping stops behind the first semicolon at the latest, and before a token to resume at if no
semicolon was read. -/
theorem exists_synchronize {s : TokenStream}
    (h : closes s.passed ∨ ∃ t ∈ s.rest, t.isEnd ∨ t.isSemicolon) :
    ∃ us s', s.synchronize = .ok s' ∧ s.Passes us s' ∧ (closes s.passed → us = []) ∧
      (∀ u ∈ us.dropLast, u.isSemicolon = false) ∧
      (closes s'.passed ∨ ∃ t rest, s'.rest = t :: rest ∧ resumesAt t) := by
  obtain ⟨passed, rest, depth⟩ := s
  induction rest generalizing passed with
  | nil =>
    have hc : closes passed := h.resolve_right (by simp)
    exact ⟨[], _, by simp [synchronize, skip, hc, Except.map], .refl _, fun _ => rfl, by simp,
      .inl hc⟩
  | cons t ts ih =>
    by_cases hstop : closes passed || resumesAt t
    · refine ⟨[], _, by simp only [synchronize, skip, hstop, if_true, Except.map], .refl _,
        fun _ => rfl, by simp, ?_⟩
      exact (Bool.or_eq_true _ _ ▸ hstop).imp_right fun hr => ⟨t, ts, rfl, hr⟩
    · obtain ⟨hc, hr⟩ : closes passed = false ∧ resumesAt t = false := by simpa using hstop
      have he : t.isEnd = false := (Bool.or_eq_false_iff.1 hr).1
      obtain ⟨us, s', hrun, hp, hnil, hlast, hend⟩ := ih (t :: passed) (by
        obtain ⟨u, hu, hs⟩ := h.resolve_left (by simp [hc])
        rcases List.mem_cons.1 hu with rfl | hu
        · exact .inl (hs.resolve_left (by simp [he]))
        · exact .inr ⟨u, hu, hs⟩)
      refine ⟨t :: us, s', ?_, (Passes.one he).trans hp, fun h => ?_, ?_, hend⟩
      · simpa only [synchronize, skip, if_neg hstop] using hrun
      · simp [hc] at h
      · cases us with
        | nil => simp
        | cons u us =>
          have ht : t.isSemicolon = false := by
            rw [← Bool.not_eq_true]
            intro ht
            cases hnil ht
          intro v hv
          rcases List.mem_cons.1 hv with rfl | hv
          · exact ht
          · exact hlast v hv

/-- Going on after a rule that has read something is skipping. -/
theorem recover_eq {start failed : TokenStream} (h : failed.rest.length < start.rest.length) :
    recover start failed = failed.synchronize := by
  unfold recover synchronize
  cases e : skip failed.passed failed.rest with
  | error f => rfl
  | ok r =>
    have hle : r.2.length ≤ failed.rest.length := skip_shrinks e
    simp [Except.map, Nat.lt_of_le_of_lt hle h]

/-! ## What a round does -/

section

variable {limit : Int} {s : TokenStream} {t : PlacedToken} {rest : List PlacedToken}

/-- Every round reads something and leaves the stream where the next one starts. -/
theorem exists_round (limit : Int) (hs : s.Ready) (hr : s.rest = t :: rest)
    (ht : t.isEnd = false) : ∃ item ts s', round limit s = .ok (item, s') ∧ s.Passes ts s' ∧
      ts ≠ [] ∧ ∀ st, item = .statement st → StmtDerives limit.toNat st ts := by
  have hrule := Grammar.ensures_topDeclaration limit hs
  cases e : (Grammar.topDeclaration limit).run s with
  | done st s' =>
    obtain ⟨ts, hp, hd⟩ := hrule.done e
    refine ⟨.statement st, ts, s', by rw [round, e], hp, ?_, ?_⟩
    · obtain ⟨us, stop, rfl, -⟩ := hd.eq_concat
      simp
    · rintro _ ⟨⟩
      exact hd
  | failed why f =>
    obtain ⟨ts, hp, hb⟩ := hrule.failed e
    obtain ⟨d, rfl, -⟩ := hb.reports
    obtain ⟨us, s', hsync, hp', -⟩ := exists_synchronize (hs.bounded_of_passes hp hb.semicolon)
    have hround : round limit s = .ok (.rejected d,
        if s'.rest.length < s.rest.length then s' else s'.stepOver) := by
      rw [round, e]
      simp only [recover, hsync, Except.map]
    have hall := hp.trans hp'
    have hlen := hall.length_rest
    rcases List.eq_nil_or_concat (ts ++ us) with hnil | ⟨vs, v, hvs⟩
    · rw [hnil] at hall hlen
      rw [if_neg (by simp at hlen; omega), hall.eq_of_nil] at hround
      refine ⟨_, [t], _, hround, ?_, by simp, fun st h => by cases h⟩
      obtain ⟨passed, _, depth⟩ := s
      cases hr
      exact .one ht
    · have hpos : 0 < (ts ++ us).length := by simp [hvs]
      rw [if_pos (by omega)] at hround
      exact ⟨_, _, _, hround, hall, List.ne_nil_of_length_pos hpos, fun st h => by cases h⟩

/-- What a round does that gives a report, where there is room for a level. -/
theorem passes_of_rejected (hlimit : 1 ≤ limit) (hs : s.Ready) (hr : s.rest = t :: rest)
    (ht : t.isEnd = false) {d : Diagnostic} {s' : TokenStream}
    (h : round limit s = .ok (.rejected d, s')) :
    ∃ us last, s.Passes (us ++ [last]) s' ∧ (∀ u ∈ us, u.isSemicolon = false) ∧
      (last.isSemicolon ∨ ∃ u rest, s'.rest = u :: rest ∧ resumesAt u) ∧
      ((∃ u ∈ us ++ [last], d.span = u.span) ∨
        ∃ u rest, s'.rest = u :: rest ∧ u.isEnd ∧ d.span = u.span) := by
  cases e : (Grammar.topDeclaration limit).run s with
  | done st s'' => simp [round, e] at h
  | failed why f =>
  obtain ⟨ts, hp, hb⟩ := (Grammar.ensures_topDeclaration limit hs).failed e
  obtain ⟨d', rfl, hpoints⟩ := hb.reports
  have hne : ts ≠ [] := (Grammar.selfContained_topDeclaration hlimit).opens.ne_nil hr ht (by
    rwa [e])
  obtain ⟨us, s'', hsync, hp', hnil, hlast, hend⟩ :=
    exists_synchronize (hs.bounded_of_passes hp hb.semicolon)
  obtain ⟨vs, v, rfl⟩ := (List.eq_nil_or_concat' ts).resolve_left hne
  have hhead : f.passed = v :: (vs.reverse ++ s.passed) := by simp [hp.passed]
  have hlen := hp.length_rest
  rw [List.length_append, List.length_singleton] at hlen
  have hrecover : recover s f = f.synchronize := recover_eq (by omega)
  obtain ⟨rfl, rfl⟩ : d' = d ∧ s'' = s' := by
    simpa [round, e, hrecover, hsync, Except.map] using h
  have hvs : ∀ x ∈ vs, x.isSemicolon = false := by simpa using hb.semicolon
  have hspan : (∃ x ∈ vs ++ [v], d'.span = x.span) ∨
      ∃ x xs, f.rest = x :: xs ∧ x.isEnd ∧ d'.span = x.span := by
    rcases hpoints with hx | hd | hx
    · exact .inl hx
    · exact .inl ⟨v, by simp, by rw [hd, previousSpan, hhead]; rfl⟩
    · exact .inr hx
  -- The last token of the range is the last one skipped, or else the last one that the rule read.
  rcases List.eq_nil_or_concat' us with rfl | ⟨ws, w, rfl⟩
  · rw [hp'.eq_of_nil] at hend ⊢
    exact ⟨vs, v, hp, hvs, by rwa [hhead, closes_cons] at hend, hspan⟩
  · have hv : v.isSemicolon = false := by
      rw [← Bool.not_eq_true]
      intro hv
      simpa using hnil (by rwa [hhead, closes_cons])
    refine ⟨vs ++ [v] ++ ws, w, by simpa using hp.trans hp', ?_, ?_, ?_⟩
    · simp only [List.mem_append, List.mem_singleton]
      rintro x ((hx | rfl) | hx)
      · exact hvs x hx
      · exact hv
      · exact hlast x (by simpa using hx)
    · simpa [hp'.passed, closes_cons] using hend
    · rcases hspan with ⟨x, hx, hd⟩ | ⟨x, xs, hx, hxe, -⟩
      · exact .inl ⟨x, by simp only [List.mem_append] at hx ⊢; tauto, hd⟩
      · exact absurd (hp'.eq_nil_of_isEnd hx hxe) (by simp)

end

end TokenStream

/-! ## Ranges -/

/-- The token is a word that starts a statement. -/
def PlacedToken.startsStatement (t : PlacedToken) : Bool :=
  Mark.statementStarts.any (fun m => t.kind == .mark m)

/-- The items of a program and the ranges of tokens that they account for, up to the end mark
`stop`.

The range of a statement is its yield and holds one semicolon, the last token. The range of a report
may hold one as its last token. It ends behind a semicolon, before a word that starts a statement,
or before the end mark, and it holds the token that the report points to, unless it is the last
range and the report points to the end mark. -/
inductive Ranges (stop : PlacedToken) : List Item → List (List PlacedToken) → Prop where
  | nil : Ranges stop [] []
  | statement {st : Stmt} {us : List PlacedToken} {last : PlacedToken} {items : List Item}
      {ranges : List (List PlacedToken)} :
    (us ++ [last]).map PlacedToken.token = st.yield → last.isSemicolon →
    (∀ u ∈ us, u.isSemicolon = false) → Ranges stop items ranges →
    Ranges stop (.statement st :: items) ((us ++ [last]) :: ranges)
  | rejected {d : Diagnostic} {us : List PlacedToken} {last : PlacedToken} {items : List Item}
      {ranges : List (List PlacedToken)} :
    (∀ u ∈ us, u.isSemicolon = false) →
    (last.isSemicolon ∨ (∃ t ∈ ranges.flatten.head?, t.startsStatement) ∨ ranges = []) →
    ((∃ t ∈ us ++ [last], d.span = t.span) ∨ (ranges = [] ∧ d.span = stop.span)) →
    Ranges stop items ranges → Ranges stop (.rejected d :: items) ((us ++ [last]) :: ranges)

namespace Ranges

variable {stop : PlacedToken} {items : List Item} {ranges : List (List PlacedToken)}

/-- No range is empty. -/
theorem flatten_eq_nil (h : Ranges stop items ranges) : ranges.flatten = [] ↔ ranges = [] := by
  cases h <;> simp

/-- Every statement has a semicolon of its own. -/
theorem statements_le (h : Ranges stop items ranges) :
    (items.filterMap Item.statement?).length ≤ ranges.flatten.countP PlacedToken.isSemicolon := by
  induction h with
  | nil => simp
  | statement _ hlast _ _ ih =>
    simp only [List.filterMap_cons, Item.statement?, List.length_cons, List.flatten_cons,
      List.countP_append, List.countP_singleton, hlast, if_true]
    omega
  | rejected _ _ _ _ ih =>
    simp only [List.filterMap_cons, Item.statement?, List.flatten_cons, List.countP_append]
    omega

/-- No item accounts for two semicolons. -/
theorem semicolons_le (h : Ranges stop items ranges) :
    ranges.flatten.countP PlacedToken.isSemicolon ≤ items.length := by
  induction h with
  | nil => simp
  | statement _ _ hus _ ih | rejected hus _ _ _ ih =>
    have hnone := List.countP_eq_zero.2 fun u hu => Bool.eq_false_iff.1 (hus u hu)
    simp only [List.length_cons, List.flatten_cons, List.countP_append, List.countP_singleton,
      hnone]
    split <;> omega

/-- Every item but the first follows a semicolon or starts with a word of its own; the first one may
do so, too. -/
theorem length_le (h : Ranges stop items ranges) :
    items.length ≤ ranges.flatten.countP PlacedToken.isSemicolon +
      ranges.flatten.countP PlacedToken.startsStatement + 1 ∧
    ((∃ t ∈ ranges.flatten.head?, t.startsStatement) →
      items.length ≤ ranges.flatten.countP PlacedToken.isSemicolon +
        ranges.flatten.countP PlacedToken.startsStatement) := by
  have first (us : List PlacedToken) (last : PlacedToken) (ranges : List (List PlacedToken))
      (h : ∃ t ∈ ((us ++ [last]) :: ranges).flatten.head?, t.startsStatement) :
      0 < (us ++ [last]).countP PlacedToken.startsStatement := by
    obtain ⟨t, ht, hs⟩ := h
    refine List.countP_pos_iff.2 ⟨t, ?_, hs⟩
    cases us <;> simp_all
  have closed (us : List PlacedToken) (last : PlacedToken) (h : last.isSemicolon) :
      0 < (us ++ [last]).countP PlacedToken.isSemicolon :=
    List.countP_pos_iff.2 ⟨last, by simp, h⟩
  induction h with
  | nil => simp
  | @statement _ us last items ranges _ hlast _ _ ih =>
    have hclosed := closed us last hlast
    simp only [List.length_cons, List.flatten_cons, List.countP_append] at *
    refine ⟨by omega, fun h => ?_⟩
    have hfirst := first us last ranges h
    omega
  | @rejected _ us last items ranges _ hend _ hr ih =>
    simp only [List.length_cons, List.flatten_cons, List.countP_append] at *
    rcases hend with hlast | hnext | rfl
    · have hclosed := closed us last hlast
      refine ⟨by omega, fun h => ?_⟩
      have hfirst := first us last ranges h
      omega
    · have hnext := ih.2 hnext
      refine ⟨by omega, fun h => ?_⟩
      have hfirst := first us last ranges h
      omega
    · cases hr
      refine ⟨by simp, fun h => ?_⟩
      have hfirst := first us last [] h
      simp only [List.length_nil]
      omega

/-- Items are statements or reports. -/
theorem length_items (items : List Item) : items.length =
    (items.filterMap Item.statement?).length + (items.filterMap Item.diagnostic?).length := by
  induction items with
  | nil => rfl
  | cons item items ih =>
    cases item <;> simp [List.filterMap_cons, Item.statement?, Item.diagnostic?, ih] <;> omega

end Ranges

/-! ## Whole programs -/

namespace TokenStream

/-- The rounds from one stream to another: the item that each gives and the tokens that it reads and
skips. -/
inductive Rounds (limit : Int) :
    TokenStream → List Item → List (List PlacedToken) → TokenStream → Prop where
  | nil (s : TokenStream) : Rounds limit s [] [] s
  | cons {s s' s'' : TokenStream} {t : PlacedToken} {rest ts : List PlacedToken} {item : Item}
      {items : List Item} {ranges : List (List PlacedToken)} :
    s.rest = t :: rest → t.isEnd = false → round limit s = .ok (item, s') → s.Passes ts s' →
    Rounds limit s' items ranges s'' → Rounds limit s (item :: items) (ts :: ranges) s''

section

variable {limit : Int} {s s' : TokenStream} {items : List Item} {ranges : List (List PlacedToken)}

theorem Rounds.passes (h : Rounds limit s items ranges s') : s.Passes ranges.flatten s' := by
  induction h with
  | nil s => exact .refl s
  | cons _ _ _ hp _ ih => exact hp.trans ih

/-- Rounds up to the end mark are all there are. -/
theorem Rounds.items_eq (h : Rounds limit s items ranges s') {stop : PlacedToken}
    {after : List PlacedToken} (hr : s'.rest = stop :: after) (hstop : stop.isEnd) :
    s.items limit = .ok (items, s') := by
  induction h with
  | nil s => exact items_of_isEnd hr hstop
  | cons hs ht hround _ _ ih =>
    rw [items_of_round hs ht hround, ih hr]
    rfl

/-- The end mark stands next only if no range follows. -/
theorem Rounds.eq_nil_of_isEnd (h : Rounds limit s items ranges s') {stop : PlacedToken}
    {after : List PlacedToken} (hranges : Ranges stop items ranges) (hr : s'.rest = stop :: after)
    {u : PlacedToken} {rest : List PlacedToken} (hu : s.rest = u :: rest) (he : u.isEnd) :
    ranges = [] ∧ u = stop := by
  have hp := h.passes
  have hflat := hp.eq_nil_of_isEnd hu he
  rw [hflat] at hp
  rw [hp.eq_of_nil, hu] at hr
  exact ⟨hranges.flatten_eq_nil.1 hflat, (List.cons.inj hr).1⟩

/-- Where reading resumes, a word that starts a statement stands next if a range follows. -/
theorem Rounds.startsStatement (h : Rounds limit s items ranges s') {stop : PlacedToken}
    {after : List PlacedToken} (hranges : Ranges stop items ranges) (hr : s'.rest = stop :: after)
    {u : PlacedToken} {rest : List PlacedToken} (hu : s.rest = u :: rest) (hres : resumesAt u) :
    (∃ t ∈ ranges.flatten.head?, t.startsStatement) ∨ ranges = [] := by
  rcases Bool.or_eq_true _ _ ▸ hres with he | hstart
  · exact .inr (h.eq_nil_of_isEnd hranges hr hu he).1
  cases hf : ranges.flatten with
  | nil => exact .inr (hranges.flatten_eq_nil.1 hf)
  | cons x xs =>
    have hx := h.passes.rest
    rw [hf, hu] at hx
    exact .inl ⟨x, by simp, (List.cons.inj hx).1 ▸ hstart⟩

/-- Every stream up to the end mark is split into ranges, one a round. -/
theorem exists_ranges {s : TokenStream} (hlimit : 1 ≤ limit) (hs : s.Closed) :
    ∃ items ranges stop after s',
      Rounds limit s items ranges s' ∧ s'.rest = stop :: after ∧ stop.isEnd ∧
      Ranges stop items ranges := by
  obtain ⟨t, rest, hr⟩ := List.exists_cons_of_ne_nil hs.ready.rest_ne_nil
  cases ht : t.isEnd with
  | true => exact ⟨[], [], t, rest, s, .nil s, hr, ht, .nil⟩
  | false =>
    obtain ⟨item, ts, s', hround, hp, hne, hst⟩ := exists_round limit hs.ready hr ht
    have hlen := hp.length_rest
    have hpos := List.length_pos_iff.2 hne
    obtain ⟨items, ranges, stop, after, s'', hrounds, hr', hstop, hranges⟩ :=
      exists_ranges hlimit (hs.passes hp)
    cases item with
    | statement st =>
      obtain ⟨us, last, rfl, hlast, hus⟩ := (hst st rfl).eq_concat
      exact ⟨_, _, stop, after, s'', .cons hr ht hround hp hrounds, hr', hstop,
        .statement (hst st rfl).map_token hlast hus hranges⟩
    | rejected d =>
      obtain ⟨us, last, hp, hus, hend, hpoints⟩ := passes_of_rejected hlimit hs.ready hr ht hround
      refine ⟨_, _, stop, after, s'', .cons hr ht hround hp hrounds, hr', hstop,
        .rejected hus ?_ ?_ hranges⟩
      · rcases hend with hlast | ⟨u, rest', hu, hres⟩
        · exact .inl hlast
        · exact .inr (hrounds.startsStatement hranges hr' hu hres)
      · refine hpoints.imp_right ?_
        rintro ⟨u, rest, hu, he, hd⟩
        obtain ⟨hnil, rfl⟩ := hrounds.eq_nil_of_isEnd hranges hr' hu he
        exact ⟨hnil, hd⟩
termination_by s.rest.length

end

end TokenStream

theorem parse_eq {tokens : List PlacedToken} {limit : Int} {items : List Item} {s' : TokenStream}
    (h : (TokenStream.ofTokens tokens).items limit = .ok (items, s')) :
    parse tokens limit = .ok (.ofItems items) := by
  rw [parse, TokenStream.program, h]
  rfl

theorem exists_items_of_parse {tokens : List PlacedToken} {limit : Int} {p : Parsed}
    (h : parse tokens limit = .ok p) :
    ∃ items s', (TokenStream.ofTokens tokens).items limit = .ok (items, s') ∧
      p = .ofItems items := by
  rw [parse, TokenStream.program] at h
  cases e : (TokenStream.ofTokens tokens).items limit with
  | error f => simp [e, Except.map] at h
  | ok r =>
    rw [e] at h
    cases h
    exact ⟨r.1, r.2, rfl, rfl⟩

/-- Tokens that are no white space are counted alike with and without white space. -/
private theorem countP_filter_whitespace {p : PlacedToken → Bool}
    (hp : ∀ t, p t → (t.kind != .whitespace) = true) (ts : List PlacedToken) :
    (ts.filter (fun t => t.kind != .whitespace)).countP p = ts.countP p := by
  rw [List.countP_filter]
  refine List.countP_congr fun t _ => ?_
  simp only [Bool.and_eq_true]
  exact ⟨fun h => h.1, fun h => ⟨h, hp t h⟩⟩

private theorem ne_whitespace_of_eq_mark {t : PlacedToken} {m : Mark} (h : t.kind = .mark m) :
    (t.kind != .whitespace) = true := by simp [h]

theorem ne_whitespace_of_isEnd {t : PlacedToken} (h : t.isEnd) : (t.kind != .whitespace) = true :=
  ne_whitespace_of_eq_mark (beq_iff_eq.1 h)

theorem closed_ofTokens {tokens : List PlacedToken} (hplaced : ∀ t ∈ tokens, t.span.isSome)
    (hend : ∃ t ∈ tokens, t.isEnd) : (TokenStream.ofTokens tokens).Closed where
  placed t ht := hplaced t (List.mem_filter.1 ht).1
  ended :=
    let ⟨t, ht, he⟩ := hend
    ⟨t, List.mem_filter.2 ⟨ht, ne_whitespace_of_isEnd he⟩, he⟩

/-- Parsing splits the tokens before the first end mark into ranges, one a round, each of which one
statement or one report accounts for. -/
theorem parse_splits_into_ranges {tokens : List PlacedToken} {limit : Int} (hlimit : 1 ≤ limit)
    (hplaced : ∀ t ∈ tokens, t.span.isSome) (hend : ∃ t ∈ tokens, t.isEnd) :
    ∃ before stop after items ranges s',
      tokens = before ++ stop :: after ∧ (∀ t ∈ before, t.isEnd = false) ∧ stop.isEnd ∧
      TokenStream.Rounds limit (.ofTokens tokens) items ranges s' ∧
      parse tokens limit = .ok (.ofItems items) ∧
      ranges.flatten = before.filter (fun t => t.kind != .whitespace) ∧
      Ranges stop items ranges ∧
      (Parsed.ofItems items).statements.length ≤ before.countP PlacedToken.isSemicolon ∧
      before.countP PlacedToken.isSemicolon ≤
        (Parsed.ofItems items).statements.length + (Parsed.ofItems items).errors.length ∧
      (Parsed.ofItems items).statements.length + (Parsed.ofItems items).errors.length ≤
        before.countP PlacedToken.isSemicolon + before.countP PlacedToken.startsStatement + 1 := by
  obtain ⟨items, ranges, stop, after, s', hrounds, hr, hstop, hranges⟩ :=
    TokenStream.exists_ranges hlimit (closed_ofTokens hplaced hend)
  have hp := hrounds.passes
  obtain ⟨before, behind, rfl, hbefore, hbehind⟩ := List.filter_eq_append_iff.1 hp.rest
  obtain ⟨blanks, after, rfl, hblanks, -, -⟩ := List.filter_eq_cons_iff.1 (hbehind.trans hr)
  have hflat : (before ++ blanks).filter (fun t => t.kind != .whitespace) = ranges.flatten := by
    rw [List.filter_append, hbefore, List.filter_eq_nil_iff.2 hblanks, List.append_nil]
  have hsemi := countP_filter_whitespace (p := PlacedToken.isSemicolon)
    (fun t h => ne_whitespace_of_eq_mark (beq_iff_eq.1 h)) (before ++ blanks)
  have hstart := countP_filter_whitespace (p := PlacedToken.startsStatement) (fun t h => by
    obtain ⟨m, -, hm⟩ := List.any_eq_true.1 h
    exact ne_whitespace_of_eq_mark (beq_iff_eq.1 hm)) (before ++ blanks)
  have hlen := Ranges.length_items items
  rw [hflat] at hsemi hstart
  refine ⟨before ++ blanks, stop, after, items, ranges, s', by simp, fun t ht => ?_, hstop, hrounds,
    parse_eq (hrounds.items_eq hr hstop), hflat.symm, hranges, hsemi ▸ hranges.statements_le,
    hsemi ▸ hlen ▸ hranges.semicolons_le, hsemi ▸ hstart ▸ hlen ▸ hranges.length_le.1⟩
  rw [← Bool.not_eq_true]
  intro he
  have hmem : t ∈ ranges.flatten :=
    hflat ▸ List.mem_filter.2 ⟨ht, ne_whitespace_of_isEnd he⟩
  rw [hp.noEnd t hmem] at he
  cases he

/-- A stray parenthesis before a semicolon is a range of its own. -/
theorem parse_splits_stray_parenthesis : ∃ before stop after items ranges,
    ([⟨.mark .rightParen, some {}⟩, ⟨.mark .semicolon, some {}⟩,
      ⟨.mark .endOfFile, some {}⟩] : List PlacedToken) = before ++ stop :: after ∧
    parse (before ++ stop :: after) 1 = .ok (.ofItems items) ∧
    ranges.flatten = before.filter (fun t => t.kind != .whitespace) ∧ Ranges stop items ranges := by
  obtain ⟨before, stop, after, items, ranges, -, htokens, -, -, -, hparse, hflat, hranges, -⟩ :=
    @parse_splits_into_ranges [⟨.mark .rightParen, some {}⟩, ⟨.mark .semicolon, some {}⟩,
      ⟨.mark .endOfFile, some {}⟩] 1 (by decide) (by decide) (by decide)
  exact ⟨before, stop, after, items, ranges, htokens, htokens ▸ hparse, hflat, hranges⟩

end Lox
