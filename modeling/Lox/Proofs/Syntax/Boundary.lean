import Lox.Proofs.Syntax.Recovery

/-!
# A semicolon separates programs

What stands before a semicolon never changes how the tokens behind it are read or reported, however
malformed either side is. A round that starts before the semicolon ends there at the latest and does
not look further ahead, and a round that starts behind it does not look back.

* `TokenStream.round_within`: a round does the same with more tokens on both sides.
* `TokenStream.Guarded`: wherever reading stops, a semicolon or the end mark lies ahead, or nothing
  does.
* `TokenStream.exists_rounds`: a guarded stream is read to its end, or to its first end mark.
* `parse_append`: parsing two lists of tokens, the first of which ends in a semicolon.
-/

namespace Lox

namespace TokenStream

variable {limit : Int} {s s' : TokenStream} {before after : List PlacedToken}

/-! ## Rounds with more tokens around -/

theorem closes_within (h : s.passed ≠ [] ∨ before = []) :
    closes (s.passed ++ before) = closes s.passed := by
  have hhead := head?_within [] h
  simp only [within] at hhead
  rw [closes, closes, hhead]

/-- Skipping does not look beyond where it stops. -/
theorem synchronize_within (after : List PlacedToken) (hb : s.passed ≠ [] ∨ before = [])
    (h : closes s.passed ∨ ∃ t ∈ s.rest, t.isEnd ∨ t.isSemicolon) :
    (s.within before after).synchronize = s.synchronize.map (·.within before after) := by
  obtain ⟨passed, rest, depth⟩ := s
  have hclose := closes_within hb
  induction rest generalizing passed with
  | nil =>
    have hc : closes passed := h.resolve_right (by simp)
    cases after <;> simp_all [synchronize, skip, within, Except.map]
  | cons t ts ih =>
    simp only [synchronize, within, List.cons_append, skip] at hclose ⊢
    rw [hclose]
    by_cases hstop : closes passed || resumesAt t
    · simp only [hstop, if_true]
      rfl
    · have hne : closes passed = false ∧ t.isEnd = false := by
        simp only [Bool.or_eq_true, resumesAt, not_or, Bool.not_eq_true] at hstop
        exact ⟨hstop.1, hstop.2.1⟩
      simp only [hstop]
      refine ih (t :: passed) (.inl (by simp)) ?_ rfl
      obtain ⟨u, hu, hs⟩ := h.resolve_left (by simp [hne])
      rcases List.mem_cons.1 hu with rfl | hu
      · exact .inl (hs.resolve_left (by simp [hne]))
      · exact .inr ⟨u, hu, hs⟩

/-- A round does the same with more tokens before and behind. -/
theorem round_within (hlimit : 1 ≤ limit) (hs : s.Ready) {t : PlacedToken}
    {rest : List PlacedToken} (hr : s.rest = t :: rest) (ht : t.isEnd = false)
    (before after : List PlacedToken) : round limit (s.within before after) =
      (round limit s).map fun (item, s') => (item, s'.within before after) := by
  have hself := Grammar.selfContained_topDeclaration hlimit
  have hrule := Grammar.ensures_topDeclaration limit hs
  have hfed : ¬ ((Grammar.topDeclaration limit).run s).Starved := by
    rintro ⟨f, hf⟩
    obtain ⟨_, _, hb⟩ := hrule.failed hf
    obtain ⟨d, hd, -⟩ := hb.reports
    cases hd
  have hrun : (Grammar.topDeclaration limit).run (s.within before after) = _ :=
    hself.run_within hr ht fun _ => hfed
  rw [round, hrun, round]
  cases e : (Grammar.topDeclaration limit).run s with
  | done st s' => rfl
  | failed why f =>
    obtain ⟨ts, hp, hb⟩ := hrule.failed e
    obtain ⟨d, rfl, -⟩ := hb.reports
    have hne : ts ≠ [] := hself.opens.ne_nil hr ht (by rwa [e])
    have hlen := hp.length_rest
    have hpos := List.length_pos_iff.2 hne
    have hrec : recover s f = f.synchronize := recover_eq (by omega)
    have hrec' : recover (s.within before after) (f.within before after) =
        (f.within before after).synchronize :=
      recover_eq (by simp only [within, List.length_append]; omega)
    have hpassed : f.passed ≠ [] := by simp [hp.passed, hne]
    have hsync : (f.within before after).synchronize = _ :=
      synchronize_within after (.inl hpassed) (hs.bounded_of_passes hp hb.semicolon)
    simp only [Outcome.mapStream, hrec, hrec', hsync]
    cases f.synchronize <;> rfl

/-! ## Rounds up to a semicolon -/

/-- Wherever reading stops with tokens left, a semicolon or the end mark lies ahead. -/
def Guarded (s : TokenStream) : Prop := ∀ ts s', s.Passes ts s' → s'.rest ≠ [] → s'.Ready

theorem Guarded.passes {ts : List PlacedToken} (h : s.Guarded) (hp : s.Passes ts s') : s'.Guarded :=
  fun us s'' hp' hne => h (ts ++ us) s'' (hp.trans hp') hne

theorem Closed.guarded (h : s.Closed) : s.Guarded := fun _ _ hp _ => (h.passes hp).ready

/-- A list that ends in a semicolon is guarded. -/
theorem guarded_of_getLast {ts : List PlacedToken} {passed : List PlacedToken} {depth : Nat}
    (hplaced : ∀ t ∈ ts, t.span.isSome) (hlast : ∃ t ∈ ts.getLast?, t.isSemicolon) :
    Guarded ⟨passed, ts, depth⟩ := by
  intro us s' hp hne
  obtain ⟨t, ht, hsemi⟩ := hlast
  have hrest : ts = us ++ s'.rest := hp.rest
  refine ⟨fun u hu => hplaced u (hrest ▸ List.mem_append_right _ hu), t, ?_, .inr hsemi⟩
  rw [hrest, List.getLast?_append_of_ne_nil _ hne] at ht
  exact List.mem_of_getLast? ht

/-- A guarded stream is read to its end, or to its first end mark. -/
theorem exists_rounds (limit : Int) {s : TokenStream} (hs : s.Guarded) :
    ∃ items ranges s', Rounds limit s items ranges s' ∧ ∀ t ∈ s'.rest.head?, t.isEnd := by
  cases hr : s.rest with
  | nil => exact ⟨[], [], s, .nil s, by simp [hr]⟩
  | cons t rest =>
    cases ht : t.isEnd with
    | true => exact ⟨[], [], s, .nil s, by simp [hr, ht]⟩
    | false =>
      obtain ⟨item, ts, s', hround, hp, hne, -⟩ :=
        exists_round limit (hs [] s (.refl s) (by simp [hr])) hr ht
      have hlen := hp.length_rest
      have hpos := List.length_pos_iff.2 hne
      obtain ⟨items, ranges, s'', hrounds, hend⟩ := exists_rounds limit (hs.passes hp)
      exact ⟨item :: items, ts :: ranges, s'', .cons hr ht hround hp hrounds, hend⟩
termination_by s.rest.length

theorem Passes.within {ts : List PlacedToken} (h : s.Passes ts s')
    (before after : List PlacedToken) :
    (s.within before after).Passes ts (s'.within before after) :=
  ⟨by simp [TokenStream.within, h.rest], by simp [TokenStream.within, h.passed], h.depth, h.noEnd⟩

variable {items items' : List Item} {ranges ranges' : List (List PlacedToken)}

/-- The rounds of a guarded stream are the same with more tokens around. -/
theorem Rounds.within (hlimit : 1 ≤ limit) (h : Rounds limit s items ranges s') (hs : s.Guarded)
    (before after : List PlacedToken) :
    Rounds limit (s.within before after) items ranges (s'.within before after) := by
  induction h with
  | nil s => exact .nil _
  | @cons s s₁ s' t rest ts item items ranges hr ht hround hp _ ih =>
    have hready := hs [] s (.refl s) (by simp [hr])
    have hrest : (s.within before after).rest = t :: (rest ++ after) := by
      simp [TokenStream.within, hr]
    refine .cons hrest ht ?_ (hp.within before after) (ih (hs.passes hp))
    rw [round_within hlimit hready hr ht, hround]
    rfl

theorem Rounds.trans {s'' : TokenStream} (h : Rounds limit s items ranges s')
    (h' : Rounds limit s' items' ranges' s'') :
    Rounds limit s (items ++ items') (ranges ++ ranges') s'' := by
  induction h with
  | nil => exact h'
  | cons hr ht hround hp _ ih => exact .cons hr ht hround hp (ih h')

end TokenStream

/-! ## Programs on both sides of a semicolon -/

/-- The stream of a list of tokens with the end mark behind. -/
private theorem ofTokens_concat (ts us : List PlacedToken) {stop : PlacedToken} (h : stop.isEnd) :
    TokenStream.ofTokens (ts ++ us ++ [stop]) =
      TokenStream.within ⟨[], ts.filter (fun t => t.kind != .whitespace), 0⟩ []
        (us.filter (fun t => t.kind != .whitespace) ++ [stop]) := by
  simp [TokenStream.ofTokens, TokenStream.within, ne_whitespace_of_isEnd h]

/-- A list that ends in a semicolon and holds no end mark is read to its end. -/
private theorem exists_rounds_of_getLast (limit : Int) {ts : List PlacedToken}
    (hts : ∀ t ∈ ts, t.isEnd = false) (hplaced : ∀ t ∈ ts, t.span.isSome)
    (hlast : ∃ t ∈ ts.getLast?, t.isSemicolon) :
    ∃ items ranges passed, TokenStream.Rounds limit ⟨[], ts, 0⟩ items ranges ⟨passed, [], 0⟩ := by
  obtain ⟨items, ranges, s, hrounds, hend⟩ :=
    TokenStream.exists_rounds limit (TokenStream.guarded_of_getLast hplaced hlast)
  have hp := hrounds.passes
  have hrest : s.rest = [] := by
    refine List.eq_nil_iff_forall_not_mem.2 fun t ht => ?_
    obtain ⟨u, rest, hr⟩ := List.exists_cons_of_ne_nil (List.ne_nil_of_mem ht)
    have hu : u.isEnd := hend u (by simp [hr])
    have hall : ts = ranges.flatten ++ s.rest := hp.rest
    rw [hts u (by simp [hall, hr])] at hu
    cases hu
  obtain ⟨passed, rest, depth⟩ := s
  obtain rfl : depth = 0 := hp.depth
  subst hrest
  exact ⟨items, ranges, passed, hrounds⟩

/-- Behind a semicolon everything is read and reported as if nothing stood before it. -/
theorem parse_append {limit : Int} (hlimit : 1 ≤ limit) {ts us : List PlacedToken}
    {stop : PlacedToken} (hstop : stop.isEnd) (hts : ∀ t ∈ ts, t.isEnd = false)
    (hlast : ∃ t ∈ (ts.filter (fun t => t.kind != .whitespace)).getLast?, t.isSemicolon)
    (hplaced : ∀ t ∈ ts ++ us ++ [stop], t.span.isSome) :
    ∃ p q, parse (ts ++ [stop]) limit = .ok p ∧ parse (us ++ [stop]) limit = .ok q ∧
      parse (ts ++ us ++ [stop]) limit =
        .ok ⟨p.statements ++ q.statements, p.errors ++ q.errors⟩ := by
  have hplaced₁ : ∀ t ∈ ts.filter (fun t => t.kind != .whitespace), t.span.isSome :=
    fun t ht => hplaced t (by simp [(List.mem_filter.1 ht).1])
  have hguard := @TokenStream.guarded_of_getLast _ [] 0 hplaced₁ hlast
  obtain ⟨items, ranges, passed, hrounds⟩ := exists_rounds_of_getLast limit
    (fun t ht => hts t (List.mem_filter.1 ht).1) hplaced₁ hlast
  have hclosed : (TokenStream.ofTokens (us ++ [stop])).Closed :=
    closed_ofTokens (fun t ht => hplaced t (by rw [List.append_assoc]; simp [ht]))
      ⟨stop, by simp, hstop⟩
  obtain ⟨items', ranges', s', hrounds', hend'⟩ := TokenStream.exists_rounds limit hclosed.guarded
  obtain ⟨stop', after, hr'⟩ := List.exists_cons_of_ne_nil
    (hclosed.passes hrounds'.passes).ready.rest_ne_nil
  have hstop' : stop'.isEnd := hend' stop' (by simp [hr'])
  refine ⟨.ofItems items, .ofItems items', ?_, parse_eq (hrounds'.items_eq hr' hstop'), ?_⟩
  · have hstream := ofTokens_concat ts [] hstop
    rw [List.append_nil] at hstream
    have hall := hstream ▸ hrounds.within hlimit hguard [] [stop]
    exact parse_eq (hall.items_eq rfl hstop)
  · have hback : (TokenStream.ofTokens (us ++ [stop])).within passed [] =
        TokenStream.within ⟨passed, [], 0⟩ []
          (us.filter (fun t => t.kind != .whitespace) ++ [stop]) := by
      simp [TokenStream.ofTokens, TokenStream.within, ne_whitespace_of_isEnd hstop]
    have hfirst := hrounds.within hlimit hguard []
      (us.filter (fun t => t.kind != .whitespace) ++ [stop])
    have hsecond := hrounds'.within hlimit hclosed.guarded passed []
    rw [hback] at hsecond
    have hall := ofTokens_concat ts us hstop ▸ hfirst.trans hsecond
    have hrest : (s'.within passed []).rest = stop' :: after := by simp [TokenStream.within, hr']
    rw [parse_eq (hall.items_eq hrest hstop')]
    simp [Parsed.ofItems]

/-- A stray parenthesis and its semicolon, and an empty statement behind them. -/
theorem parse_append_stray_parenthesis : ∃ p q,
    parse [⟨.mark .rightParen, some {}⟩, ⟨.mark .semicolon, some {}⟩,
      ⟨.mark .endOfFile, some {}⟩] 48 = .ok p ∧
    parse [⟨.mark .semicolon, some {}⟩, ⟨.mark .endOfFile, some {}⟩] 48 = .ok q ∧
    parse [⟨.mark .rightParen, some {}⟩, ⟨.mark .semicolon, some {}⟩,
      ⟨.mark .semicolon, some {}⟩, ⟨.mark .endOfFile, some {}⟩] 48 =
      .ok ⟨p.statements ++ q.statements, p.errors ++ q.errors⟩ :=
  @parse_append 48 (by decide)
    [⟨.mark .rightParen, some {}⟩, ⟨.mark .semicolon, some {}⟩]
    [⟨.mark .semicolon, some {}⟩] ⟨.mark .endOfFile, some {}⟩
    (by decide) (by decide) ⟨⟨.mark .semicolon, some {}⟩, by decide, by decide⟩ (by decide)

end Lox
