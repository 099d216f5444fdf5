import Lox.Proofs.Syntax.Nesting

/-!
# Reading goes on to the first end mark

The reading position moves on and never back, and no further than the first end mark, in every rule
and wherever reading recovers from a failure. So a list of tokens with an end mark is read up to the
first one, and what stands behind it is never looked at. A list without one is read until a token is
missing, and nothing else can break.

* `TokenStream.Onward`: reading leads from one stream to another.
* `Rule.Forward`: whatever a rule goes through lies between where it starts and where it stops, with
  one lemma for each way to build a rule.
* `Rule.forward`: so this holds of the rules of the grammar.
* `TokenStream.Reaches.onward`: this, for whole programs.
* `TokenStream.items_of_noEnd`: what happens without an end mark.
* `program_of_end`, `parse_of_behind`: what happens up to the first one, and behind it.
* `parse_stops_at_first_end`: all of this, for a list of tokens.
-/

namespace Lox

namespace TokenStream

variable {s v w : TokenStream}

/-- Reading leads from the first stream to the second one, over some tokens or none, and over no end
mark. How many levels are open does not matter. -/
def Onward (s v : TokenStream) : Prop := ∃ ts, s.Passes ts { v with depth := s.depth }

theorem Onward.refl (s : TokenStream) : s.Onward s := ⟨[], .refl s⟩

theorem Passes.onward {ts : List PlacedToken} (h : s.Passes ts v) : s.Onward v :=
  ⟨ts, h.withDepth s.depth⟩

theorem Onward.trans (h : s.Onward v) (h' : v.Onward w) : s.Onward w := by
  obtain ⟨ts, h⟩ := h
  obtain ⟨us, h'⟩ := h'
  exact ⟨ts ++ us, h.trans (h'.withDepth s.depth)⟩

@[simp] theorem onward_withDepth {d : Nat} : s.Onward { v with depth := d } ↔ s.Onward v := Iff.rfl

@[simp] theorem withDepth_onward {d : Nat} : Onward { s with depth := d } v ↔ s.Onward v :=
  ⟨fun ⟨ts, h⟩ => ⟨ts, h.withDepth s.depth⟩, fun ⟨ts, h⟩ => ⟨ts, h.withDepth d⟩⟩

/-- The position does not decrease. -/
theorem Onward.index_le (h : s.Onward v) : s.index ≤ v.index := by
  obtain ⟨ts, h⟩ := h
  have passed : v.passed = ts.reverse ++ s.passed := h.passed
  simp [index, passed]

/-- What is left was left before. -/
theorem Onward.rest_subset (h : s.Onward v) : v.rest ⊆ s.rest := by
  obtain ⟨ts, h⟩ := h
  rw [h.rest]
  exact List.subset_append_right ts v.rest

end TokenStream

/-! ## Rules -/

namespace Rule

variable {α β : Type} {r : Rule α} {f : α → Rule β}

/-- Whatever the rule goes through lies between where it starts and where it stops. -/
structure Forward (r : Rule α) : Prop where
  stops : ∀ s : TokenStream, s.Onward (r.run s).stream
  between : ∀ s v : TokenStream, r.Visits s v → s.Onward v ∧ v.Onward (r.run s).stream

/-- A rule that reads nothing goes nowhere. -/
theorem forward_of_still (stops : ∀ s, (r.run s).stream = s) (still : ∀ s v, ¬ r.Visits s v) :
    r.Forward :=
  ⟨fun s => (stops s).symm ▸ .refl s, fun s v h => absurd h (still s v)⟩

theorem forward_pure (a : α) : (pure a : Rule α).Forward :=
  forward_of_still (fun _ => rfl) fun _ _ => id

theorem forward_fail (why : Failure) : (fail why : Rule α).Forward :=
  forward_of_still (fun _ => rfl) fun _ _ => id

theorem forward_stream : stream.Forward := forward_of_still (fun _ => rfl) fun _ _ => id

theorem forward_head : head.Forward := by
  refine forward_of_still ?_ fun _ _ => id
  rintro ⟨passed, _ | ⟨t, ts⟩, depth⟩ <;> rfl

theorem Forward.bind (hr : r.Forward) (hf : ∀ a, (f a).Forward) : (r >>= f).Forward := by
  have second (s : TokenStream) : (r.run s).stream.Onward ((r >>= f).run s).stream := by
    rw [run_bind]
    cases r.run s with
    | done a s' => exact (hf a).stops s'
    | failed why s' => exact .refl s'
  refine ⟨fun s => (hr.stops s).trans (second s), fun s v h => ?_⟩
  obtain h | ⟨a, s', e, h⟩ := visits_bind.mp h
  · obtain ⟨start, stop⟩ := hr.between s v h
    exact ⟨start, stop.trans (second s)⟩
  · have first := hr.stops s
    obtain ⟨start, stop⟩ := (hf a).between s' v h
    rw [e] at first
    rw [run_bind, e]
    exact ⟨first.trans start, stop⟩

theorem forward_advance : advance.Forward where
  stops := by
    rintro ⟨passed, _ | ⟨t, ts⟩, depth⟩
    · exact .refl _
    · cases ht : t.isEnd with
      | true =>
        rw [run_advance_end ht]
        exact .refl _
      | false =>
        rw [run_advance ht]
        exact (TokenStream.Passes.one ht).onward
  between := by
    rintro ⟨passed, rest, depth⟩ _ ⟨t, ts, rfl, ht, rfl⟩
    rw [run_advance ht]
    exact ⟨(TokenStream.Passes.one ht).onward, .refl _⟩

theorem stream_mapStream (o : Outcome α) (g : TokenStream → TokenStream) :
    (o.mapStream g).stream = g o.stream := by cases o <;> rfl

/-- Opening and closing a level is no reading. -/
theorem Forward.nested (h : r.Forward) : (nested r).Forward where
  stops s := by
    have inside := h.stops { s with depth := s.depth + 1 }
    simpa [Rule.nested, stream_mapStream] using inside
  between s v hv := by
    have inside := h.stops { s with depth := s.depth + 1 }
    simp only [Rule.nested, stream_mapStream, TokenStream.onward_withDepth]
    obtain rfl | hv | rfl := hv
    · exact ⟨.refl s, inside⟩
    · obtain ⟨start, stop⟩ := h.between _ v hv
      exact ⟨TokenStream.withDepth_onward.mp start, stop⟩
    · rw [TokenStream.withDepth_onward, TokenStream.onward_withDepth]
      exact ⟨TokenStream.withDepth_onward.mp inside, .refl _⟩

theorem forward_chain {operators : List Mark} {extend : Expr → Mark → Rule Expr}
    (hend : .endOfFile ∉ operators) (h : ∀ e m, (extend e m).Forward) (left : Expr) :
    (chain operators extend left).Forward := by
  have operator {s : TokenStream} {t : PlacedToken} {ts : List PlacedToken} {m : Mark}
      (hs : s.rest = t :: ts) (hm : markIn operators t.token = some m) :
      s.Onward { s with passed := t :: s.passed, rest := ts } := by
    obtain ⟨ht, hm⟩ := markIn_eq_some.mp hm
    obtain ⟨passed, _, depth⟩ := s
    cases hs
    exact (TokenStream.Passes.one (PlacedToken.isEnd_of_ne ht fun he => hend (he ▸ hm))).onward
  have stops (left : Expr) (s : TokenStream) :
      s.Onward (chainFrom operators extend left s).stream := by
    induction left, s using chainFrom.induct operators extend with
    | case1 left s hs =>
      simp only [chainFrom_eq, hs]
      exact .refl s
    | case2 left s t ts hs hm =>
      simp only [chainFrom_eq, hs, hm]
      exact .refl s
    | case3 left s t ts hs m hm why s' e =>
      have round := (h left m).stops { s with passed := t :: s.passed, rest := ts }
      simp only [chainFrom_eq, hs, hm, e]
      rw [e] at round
      exact (operator hs hm).trans round
    | case4 left s t ts hs m hm longer s' e ih =>
      have round := (h left m).stops { s with passed := t :: s.passed, rest := ts }
      rw [chainFrom_eq]
      simp only [hs, hm, e]
      rw [e] at round
      exact ((operator hs hm).trans round).trans ih
  -- What follows the round that the operator starts.
  have behind {left : Expr} {s : TokenStream} {t : PlacedToken} {ts : List PlacedToken} {m : Mark}
      (hs : s.rest = t :: ts) (hm : markIn operators t.token = some m) :
      ((extend left m).run { s with passed := t :: s.passed, rest := ts }).stream.Onward
        (chainFrom operators extend left s).stream := by
    rw [chainFrom_eq]
    simp only [hs, hm]
    cases (extend left m).run { s with passed := t :: s.passed, rest := ts } with
    | done longer s' => exact stops longer s'
    | failed why s' => exact .refl s'
  refine ⟨stops left, fun s v hv => ?_⟩
  change _ ∧ v.Onward (chainFrom operators extend left s).stream
  induction hv with
  | operator hs hm => exact ⟨operator hs hm, ((h _ _).stops _).trans (behind hs hm)⟩
  | round hs hm hv =>
    obtain ⟨start, stop⟩ := (h _ _).between _ _ hv
    exact ⟨(operator hs hm).trans start, stop.trans (behind hs hm)⟩
  | @later left longer s s' v t ts m hs hm e _ ih =>
    have round := (h left m).stops { s with passed := t :: s.passed, rest := ts }
    rw [e] at round
    rw [chainFrom_eq]
    simp only [hs, hm, e]
    exact ⟨((operator hs hm).trans round).trans ih.1, ih.2⟩

/-- So the rules of the grammar go on and never back. -/
theorem forward (limit : Int) : Hereditary limit fun _ _ r => r.Forward where
  pure := forward_pure
  fail _ := forward_fail _
  stream := forward_stream
  head := forward_head
  advance := forward_advance
  bind := Forward.bind
  nested := Forward.nested
  chain left hend h := forward_chain hend h left

end Rule

/-! ## Whole programs -/

namespace TokenStream

variable {limit : Int} {s s' v : TokenStream}

theorem onward_of_skip {passed passed' rest rest' : List PlacedToken}
    (h : skip passed rest = .ok (passed', rest')) (depth : Nat) :
    Onward ⟨passed, rest, depth⟩ ⟨passed', rest', depth⟩ := by
  induction rest generalizing passed with
  | nil =>
    rw [skip] at h
    split at h
    · cases h
      exact .refl _
    · cases h
  | cons t ts ih =>
    rw [skip] at h
    split at h
    · cases h
      exact .refl _
    · rename_i go
      have ht : t.isEnd = false := by
        cases ht : t.isEnd
        · rfl
        · simp [resumesAt, ht] at go
      exact (Passes.one ht).onward.trans (ih h)

/-- Recovery steps over a token only where nothing was read, and that token is no end mark. -/
theorem onward_of_recover {failed : TokenStream} {t : PlacedToken} {rest : List PlacedToken}
    (hr : s.rest = t :: rest) (ht : t.isEnd = false) (hs : s.Onward failed)
    (h : recover s failed = .ok s') : failed.Onward s' := by
  unfold recover synchronize at h
  cases e : skip failed.passed failed.rest with
  | error f => simp [e, Except.map] at h
  | ok r =>
    obtain ⟨passed, left⟩ := r
    rw [e] at h
    simp only [Except.map, Except.ok.injEq] at h
    have skipped : failed.Onward { failed with passed, rest := left } :=
      onward_of_skip e failed.depth
    split at h
    · exact h ▸ skipped
    · rename_i stuck
      obtain ⟨ts, hp⟩ := hs.trans skipped
      have hlen : s.rest.length = ts.length + left.length := hp.length_rest
      obtain rfl : ts = [] := List.eq_nil_of_length_eq_zero (by omega)
      obtain rfl : t :: rest = left := hr.symm.trans hp.rest
      exact h ▸ skipped.trans (Passes.one ht).onward

/-- A round stops where its declaration stopped, or further on. -/
theorem onward_of_round {t : PlacedToken} {rest : List PlacedToken} {item : Item}
    (hr : s.rest = t :: rest) (ht : t.isEnd = false) (h : round limit s = .ok (item, s')) :
    ((Grammar.topDeclaration limit).run s).stream.Onward s' := by
  have stops := (Rule.forward limit).topDeclaration.stops s
  obtain ⟨st, -, e⟩ | ⟨d, failed, -, e, hrec⟩ := exists_of_round h
  · rw [e]
    exact .refl s'
  · rw [e] at stops ⊢
    exact onward_of_recover hr ht stops hrec

/-- Rounds up to the end mark start with a round, unless they start there. -/
theorem Rounds.exists_first {items : List Item} {ranges : List (List PlacedToken)} {e : TokenStream}
    (h : Rounds limit s items ranges e) (hend : ∀ t ∈ e.rest.head?, t.isEnd) {t : PlacedToken}
    {rest : List PlacedToken} (hr : s.rest = t :: rest) (ht : t.isEnd = false) :
    ∃ item s' items' ranges', round limit s = .ok (item, s') ∧
      Rounds limit s' items' ranges' e := by
  cases h with
  | nil =>
    rw [hend t (by simp [hr])] at ht
    cases ht
  | cons _ _ hround _ later => exact ⟨_, _, _, _, hround, later⟩

/-- Whatever parsing goes through lies between where it starts and the stream that is left. -/
theorem Reaches.onward (h : Reaches limit s v) {items : List Item}
    {ranges : List (List PlacedToken)} {e : TokenStream} (hrounds : Rounds limit s items ranges e)
    (hend : ∀ t ∈ e.rest.head?, t.isEnd) : s.Onward v ∧ v.Onward e := by
  induction h generalizing items ranges with
  | start s => exact ⟨.refl s, hrounds.passes.onward⟩
  | @declaration s v t rest hr ht hv =>
    obtain ⟨item, s', _, _, hround, later⟩ := hrounds.exists_first hend hr ht
    obtain ⟨start, stop⟩ := (Rule.forward limit).topDeclaration.between s v hv
    exact ⟨start, (stop.trans (onward_of_round hr ht hround)).trans later.passes.onward⟩
  | @recovery s failed v s' t rest ts us d hr ht e hrec hv hs' =>
    obtain ⟨item, s'', _, _, hround, later⟩ := hrounds.exists_first hend hr ht
    have stops := (Rule.forward limit).topDeclaration.stops s
    rw [e] at stops
    obtain rfl : s' = s'' := by
      obtain ⟨st, -, e'⟩ | ⟨d', failed', -, e', hrec'⟩ := exists_of_round hround
      · cases e.symm.trans e'
      · cases e.symm.trans e'
        exact Except.ok.inj (hrec.symm.trans hrec')
    exact ⟨stops.trans hv.onward, hs'.onward.trans later.passes.onward⟩
  | @later s s' v t rest item hr ht hround _ ih =>
    obtain ⟨item', s'', _, _, hround', later⟩ := hrounds.exists_first hend hr ht
    cases hround.symm.trans hround'
    have stops := (Rule.forward limit).topDeclaration.stops s
    obtain ⟨start, stop⟩ := ih later
    exact ⟨(stops.trans (onward_of_round hr ht hround)).trans start, stop⟩

/-! ## Without an end mark -/

/-- A declaration breaks no contract but that a token is missing. -/
theorem missingEnd_of_topDeclaration (placed : ∀ t ∈ s.rest, t.span.isSome) {f : Fault}
    (h : (Grammar.topDeclaration limit).run s = .failed (.fault f) v) : f = .missingEnd := by
  by_contra other
  -- With an end mark behind, the declaration would break the same contract.
  have fed : ¬ ((Grammar.topDeclaration limit).run s).Starved := by
    rintro ⟨v', e⟩
    cases h.symm.trans e
    exact other rfl
  have longer := (Grammar.frames_topDeclaration limit).run_within s []
    [⟨.mark .endOfFile, some {}⟩] (.inr rfl) fun _ => fed
  have ready : (s.within [] [⟨.mark .endOfFile, some {}⟩]).Ready := by
    refine ⟨fun t ht => ?_, ⟨.mark .endOfFile, some {}⟩, by simp [within], .inl rfl⟩
    obtain ht | ht := List.mem_append.mp ht
    · exact placed t ht
    · rw [List.mem_singleton.mp ht]
      rfl
  rw [h] at longer
  obtain ⟨_, _, broken⟩ := (Grammar.ensures_topDeclaration limit ready).failed longer
  obtain ⟨d, hd, -⟩ := broken.reports
  cases hd

theorem missingEnd_of_skip {passed rest : List PlacedToken} {f : Fault}
    (h : skip passed rest = .error f) : f = .missingEnd := by
  induction rest generalizing passed with
  | nil =>
    rw [skip] at h
    split at h
    · cases h
    · exact (Except.error.inj h).symm
  | cons t ts ih =>
    rw [skip] at h
    split at h
    · cases h
    · exact ih h

theorem missingEnd_of_recover {failed : TokenStream} {f : Fault}
    (h : recover s failed = .error f) : f = .missingEnd := by
  unfold recover synchronize at h
  cases e : skip failed.passed failed.rest with
  | ok r => simp [e, Except.map] at h
  | error g =>
    rw [e] at h
    cases h
    exact missingEnd_of_skip e

/-- Without an end mark, a token is missing in the end. -/
theorem items_of_noEnd (limit : Int) {s : TokenStream} (placed : ∀ t ∈ s.rest, t.span.isSome)
    (noEnd : ∀ t ∈ s.rest, t.isEnd = false) : s.items limit = .error .missingEnd := by
  cases hr : s.rest with
  | nil => simp only [items_eq, hr]
  | cons t rest =>
    have ht := noEnd t (by simp [hr])
    have stops := (Rule.forward limit).topDeclaration.stops s
    -- The rounds behind this one have fewer tokens, all of them from here.
    have later {s' : TokenStream} (hs' : s.Onward s') (hlt : s'.rest.length < s.rest.length) :
        s'.items limit = .error .missingEnd :=
      items_of_noEnd limit (fun u hu => placed u (hs'.rest_subset hu)) fun u hu =>
        noEnd u (hs'.rest_subset hu)
    rw [items_eq, hr]
    simp only [ht, Bool.false_eq_true, if_false]
    cases e : (Grammar.topDeclaration limit).run s with
    | done st s' =>
      rw [e] at stops
      have next : s'.items limit = .error .missingEnd :=
        later stops (Grammar.consumes_declaration _ _ _ _ e)
      simp only [next, Except.map]
    | failed why failed =>
      rw [e] at stops
      cases why with
      | fault f => simp only [missingEnd_of_topDeclaration placed e]
      | diagnostic d =>
        cases hrec : recover s failed with
        | error f => simp only [hrec, missingEnd_of_recover hrec]
        | ok s' =>
          have hle := (Grammar.topDeclaration limit).shrinks s
          rw [e] at hle
          have next : s'.items limit = .error .missingEnd :=
            later (stops.trans (onward_of_recover hr ht stops hrec))
              (recover_shrinks (by simp [hr]) hle hrec)
          simp only [hrec, next, Except.map]
termination_by s.rest.length

end TokenStream

/-! ## Behind the end mark -/

/-- Readers of the same tokens, up to an end mark that other tokens stand behind. -/
def Pairing.behind {stop : PlacedToken} (ends : stop.isEnd) (after after' : List PlacedToken)
    (limit : Int) : Pairing where
  move := id
  stop := stop
  after := after
  stop' := stop
  after' := after'
  limit := limit
  limit' := limit
  ends := ends
  resumes := Bool.or_eq_true_iff.mpr (.inl ends)
  moved _ := by simp

theorem Pairing.beside_behind {stop : PlacedToken} (ends : stop.isEnd) {ts : List PlacedToken}
    (hts : ∀ t ∈ ts, t.isEnd = false) (after after' : List PlacedToken) (limit : Int) :
    (behind ends after after' limit).Beside ⟨[], ts ++ stop :: after, 0⟩
      ⟨[], ts ++ stop :: after', 0⟩ := by
  simpa [behind] using Beside.mk (w := behind ends after after' limit) [] ts 0 hts

/-- The stream of a list of tokens with an end mark among them. -/
theorem TokenStream.ofTokens_eq {before after : List PlacedToken} {stop : PlacedToken}
    (hstop : stop.isEnd) : ofTokens (before ++ stop :: after) =
      ⟨[], before.filter (fun t => t.kind != .whitespace) ++
        stop :: after.filter (fun t => t.kind != .whitespace), 0⟩ := by
  simp [ofTokens, ne_whitespace_of_isEnd hstop]

/-- What stands behind the first end mark makes no difference. -/
theorem parse_of_behind {limit : Int} {before after : List PlacedToken} {stop : PlacedToken}
    (placed : ∀ t ∈ before ++ stop :: after, t.span.isSome) (inside : ∀ t ∈ before, t.isEnd = false)
    (hstop : stop.isEnd) {p : Parsed} (parsed : parse (before ++ stop :: after) limit = .ok p)
    (after' : List PlacedToken) : parse (before ++ stop :: after') limit = .ok p := by
  have closed := closed_ofTokens placed ⟨stop, by simp, hstop⟩
  have inside' : ∀ t ∈ before.filter (fun t => t.kind != .whitespace), t.isEnd = false :=
    fun t ht => inside t (List.mem_of_mem_filter ht)
  obtain ⟨items, ranges, e, hrounds, he⟩ := closed.exists_rounds_of_rest limit
    (congrArg TokenStream.rest (TokenStream.ofTokens_eq hstop)) inside' hstop
  have beside := Pairing.beside_behind hstop inside' (after.filter (fun t => t.kind != .whitespace))
    (after'.filter (fun t => t.kind != .whitespace)) limit
  rw [← TokenStream.ofTokens_eq hstop, ← TokenStream.ofTokens_eq hstop] at beside
  obtain ⟨e', hrounds', hbeside, -⟩ | ⟨_, _, _, _, _, _, -, -, -, hmiss⟩ :=
    Pairing.rounds_beside (Int.le_refl limit) hrounds beside closed he fun _ _ h =>
      Int.lt_irrefl limit h.1
  · have same := hrounds'.items_eq (hbeside.rest_eq he) hstop
    simp only [Pairing.behind, Item.relocate_id, List.map_id] at same
    rw [parse_eq same, ← parsed, parse_eq (hrounds.items_eq he hstop)]
  · cases hmiss.apart.symm.trans hstop

/-! ## Lists of tokens -/

/-- Without an end mark, parsing fails for that reason. -/
theorem parse_of_noEnd {tokens : List PlacedToken} (limit : Int)
    (placed : ∀ t ∈ tokens, t.span.isSome) (noEnd : ∀ t ∈ tokens, t.isEnd = false) :
    parse tokens limit = .error .missingEnd := by
  have missing : (TokenStream.ofTokens tokens).items limit = .error .missingEnd :=
    TokenStream.items_of_noEnd limit (fun t ht => placed t (List.mem_of_mem_filter ht))
      fun t ht => noEnd t (List.mem_of_mem_filter ht)
  rw [parse, TokenStream.program, missing]
  rfl

/-- Reading goes on up to the first end mark, from wherever it is. -/
theorem program_of_end {limit : Int} {before after : List PlacedToken} {stop : PlacedToken}
    (placed : ∀ t ∈ before ++ stop :: after, t.span.isSome) (inside : ∀ t ∈ before, t.isEnd = false)
    (hstop : stop.isEnd) : let start := TokenStream.ofTokens (before ++ stop :: after)
    ∃ p e, start.program limit = .ok (p, e) ∧ e.rest.head? = some stop ∧
      e.passed.reverse = before.filter (fun t => t.kind != .whitespace) ∧
      ∀ items ranges s v, TokenStream.Rounds limit start items ranges s →
        TokenStream.Reaches limit s v →
        s.Onward v ∧ v.Onward e ∧ s.index ≤ v.index ∧ v.index ≤ e.index := by
  intro start
  have closed := closed_ofTokens placed ⟨stop, by simp, hstop⟩
  have split := @TokenStream.ofTokens_eq before after stop hstop
  obtain ⟨items, ranges, e, hrounds, he⟩ := closed.exists_rounds_of_rest limit
    (congrArg TokenStream.rest split) (fun t ht => inside t (List.mem_of_mem_filter ht)) hstop
  refine ⟨.ofItems items, e, ?_, by rw [he]; rfl, ?_, fun items' ranges' s v hs hv => ?_⟩
  · rw [TokenStream.program, hrounds.items_eq he hstop]
    rfl
  · have rest := hrounds.passes.rest
    rw [split, he, List.append_cancel_right_eq] at rest
    simp [hrounds.passes.passed, split, rest]
  · -- The rounds from there on end where all rounds do.
    obtain ⟨items'', ranges'', stop', after', hstop', -, -, e', hrounds', he'⟩ :=
      (closed.passes hs.passes).exists_rounds limit
    have whole := (hs.trans hrounds').items_eq he' hstop'
    obtain rfl : e' = e :=
      congrArg Prod.snd (Except.ok.inj (whole.symm.trans (hrounds.items_eq he hstop)))
    obtain ⟨before, behind⟩ := hv.onward hrounds' (by simpa [he] using hstop)
    exact ⟨before, behind, before.index_le, behind.index_le⟩

/-- Parsing fails only where there is no end mark, and then for that reason. Else it reads up to the
first end mark: it never goes back and never further, and what stands behind makes no difference. -/
theorem parse_stops_at_first_end {tokens : List PlacedToken} (limit : Int)
    (placed : ∀ t ∈ tokens, t.span.isSome) :
    (∀ f, parse tokens limit = .error f ↔ f = .missingEnd ∧ ∀ t ∈ tokens, t.isEnd = false) ∧
      Fault.missingEnd.message = "consumed all tokens without encountering EOF" ∧
      (∀ before stop after, tokens = before ++ stop :: after → (∀ t ∈ before, t.isEnd = false) →
        stop.isEnd → ∃ p e, (TokenStream.ofTokens tokens).program limit = .ok (p, e) ∧
          e.rest.head? = some stop ∧
          e.passed.reverse = before.filter (fun t => t.kind != .whitespace) ∧
          (∀ items ranges s v, TokenStream.Rounds limit (.ofTokens tokens) items ranges s →
            TokenStream.Reaches limit s v →
            s.Onward v ∧ v.Onward e ∧ s.index ≤ v.index ∧ v.index ≤ e.index) ∧
          ∀ after', parse (before ++ stop :: after') limit = .ok p) ∧
      (∀ room l, (Grammar.ruleAt limit room l).Forward) ∧
      ∀ room, (Grammar.expression limit room).Forward ∧
        (Grammar.variableDeclaration (Grammar.expression limit room)).Forward ∧
        (Grammar.statement (Grammar.expression limit room)).Forward ∧
        (Grammar.declaration (Grammar.expression limit room)).Forward := by
  refine ⟨fun f => ⟨fun failed => ?_, ?_⟩, rfl, ?_, (Rule.forward limit).ruleAt,
    (Rule.forward limit).overExpression⟩
  · have noEnd : ∀ t ∈ tokens, t.isEnd = false := by
      by_contra ended
      obtain ⟨p, parsed, -⟩ := exists_parse limit placed (by simpa using ended)
      cases failed.symm.trans parsed
    exact ⟨Except.error.inj (failed.symm.trans (parse_of_noEnd limit placed noEnd)), noEnd⟩
  · rintro ⟨rfl, noEnd⟩
    exact parse_of_noEnd limit placed noEnd
  · rintro before stop after rfl inside hstop
    obtain ⟨p, e, program, head, passed, onward⟩ := program_of_end placed inside hstop
    have parsed : parse (before ++ stop :: after) limit = .ok p := by
      rw [parse, program]
      rfl
    exact ⟨p, e, program, head, passed, onward, parse_of_behind placed inside hstop parsed⟩

end Lox
