import Lox.Proofs.Syntax.Onward
import Lox.Syntax.Handmade

/-!
# Reading tokens made by hand

As long as nothing is missing that reading needs, tokens made by hand are read as the grammar reads
them. What may be missing is the value of a number in front of the first end mark, and the text of a
limit that a report of too deep nesting has to name; nothing else breaks.

* `Rule.names`: the rules of the grammar report too deep nesting for their own limit only.
* `TokenStream.loop_madeDeclaration`: a loop over declarations goes as the loop of the grammar, up
  to a breach.
* `parseMade_whole`: tokens that nothing is missing of, as the scanner gives them.
* `parseMade_stops_at_first_end`: tokens whose numbers have their values.
-/

namespace Lox

/-! ## Reports without words -/

namespace Rule

/-- Wherever the rule reports too deep nesting, it names this limit. -/
def Names (limit : Int) {α : Type} (r : Rule α) : Prop :=
  ∀ s why s', r.run s = .failed why s' → why.Names limit

theorem names_chain {limit : Int} {operators : List Mark} {extend : Expr → Mark → Rule Expr}
    (h : ∀ e m, (extend e m).Names limit) (left : Expr) :
    (chain operators extend left).Names limit := by
  intro s why s' e
  change chainFrom operators extend left s = _ at e
  induction left, s using chainFrom.induct operators extend with
  | case1 left s hs =>
    simp only [chainFrom_eq, hs] at e
    cases e
    trivial
  | case2 left s t ts hs hm => simp [chainFrom_eq, hs, hm] at e
  | case3 left s t ts hs m hm why' s'' e' =>
    simp only [chainFrom_eq, hs, hm, e'] at e
    cases e
    exact h _ _ _ _ _ e'
  | case4 left s t ts hs m hm longer s'' e' ih =>
    rw [chainFrom_eq] at e
    simp only [hs, hm, e'] at e
    exact ih e

/-- So the rules of the grammar name their own limit. -/
theorem names (limit : Int) : Hereditary limit fun _ _ r => r.Names limit where
  pure _ _ _ _ e := by cases e
  fail h _ _ _ e := by cases e; exact h
  stream _ _ _ e := by cases e
  head {_} := by
    rintro ⟨passed, _ | ⟨t, ts⟩, depth⟩ why s' e <;> cases e
    trivial
  advance {_} := by
    rintro ⟨passed, _ | ⟨t, ts⟩, depth⟩ why s' e
    · cases e
      trivial
    · simp only [advance] at e
      split at e <;> cases e
  bind {_ _ _ r f} hr hf s why s' e := by
    rw [run_bind] at e
    cases e' : r.run s with
    | done a s'' =>
      rw [e'] at e
      exact hf a s'' why s' e
    | failed why' s'' =>
      rw [e'] at e
      cases e
      exact hr s why s' e'
  nested {_ _ r} hr s why s' e := by
    simp only [Rule.nested] at e
    cases e' : r.run { s with depth := s.depth + 1 } with
    | done a s'' =>
      rw [e'] at e
      cases e
    | failed why' s'' =>
      rw [e'] at e
      cases e
      exact hr _ _ _ e'
  chain left _ h := names_chain h left

end Rule

/-- There are words for every report, unless it names a limit that has too many digits. -/
theorem Diagnostic.exists_of_not_isWorded {d : Diagnostic} (h : ¬ d.isWorded) :
    ∃ named, d.cause = .nesting named ∧ ¬ Text.isWritable named := by
  obtain ⟨cause, span⟩ := d
  cases cause with
  | nesting named =>
    refine ⟨named, rfl, fun writable => h ?_⟩
    simp [isWorded, Cause.message?, Text.ofInteger?, writable]
  | _ => exact absurd rfl h

/-- The grammar lacks words only for its own limit. -/
theorem Failure.Names.of_not_isWorded {limit : Int} {d : Diagnostic}
    (h : (Failure.diagnostic d).Names limit) (unworded : ¬ d.isWorded) :
    d.cause = .nesting limit ∧ ¬ Text.isWritable limit := by
  obtain ⟨named, cause, unwritable⟩ := d.exists_of_not_isWorded unworded
  obtain ⟨_, span⟩ := d
  obtain rfl : _ = Cause.nesting named := cause
  obtain rfl : named = limit := h
  exact ⟨rfl, unwritable⟩

/-- A declaration has no words only for a limit that has too many digits. -/
theorem unworded?_topDeclaration {limit : Int} {s : TokenStream} {f : Fault}
    (h : ((Grammar.topDeclaration limit).run s).unworded? = some f) :
    f = .unwrittenLimit ∧ ¬ Text.isWritable limit := by
  cases e : (Grammar.topDeclaration limit).run s with
  | done st s' => simp [e, Outcome.unworded?] at h
  | failed why s' =>
    rw [e] at h
    cases why with
    | fault g => cases h
    | diagnostic d =>
      simp only [Outcome.unworded?] at h
      split at h
      · cases h
      · rename_i unworded
        have names := (Rule.names limit).topDeclaration _ _ _ e
        exact ⟨(Option.some.inj h).symm, (names.of_not_isWorded unworded).2⟩

/-! ## Loops with breaches -/

namespace TokenStream

open Grammar

variable {limit : Int} {s : TokenStream}

/-- The breach of a declaration that starts here. -/
def breachAt? (made : List MadeToken) (limit : Int) (s : TokenStream) : Option Fault :=
  let o := (topDeclaration limit).run s
  MadeToken.breach? ((made.drop s.index).take (o.stream.index - s.index)) o

theorem run_madeDeclaration (made : List MadeToken) (limit : Int) (s : TokenStream) :
    (madeDeclaration made limit).run s = match breachAt? made limit s with
      | some f => .failed (.fault f) ((topDeclaration limit).run s).stream
      | none => (topDeclaration limit).run s := rfl

section

variable {made : List MadeToken} {t : PlacedToken} {rest : List PlacedToken}

/-- A round goes on. -/
theorem onward_round {item : Item} {s' : TokenStream} (hr : s.rest = t :: rest)
    (ht : t.isEnd = false) (h : round limit s = .ok (item, s')) : s.Onward s' :=
  ((Rule.forward limit).topDeclaration.stops s).trans (onward_of_round hr ht h)

theorem loop_madeDeclaration_of_breach {f : Fault} (hr : s.rest = t :: rest)
    (ht : t.isEnd = false) (hb : breachAt? made limit s = some f) :
    s.loop (madeDeclaration made limit) (consumes_madeDeclaration _ _) = .error f := by
  rw [loop_eq, hr]
  simp only [ht, Bool.false_eq_true, if_false, run_madeDeclaration, hb]

/-- Without a breach, the loop in terms of rounds. -/
theorem loop_madeDeclaration_eq (hr : s.rest = t :: rest) (ht : t.isEnd = false)
    (hb : breachAt? made limit s = none) :
    s.loop (madeDeclaration made limit) (consumes_madeDeclaration _ _) =
      match round limit s with
      | .error f => .error f
      | .ok (item, s') =>
        (s'.loop (madeDeclaration made limit) (consumes_madeDeclaration _ _)).map
          fun (is, stop) => (item :: is, stop) :=
  loop_eq_round (by rw [run_madeDeclaration, hb]) hr ht

theorem loop_madeDeclaration_of_isEnd (hr : s.rest = t :: rest) (ht : t.isEnd) :
    s.loop (madeDeclaration made limit) (consumes_madeDeclaration _ _) = .ok ([], s) := by
  rw [loop_eq, hr]
  simp [ht]

end

/-- The loop over declarations goes as the loop of the grammar, unless a declaration on its way is a
breach. -/
theorem loop_madeDeclaration (made : List MadeToken) (limit : Int) (s : TokenStream) :
    s.loop (madeDeclaration made limit) (consumes_madeDeclaration _ _) = s.items limit ∨
      ∃ v f, s.Onward v ∧ breachAt? made limit v = some f ∧
        s.loop (madeDeclaration made limit) (consumes_madeDeclaration _ _) = .error f := by
  cases hr : s.rest with
  | nil =>
    rw [loop_eq, items_eq, hr]
    exact .inl rfl
  | cons t rest =>
    cases ht : t.isEnd with
    | true => exact .inl <| by rw [loop_madeDeclaration_of_isEnd hr ht, items_of_isEnd hr ht]
    | false =>
      cases hb : breachAt? made limit s with
      | some f => exact .inr ⟨s, f, .refl s, hb, loop_madeDeclaration_of_breach hr ht hb⟩
      | none =>
        rw [loop_madeDeclaration_eq hr ht hb, items_eq_round hr ht]
        cases hround : round limit s with
        | error f => exact .inl rfl
        | ok next =>
          obtain ⟨item, s'⟩ := next
          have onward := onward_round hr ht hround
          have : s'.rest.length < s.rest.length := round_shrinks hr hround
          obtain same | ⟨v, f, later, breach, failed⟩ := loop_madeDeclaration made limit s'
          · exact .inl (by simp only [same])
          · exact .inr ⟨v, f, onward.trans later, breach, by simp only [failed, Except.map]⟩
termination_by s.rest.length

/-- Items come from rounds. -/
theorem exists_rounds_of_items {s e : TokenStream} {items : List Item}
    (h : s.items limit = .ok (items, e)) : ∃ ranges stop after,
      Rounds limit s items ranges e ∧ e.rest = stop :: after ∧ stop.isEnd := by
  cases hr : s.rest with
  | nil => simp [items_eq, hr] at h
  | cons t rest =>
    cases ht : t.isEnd with
    | true =>
      rw [items_of_isEnd hr ht] at h
      cases h
      exact ⟨[], t, rest, .nil s, hr, ht⟩
    | false =>
      rw [items_eq_round hr ht] at h
      cases hround : round limit s with
      | error f => simp [hround] at h
      | ok next =>
        obtain ⟨item, s'⟩ := next
        have : s'.rest.length < s.rest.length := round_shrinks hr hround
        obtain ⟨ts, passes⟩ := onward_round hr ht hround
        cases later : s'.items limit with
        | error f => simp [hround, later, Except.map] at h
        | ok given =>
          simp only [hround, later, Except.map, Except.ok.injEq, Prod.mk.injEq] at h
          obtain ⟨rfl, rfl⟩ := h
          obtain ⟨ranges, stop, after, hrounds, he, hstop⟩ := exists_rounds_of_items later
          rw [← round_depth hround] at passes
          exact ⟨ts :: ranges, stop, after, .cons hr ht hround passes hrounds, he, hstop⟩
termination_by s.rest.length

theorem exists_items_of_program {p : Parsed} {e : TokenStream}
    (h : s.program limit = .ok (p, e)) :
    ∃ items, s.items limit = .ok (items, e) ∧ .ofItems items = p := by
  rw [program] at h
  cases hitems : s.items limit with
  | error f => simp [hitems, Except.map] at h
  | ok given =>
    rw [hitems] at h
    cases h
    exact ⟨given.1, rfl, rfl⟩

/-- If the only breaches are reports without words, the loop goes in the same rounds, and breaks off
if one of them makes such a report. -/
theorem Rounds.loop_madeDeclaration {made : List MadeToken} {s e : TokenStream} {items : List Item}
    {ranges : List (List PlacedToken)} (h : Rounds limit s items ranges e) {stop : PlacedToken}
    {after : List PlacedToken} (he : e.rest = stop :: after) (hstop : stop.isEnd)
    (plain : ∀ v, s.Onward v → breachAt? made limit v = ((topDeclaration limit).run v).unworded?) :
    s.loop (madeDeclaration made limit) (consumes_madeDeclaration _ _) =
      if (items.filterMap Item.diagnostic?).all Diagnostic.isWorded then .ok (items, e)
      else .error .unwrittenLimit := by
  induction h with
  | nil s => rw [loop_madeDeclaration_of_isEnd he hstop]; rfl
  | @cons s s' e t rest ts item items ranges hs ht hround hp later ih =>
    have next := ih he fun v hv => plain v (hp.onward.trans hv)
    have here := plain s (.refl s)
    obtain ⟨st, rfl, e'⟩ | ⟨d, failed, rfl, e', hrec⟩ := exists_of_round hround
    · rw [e'] at here
      rw [loop_madeDeclaration_eq hs ht here, hround]
      simp only [next, List.filterMap_cons, Item.diagnostic?, apply_ite (Except.map _)]
      rfl
    · rw [e', Outcome.unworded?] at here
      by_cases worded : d.isWorded
      · rw [if_pos worded] at here
        rw [loop_madeDeclaration_eq hs ht here, hround]
        simp only [next, List.filterMap_cons, Item.diagnostic?, List.all_cons, worded,
          Bool.true_and, apply_ite (Except.map _)]
        rfl
      · rw [if_neg worded] at here
        rw [loop_madeDeclaration_of_breach hs ht here]
        simp [Item.diagnostic?, worded]

/-- What the rounds report names their own limit. -/
theorem Rounds.names {s e : TokenStream} {items : List Item} {ranges : List (List PlacedToken)}
    (h : Rounds limit s items ranges e) {d : Diagnostic} (mem : .rejected d ∈ items) :
    (Failure.diagnostic d).Names limit := by
  induction h with
  | nil => cases mem
  | cons _ _ hround _ _ ih =>
    obtain rfl | mem := List.mem_cons.mp mem
    · obtain ⟨st, ⟨⟩, -⟩ | ⟨d, failed, ⟨⟩, e, -⟩ := exists_of_round hround
      exact (Rule.names limit).topDeclaration _ _ _ e
    · exact ih mem

/-- Where the loop breaks off nowhere, no round that it goes through starts with a breach. -/
theorem Rounds.breachAt?_eq_none {made : List MadeToken} {s v : TokenStream} {items : List Item}
    {ranges : List (List PlacedToken)} (h : Rounds limit s items ranges v)
    {given : List Item × TokenStream}
    (hs : s.loop (madeDeclaration made limit) (consumes_madeDeclaration _ _) = .ok given)
    {t : PlacedToken} {rest : List PlacedToken} (hr : v.rest = t :: rest) (ht : t.isEnd = false) :
    breachAt? made limit v = none := by
  induction h generalizing given with
  | nil s =>
    cases hb : breachAt? made limit s with
    | none => rfl
    | some f => cases hs.symm.trans (loop_madeDeclaration_of_breach hr ht hb)
  | @cons s s' e t' rest' ts item items ranges hs' ht' hround hp later ih =>
    cases hb : breachAt? made limit s with
    | some f => cases hs.symm.trans (loop_madeDeclaration_of_breach hs' ht' hb)
    | none =>
      rw [loop_madeDeclaration_eq hs' ht' hb, hround] at hs
      cases next : s'.loop (madeDeclaration made limit) (consumes_madeDeclaration _ _) with
      | error f => simp [next, Except.map] at hs
      | ok given' => exact ih next hr

end TokenStream

/-! ## Numbers with their values -/

namespace MadeToken

/-- The numbers in front of the first end mark have their values. -/
def Valued (tokens : List MadeToken) : Prop :=
  ∀ t ∈ tokens.takeWhile (fun t => !t.filled.isEnd), t.isValueless = false

instance (tokens : List MadeToken) : Decidable (Valued tokens) :=
  inferInstanceAs (Decidable (∀ t ∈ tokens.takeWhile _, _))

theorem map_filled_whole (tokens : List PlacedToken) : (tokens.map whole).map filled = tokens := by
  rw [List.map_map]
  exact List.map_id tokens

theorem valued_map_whole (tokens : List PlacedToken) : Valued (tokens.map whole) := by
  intro t ht
  obtain ⟨t, -, rfl⟩ := List.mem_map.mp ((List.takeWhile_prefix _).subset ht)
  rfl

/-- What stands behind an end mark may be anything. -/
theorem Valued.behind {before after : List MadeToken} {stop : MadeToken}
    (h : Valued (before ++ stop :: after)) (inside : ∀ t ∈ before, t.filled.isEnd = false)
    (hstop : stop.filled.isEnd) (after' : List MadeToken) : Valued (before ++ stop :: after') := by
  have front (after : List MadeToken) :
      (before ++ stop :: after).takeWhile (fun t => !t.filled.isEnd) = before := by
    rw [List.takeWhile_append_of_pos (by simpa using inside)]
    simp [hstop]
  rw [Valued, front] at h ⊢
  exact h

/-- The tokens up to an index have their values if no end mark is among them. -/
theorem Valued.take {tokens : List MadeToken} (h : Valued tokens) {n : Nat}
    (noEnd : ∀ t ∈ (visible tokens).take n, t.filled.isEnd = false) :
    ∀ t ∈ (visible tokens).take n, t.isValueless = false := by
  intro t ht
  have inFront : t ∈ (visible tokens).takeWhile (fun t => !t.filled.isEnd) := by
    rw [← List.take_append_drop n (visible tokens),
      List.takeWhile_append_of_pos (by simpa using noEnd)]
    exact List.mem_append_left _ ht
  rw [visible, List.takeWhile_filter] at inFront
  have white (t : MadeToken) : (!(t.filled.kind != .whitespace) || !t.filled.isEnd) =
      !t.filled.isEnd := by
    cases he : t.filled.isEnd
    · simp
    · simp [ne_whitespace_of_isEnd he]
  simp only [white] at inFront
  exact h t (List.mem_of_mem_filter inFront)

/-- No declaration reads a number without a value. -/
theorem Valued.breachAt?_eq {tokens : List MadeToken} (h : Valued tokens) {limit : Int}
    {v : TokenStream} (hv : (stream tokens).Onward v) :
    TokenStream.breachAt? (visible tokens) limit v =
      ((Grammar.topDeclaration limit).run v).unworded? := by
  obtain ⟨ts, hp⟩ := hv.trans ((Rule.forward limit).topDeclaration.stops v)
  generalize e : (Grammar.topDeclaration limit).run v = o at hp
  -- The tokens read so far are the visible ones up to some index, and none is an end mark.
  have length : o.stream.index = ts.length := by
    have passed : o.stream.passed = ts.reverse ++ [] := hp.passed
    simp [TokenStream.index, passed]
  have read : ((visible tokens).take o.stream.index).map filled = ts := by
    have rest : (visible tokens).map filled = ts ++ o.stream.rest :=
      List.filter_map.symm.trans hp.rest
    rw [List.map_take, rest, length, List.take_left]
  have valued := h.take fun t ht => hp.noEnd t.filled (read ▸ List.mem_map_of_mem ht)
  have none : (((visible tokens).drop v.index).take (o.stream.index - v.index)).findIdx? isValueless
      = none := by
    rw [← List.drop_take, List.findIdx?_eq_none_iff]
    exact fun t ht => valued t (List.mem_of_mem_drop ht)
  simp only [TokenStream.breachAt?, e, breach?, none]

/-- Where the numbers have their values, nothing can break off but a report that there are no words
for. -/
theorem Valued.items_eq {tokens : List MadeToken} (h : Valued tokens) (limit : Int) :
    items tokens limit = (stream tokens).items limit ∨
      items tokens limit = .error .unwrittenLimit ∧ ¬ Text.isWritable limit := by
  obtain same | ⟨v, f, hv, breach, failed⟩ :=
    TokenStream.loop_madeDeclaration (visible tokens) limit (stream tokens)
  · exact .inl same
  · rw [h.breachAt?_eq hv] at breach
    obtain ⟨rfl, unwritable⟩ := unworded?_topDeclaration breach
    exact .inr ⟨failed, unwritable⟩

end MadeToken

/-! ## Lists of tokens -/

section

variable {tokens : List MadeToken} {limit : Int} {p : Parsed}

theorem parse_map_filled (tokens : List MadeToken) (limit : Int) :
    parse (tokens.map MadeToken.filled) limit =
      ((MadeToken.stream tokens).items limit).map fun (items, _) => .ofItems items := by
  change Except.map Prod.fst (Except.map _ ((MadeToken.stream tokens).items limit)) = _
  cases (MadeToken.stream tokens).items limit <;> rfl

/-- What parsing reports names its own limit. -/
theorem names_of_mem_parse {tokens : List PlacedToken} (h : parse tokens limit = .ok p)
    {d : Diagnostic} (mem : d ∈ p.errors) : (Failure.diagnostic d).Names limit := by
  obtain ⟨items, e, hitems, rfl⟩ := exists_items_of_parse h
  obtain ⟨ranges, -, -, hrounds, -, -⟩ := TokenStream.exists_rounds_of_items hitems
  obtain ⟨item, hitem, rejected⟩ := List.mem_filterMap.mp mem
  cases item with
  | statement st => cases rejected
  | rejected d' =>
    cases rejected
    exact hrounds.names hitem

/-- What is read from tokens made by hand is what the grammar reads. -/
theorem parse_of_parseMade (h : parseMade tokens limit = .ok p) :
    parse (tokens.map MadeToken.filled) limit = .ok p := by
  obtain same | ⟨v, f, -, -, failed⟩ := TokenStream.loop_madeDeclaration
    (MadeToken.visible tokens) limit (MadeToken.stream tokens)
  · rw [parse_map_filled, ← h, parseMade, MadeToken.items, same]
  · rw [parseMade, MadeToken.items, failed] at h
    cases h

/-- Tokens whose numbers have their values are read as the grammar reads them, unless the limit
cannot be written. -/
theorem parseMade_eq_parse (valued : MadeToken.Valued tokens) (limit : Int) :
    parseMade tokens limit = parse (tokens.map MadeToken.filled) limit ∨
      parseMade tokens limit = .error .unwrittenLimit ∧ ¬ Text.isWritable limit := by
  obtain same | ⟨failed, unwritable⟩ := valued.items_eq limit
  · exact .inl (by rw [parseMade, same, parse_map_filled])
  · exact .inr ⟨by rw [parseMade, failed]; rfl, unwritable⟩

/-- It is the reports without words that break off reading such tokens. -/
theorem parseMade_of_parse (valued : MadeToken.Valued tokens)
    (h : parse (tokens.map MadeToken.filled) limit = .ok p) : parseMade tokens limit =
      if p.errors.all Diagnostic.isWorded then .ok p else .error .unwrittenLimit := by
  obtain ⟨items, e, hitems, rfl⟩ := exists_items_of_parse h
  obtain ⟨ranges, stop, after, hrounds, he, hstop⟩ := TokenStream.exists_rounds_of_items hitems
  have loop : MadeToken.items tokens limit = _ :=
    hrounds.loop_madeDeclaration he hstop fun v hv => valued.breachAt?_eq hv
  rw [parseMade, loop, apply_ite (Except.map _)]
  rfl

end

/-- Tokens that nothing is missing of are read as the grammar reads them, up to words for a
report. -/
theorem parseMade_whole {tokens : List PlacedToken} {limit : Int} {p : Parsed}
    (h : parse tokens limit = .ok p) : parseMade (tokens.map .whole) limit =
      if p.errors.all Diagnostic.isWorded then .ok p else .error .unwrittenLimit := by
  rw [← MadeToken.map_filled_whole tokens] at h
  exact parseMade_of_parse (MadeToken.valued_map_whole tokens) h

theorem parseMade_whole_of_clean {tokens : List PlacedToken} {limit : Int} {p : Parsed}
    (h : parse tokens limit = .ok p) (clean : p.errors = []) :
    parseMade (tokens.map .whole) limit = .ok p := by
  rw [parseMade_whole h, clean]
  rfl

/-- Reading either breaks off for want of words, with a limit that has too many digits, or it fails
only where there is no end mark, and then for that reason. Else it reads up to the first end mark:
it never goes back and never further, and what stands behind makes no difference. -/
theorem parseMade_stops_at_first_end {tokens : List MadeToken} (limit : Int)
    (placed : ∀ t ∈ tokens, t.filled.span.isSome) (valued : MadeToken.Valued tokens) :
    (parseMade tokens limit = .error .unwrittenLimit ∧ ¬ Text.isWritable limit) ∨
      (∀ f, parseMade tokens limit = .error f ↔
        f = .missingEnd ∧ ∀ t ∈ tokens, t.filled.isEnd = false) ∧
      Fault.missingEnd.message = "consumed all tokens without encountering EOF" ∧
      (∀ before stop after, tokens = before ++ stop :: after →
        (∀ t ∈ before, t.filled.isEnd = false) → stop.filled.isEnd →
        ∃ items e, MadeToken.items tokens limit = .ok (items, e) ∧
          e.rest.head? = some stop.filled ∧
          e.passed.reverse =
            (before.map MadeToken.filled).filter (fun t => t.kind != .whitespace) ∧
          (∀ items ranges s v,
            TokenStream.Rounds limit (MadeToken.stream tokens) items ranges s →
            (∀ t ∈ s.rest.head?, t.isEnd = false →
              (Grammar.madeDeclaration (MadeToken.visible tokens) limit).run s =
                (Grammar.topDeclaration limit).run s) ∧
            (TokenStream.Reaches limit s v →
              s.Onward v ∧ v.Onward e ∧ s.index ≤ v.index ∧ v.index ≤ e.index)) ∧
          ∀ after', parseMade (before ++ stop :: after') limit = .ok (.ofItems items)) ∧
      (∀ room l, (Grammar.ruleAt limit room l).Forward) ∧
      ∀ room, (Grammar.expression limit room).Forward ∧
        (Grammar.variableDeclaration (Grammar.expression limit room)).Forward ∧
        (Grammar.statement (Grammar.expression limit room)).Forward ∧
        (Grammar.declaration (Grammar.expression limit room)).Forward := by
  obtain same | ⟨failed, unwritable⟩ := valued.items_eq limit
  swap
  · exact .inl ⟨by rw [parseMade, failed]; rfl, unwritable⟩
  have parsed : parseMade tokens limit = parse (tokens.map MadeToken.filled) limit := by
    rw [parseMade, same, parse_map_filled]
  obtain ⟨fails, message, stops, forward⟩ :=
    @parse_stops_at_first_end (tokens.map MadeToken.filled) limit (by simpa using placed)
  refine .inr ⟨fun f => ?_, message, ?_, forward⟩
  · rw [parsed, fails]
    simp
  · rintro before stop after rfl inside hstop
    obtain ⟨p, e, program, head, passed, onward, behind⟩ :=
      stops (before.map MadeToken.filled) stop.filled (after.map MadeToken.filled) (by simp)
        (by simpa using inside) hstop
    obtain ⟨items, hitems, rfl⟩ := TokenStream.exists_items_of_program program
    have read : parseMade (before ++ stop :: after) limit = .ok (.ofItems items) := by
      rw [parsed, parse, program]
      rfl
    have worded : (Parsed.ofItems items).errors.all Diagnostic.isWorded := by
      by_contra unworded
      rw [parseMade_of_parse valued (parsed.symm.trans read), if_neg unworded] at read
      cases read
    refine ⟨items, e, same.trans hitems, head, passed, fun items' ranges s v hs => ⟨?_, ?_⟩,
      fun after' => ?_⟩
    · intro t ht inside
      obtain ⟨rest, hr⟩ := List.head?_eq_some_iff.mp ht
      rw [TokenStream.run_madeDeclaration, hs.breachAt?_eq_none (same.trans hitems) hr inside]
    · exact onward items' ranges s v hs
    · have same' := behind (after'.map MadeToken.filled)
      rw [← List.map_cons, ← List.map_append] at same'
      rw [parseMade_of_parse (valued.behind inside hstop after') same', if_pos worded]

/-- Two parentheses cannot be read without any level, and nothing is read behind the end mark. -/
theorem parseMade_stops_at_first_end_parentheses : ∃ items,
    parseMade [.whole ⟨.mark .leftParen, some {}⟩, .whole ⟨.mark .rightParen, some {}⟩,
      .whole ⟨.mark .endOfFile, some {}⟩, .valueless (some {})] (-1) = .ok (.ofItems items) ∧
    parseMade [.whole ⟨.mark .leftParen, some {}⟩, .whole ⟨.mark .rightParen, some {}⟩,
      .whole ⟨.mark .endOfFile, some {}⟩] (-1) = .ok (.ofItems items) := by
  obtain ⟨-, unwritable⟩ | ⟨-, -, stops, -⟩ := @parseMade_stops_at_first_end
    [.whole ⟨.mark .leftParen, some {}⟩, .whole ⟨.mark .rightParen, some {}⟩,
      .whole ⟨.mark .endOfFile, some {}⟩, .valueless (some {})] (-1) (by decide) (by decide)
  · exact absurd (by decide +kernel) unwritable
  · obtain ⟨items, -, -, -, -, -, same⟩ := stops [.whole ⟨.mark .leftParen, some {}⟩,
      .whole ⟨.mark .rightParen, some {}⟩] (.whole ⟨.mark .endOfFile, some {}⟩)
      [.valueless (some {})] rfl (by decide) (by decide)
    exact ⟨items, same [.valueless (some {})], same []⟩

/-- A number without a value breaks off reading, and so does a report that has to name a limit of
too many digits. -/
theorem parseMade_breaks_off :
    parseMade [.valueless (some {}), .whole ⟨.mark .endOfFile, some {}⟩] = .error .missingValue ∧
    parseMade [.whole ⟨.mark .nilWord, some {}⟩, .whole ⟨.mark .semicolon, some {}⟩,
      .whole ⟨.mark .endOfFile, some {}⟩] (-Nat.pow 10 Text.maxDigits) =
        .error .unwrittenLimit := by
  constructor <;> decide +kernel

end Lox
