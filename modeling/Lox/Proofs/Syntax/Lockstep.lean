import Lox.Proofs.Syntax.Alongside
import Lox.Proofs.Syntax.Boundary

/-!
# Programs side by side

Two readers that start at alike tokens read whole programs alike, round by round, also where they
recover: skipping stops at the same token. They may part in the last round only, where the first one
meets its end mark and the second one a word that starts a statement, or where the first one meets
its limit on nesting.

* `Pairing.round_beside`: one round of both.
* `Pairing.rounds_beside`: all rounds.
* `parse_relocate`: moving tokens moves what parsing them gives, reports included.
* `parse_of_limit_le`: a larger limit changes nothing if the limit was not met.
-/

namespace Lox

/-! ## Items elsewhere -/

/-- The item with its locations moved. -/
def Item.relocate (f : Location → Location) : Item → Item
  | statement st => statement (st.relocate f)
  | rejected d => rejected (d.relocate f)

/-- Statements and reports with their locations moved. -/
def Parsed.relocate (f : Location → Location) (p : Parsed) : Parsed :=
  ⟨p.statements.map (Stmt.relocate f), p.errors.map (Diagnostic.relocate f)⟩

theorem Parsed.ofItems_relocate (f : Location → Location) (items : List Item) :
    ofItems (items.map (Item.relocate f)) = (ofItems items).relocate f := by
  simp only [ofItems, relocate, List.filterMap_map, List.map_filterMap]
  congr <;> funext item <;> cases item <;> rfl

/-! Moving nothing leaves everything as it is. -/

@[simp] theorem Expr.relocate_id : relocate id = id := by
  funext e
  induction e <;> simp_all [relocate]

@[simp] theorem Stmt.relocate_id : relocate id = id := by
  funext st
  cases st <;> simp [relocate]

@[simp] theorem Item.relocate_id : relocate id = id := by
  funext item
  cases item <;> simp [relocate]

@[simp] theorem Parsed.relocate_id : relocate id = id := by
  funext p
  simp [relocate]

namespace Pairing

open TokenStream
open PlacedToken (relocate)

variable {w : Pairing} {a a' s s' g g' : TokenStream}

/-! ## Recovery -/

theorem Beside.passes (hs : w.Beside s s') (hg : w.Beside g g') {ts : List PlacedToken}
    (hp : s.Passes ts g) : s'.Passes (ts.map (relocate w.move)) g' := by
  obtain ⟨passed, us, depth, hus⟩ := hs
  obtain ⟨passed', vs, depth', hvs⟩ := hg
  obtain ⟨hrest, hpassed, hdepth, hend⟩ := hp
  dsimp only at hrest hpassed hdepth
  rw [← List.append_assoc, List.append_cancel_right_eq] at hrest
  subst hrest hpassed hdepth
  exact ⟨by simp, by simp, rfl, List.forall_mem_map.mpr hend⟩

/-- The second reader stands where the lists of tokens part if the first one does. -/
theorem Beside.rest_eq (hs : w.Beside s s') (h : s.rest = w.stop :: w.after) :
    s'.rest = w.stop' :: w.after' := by
  obtain ⟨passed, ts, depth, hts⟩ := hs
  have hlen := congrArg List.length h
  simp only [List.length_append, List.length_cons] at hlen
  obtain rfl : ts = [] := List.eq_nil_of_length_eq_zero (by omega)
  rfl

/-- Skipping stops at the same token, or at the one where the lists of tokens part. -/
theorem Beside.synchronize (hs : w.Beside s s') : ∃ g g' us, s.synchronize = .ok g ∧
    s'.synchronize = .ok g' ∧ w.Beside g g' ∧ s.Passes us g := by
  obtain ⟨passed, ts, depth, hts⟩ := hs
  induction ts generalizing passed with
  | nil =>
    have hstop : resumesAt w.stop := by simp [resumesAt, w.ends]
    refine ⟨_, _, [], ?_, ?_, .mk passed [] depth hts, .refl _⟩
    · simp only [TokenStream.synchronize, List.nil_append, skip, hstop, Bool.or_true, if_true]
      rfl
    · simp only [TokenStream.synchronize, List.map_nil, List.nil_append, skip, w.resumes,
        Bool.or_true, if_true]
      rfl
  | cons t ts ih =>
    have hcloses : closes (passed.map (relocate w.move)) = closes passed := by
      cases passed <;> rfl
    have hresumes : resumesAt (t.relocate w.move) = resumesAt t := rfl
    cases hstop : closes passed || resumesAt t with
    | true =>
      refine ⟨_, _, [], ?_, ?_, .mk passed (t :: ts) depth hts, .refl _⟩
      · simp only [TokenStream.synchronize, List.cons_append, skip, hstop, if_true]
        rfl
      · simp only [TokenStream.synchronize, List.map_cons, List.cons_append, skip, hcloses,
          hresumes, hstop, if_true]
        rfl
    | false =>
      obtain ⟨g, g', us, hg, hg', hbeside, hp⟩ := ih (t :: passed) fun u hu =>
        hts u (List.mem_cons_of_mem _ hu)
      refine ⟨g, g', t :: us, ?_, ?_, hbeside,
        (Passes.one (hts t (List.mem_cons_self ..))).trans hp⟩
      · rw [← hg]
        simp only [TokenStream.synchronize, List.cons_append, skip, hstop, Bool.false_eq_true,
          if_false]
      · rw [← hg']
        simp only [TokenStream.synchronize, List.map_cons, List.cons_append, skip, hcloses,
          hresumes, hstop, Bool.false_eq_true, if_false]

/-- Readers beside each other have as many tokens left up to where their lists part. -/
theorem Beside.length_rest (hs : w.Beside s s') :
    s.rest.length + w.after'.length = s'.rest.length + w.after.length := by
  obtain ⟨passed, ts, depth, hts⟩ := hs
  simp only [List.length_append, List.length_cons, List.length_map]
  omega

/-- Readers that started a declaration beside each other and failed so go on beside each other. -/
theorem Beside.recover (ha : w.Beside a a') (hs : w.Beside s s')
    (hhead : ∃ t ∈ a.rest.head?, t.isEnd = false) {ts : List PlacedToken} (hp : a.Passes ts s) :
    ∃ g g', TokenStream.recover a s = .ok g ∧ TokenStream.recover a' s' = .ok g' ∧
      w.Beside g g' := by
  obtain ⟨g, g', us, hg, hg', hbeside, hp'⟩ := hs.synchronize
  have hlen := ha.length_rest
  have hlen' := hbeside.length_rest
  simp only [TokenStream.recover, hg, hg', Except.map]
  by_cases hlt : g.rest.length < a.rest.length
  · refine ⟨_, _, rfl, rfl, ?_⟩
    rwa [if_pos hlt, if_pos (by omega)]
  · refine ⟨_, _, rfl, rfl, ?_⟩
    rw [if_neg hlt, if_neg (by omega)]
    -- Nothing was read, so what is stepped over is the token that both started at.
    have hall := hp.trans hp'
    have hnil : ts ++ us = [] := List.eq_nil_of_length_eq_zero (by
      have := hall.length_rest
      omega)
    rw [hnil] at hall
    obtain rfl := hall.eq_of_nil
    obtain ⟨t, ht, he⟩ := hhead
    obtain ⟨passed, _ | ⟨u, us⟩, depth, hus⟩ := hbeside
    · obtain rfl : w.stop = t := by simpa using ht
      simp [w.ends] at he
    · exact .mk (u :: passed) us depth fun v hv => hus v (List.mem_cons_of_mem _ hv)

/-! ## Rounds -/

/-- The round that both readers part in, since the first one wanted more tokens: where the second
one failed, and at which report. -/
structure Misses (w : Pairing) (item : Item) (s' : TokenStream) (d' : Diagnostic)
    (failed : TokenStream) : Prop where
  apart : w.stop'.isEnd = false
  early : ∃ d, item = .rejected d ∧ d.cause.isEarlyEnd
  run : (Grammar.topDeclaration w.limit').run s' = .failed (.diagnostic d') failed
  passed : failed.passed.head? = some w.stop'
  rest : failed.rest = w.after'
  quoted : d'.cause.quoted? = some w.stop'.token
  span : d'.span = w.stop'.span

/-- The first reader met its limit, which the second one does not have. -/
def Exceeds (w : Pairing) (item : Item) : Prop :=
  w.limit < w.limit' ∧ ∃ d, item = .rejected d ∧ d.cause = .nesting w.limit

/-- A report that the source ended is given by both readers or by none. -/
def Ends (w : Pairing) (item : Item) : Prop :=
  ∀ d, item = .rejected d → d.cause.isEarlyEnd = false ∨ w.stop'.isEnd

/-- One round of both readers. They go on alike, unless the first one met its limit or wanted more
tokens. -/
theorem round_beside (hlimit : w.limit ≤ w.limit') (hs : w.Beside s s') (ready : s.Ready)
    {t : PlacedToken} {rest : List PlacedToken} (hr : s.rest = t :: rest) (ht : t.isEnd = false)
    {item : Item} (h : TokenStream.round w.limit s = .ok (item, g)) :
    (∃ g', TokenStream.round w.limit' s' = .ok (item.relocate w.move, g') ∧ w.Beside g g' ∧
        w.Ends item) ∨
      w.Exceeds item ∨ ∃ d' failed, w.Misses item s' d' failed ∧ g.rest = w.stop :: w.after := by
  have hrun := matches_topDeclaration hlimit hs hr ht
  generalize e' : (Grammar.topDeclaration w.limit').run s' = o' at hrun
  rw [TokenStream.round] at h
  cases e : (Grammar.topDeclaration w.limit).run s with
  | done st next =>
    rw [e] at h hrun
    cases h
    cases hrun with
    | done hst hnext =>
      exact .inl ⟨_, by rw [TokenStream.round, e', hst]; rfl, hnext, by rintro _ ⟨⟩⟩
  | failed why f =>
    obtain ⟨ts, hp, hb⟩ := (Grammar.ensures_topDeclaration w.limit ready).failed e
    obtain ⟨d, rfl, -⟩ := hb.reports
    rw [e] at h hrun
    dsimp only at h
    cases hrun with
    | failed hd hf =>
      obtain ⟨k, k', hk, hk', hbeside⟩ := hs.recover hf ⟨t, by simp [hr], ht⟩ hp
      rw [hk] at h
      cases h
      have read : TokenStream.round w.limit' s' = .ok (.rejected (d.relocate w.move), k') := by
        rw [TokenStream.round, e']
        simp only [hk']
        rfl
      exact .inl ⟨k', read, hbeside, by rintro _ ⟨⟩; exact hd⟩
    | @missed _ d' passed depth he hd hq hspan =>
      refine .inr (.inr ⟨d', _, ⟨he, ?_, e', rfl, rfl, hq, hspan⟩, ?_⟩)
      · cases hrec : TokenStream.recover s ⟨passed, w.stop :: w.after, depth⟩ with
        | error fault => simp [hrec, Except.map] at h
        | ok k =>
          rw [hrec] at h
          cases h
          exact ⟨d, rfl, hd⟩
      · -- There were tokens before the end mark, so the rule has read them.
        have hlt : (w.stop :: w.after).length < s.rest.length := by
          obtain ⟨_, _ | ⟨u, us⟩, _, hus⟩ := hs
          · cases hr
            simp [w.ends] at ht
          · simp only [List.length_append, List.length_cons]
            omega
        have hstop : resumesAt w.stop := by simp [resumesAt, w.ends]
        rw [recover_eq hlt, TokenStream.synchronize] at h
        simp only [skip, hstop, Bool.or_true, if_true, Except.map, Except.ok.injEq,
          Prod.mk.injEq] at h
        rw [← h.2]
    | excused hd hlt =>
      cases hrec : TokenStream.recover s f with
      | error fault => simp [hrec, Except.map] at h
      | ok k =>
        rw [hrec] at h
        cases h
        exact .inr (.inl ⟨hlt, d, rfl, hd⟩)

/-- All rounds of the first reader. Unless it met its limit, the second one goes through the same,
except for the last one if the first reader wanted more tokens there. -/
theorem rounds_beside (hlimit : w.limit ≤ w.limit') {items : List Item}
    {ranges : List (List PlacedToken)} {e : TokenStream} (h : Rounds w.limit s items ranges e)
    (hs : w.Beside s s') (closed : s.Closed) (he : e.rest = w.stop :: w.after)
    (hfit : ∀ item ∈ items, ¬ w.Exceeds item) :
    (∃ e', Rounds w.limit' s' (items.map (Item.relocate w.move))
        (ranges.map (List.map (relocate w.move))) e' ∧ w.Beside e e' ∧
        ∀ item ∈ items, w.Ends item) ∨
      ∃ before last ranges' m' d' failed, items = before ++ [last] ∧
        Rounds w.limit' s' (before.map (Item.relocate w.move)) ranges' m' ∧
        (∃ t ∈ m'.rest.head?, t.isEnd = false) ∧ w.Misses last m' d' failed := by
  induction h generalizing s' with
  | nil s => exact .inl ⟨s', .nil s', hs, by simp⟩
  | @cons s g e t rest ts item items ranges hr ht hround hp hrounds ih =>
    obtain ⟨rest', hr', -⟩ := hs.uncons hr ht
    obtain ⟨g', hround', hg, hends⟩ | hexceeds | ⟨d', failed, hmiss, hg⟩ :=
      round_beside hlimit hs closed.ready hr ht hround
    · have hp' := hs.passes hg hp
      obtain ⟨e', hrounds', hbeside, hall⟩ | ⟨before, last, ranges', m', d', failed, rfl, hrounds',
        hm, hmiss⟩ := ih hg (closed.passes hp) he fun i hi => hfit i (List.mem_cons_of_mem _ hi)
      · exact .inl ⟨e', .cons hr' ht hround' hp' hrounds', hbeside,
          List.forall_mem_cons.mpr ⟨hends, hall⟩⟩
      · exact .inr ⟨item :: before, last, _ :: ranges', m', d', failed, rfl,
          .cons hr' ht hround' hp' hrounds', hm, hmiss⟩
    · exact absurd hexceeds (hfit item (List.mem_cons_self ..))
    · cases hrounds with
      | nil =>
        exact .inr ⟨[], item, [], s', d', failed, rfl, .nil s',
          ⟨t.relocate w.move, by simp [hr'], ht⟩, hmiss⟩
      | cons hr₁ ht₁ =>
        cases hg.symm.trans hr₁
        simp [w.ends] at ht₁

end Pairing

/-! ## Whole programs -/

/-- Tokens have one first end mark at most. -/
private theorem eq_of_append_isEnd {ts us after after' : List PlacedToken}
    {stop stop' : PlacedToken}
    (h : ts ++ stop :: after = us ++ stop' :: after') (hts : ∀ t ∈ ts, t.isEnd = false)
    (hus : ∀ u ∈ us, u.isEnd = false) (hstop : stop.isEnd) (hstop' : stop'.isEnd) :
    ts = us ∧ stop = stop' ∧ after = after' := by
  induction ts generalizing us with
  | nil =>
    cases us with
    | nil => simpa using h
    | cons u us =>
      rw [(List.cons.inj h).1, hus u (List.mem_cons_self ..)] at hstop
      cases hstop
  | cons t ts ih =>
    cases us with
    | nil =>
      rw [← (List.cons.inj h).1, hts t (List.mem_cons_self ..)] at hstop'
      cases hstop'
    | cons u us =>
      obtain ⟨rfl, htail⟩ := List.cons.inj h
      obtain ⟨rfl, hstops⟩ := ih htail (fun v hv => hts v (List.mem_cons_of_mem _ hv)) fun v hv =>
        hus v (List.mem_cons_of_mem _ hv)
      exact ⟨rfl, hstops⟩

/-- A stream is read in rounds up to its first end mark. -/
theorem TokenStream.Closed.exists_rounds (limit : Int) {s : TokenStream} (hs : s.Closed) :
    ∃ items ranges stop after, stop.isEnd ∧ s.rest = ranges.flatten ++ stop :: after ∧
      (∀ t ∈ ranges.flatten, t.isEnd = false) ∧ ∃ e, Rounds limit s items ranges e ∧
        e.rest = stop :: after := by
  obtain ⟨items, ranges, e, hrounds, hend⟩ := TokenStream.exists_rounds limit hs.guarded
  obtain ⟨stop, after, hr⟩ :=
    List.exists_cons_of_ne_nil (hs.passes hrounds.passes).ready.rest_ne_nil
  exact ⟨items, ranges, stop, after, hend stop (by simp [hr]), hr ▸ hrounds.passes.rest,
    hrounds.passes.noEnd, e, hrounds, hr⟩

/-- A stream whose first end mark is known is read in rounds up to it. -/
theorem TokenStream.Closed.exists_rounds_of_rest (limit : Int) {s : TokenStream} (hs : s.Closed)
    {ts after : List PlacedToken} {stop : PlacedToken} (hrest : s.rest = ts ++ stop :: after)
    (hts : ∀ t ∈ ts, t.isEnd = false) (hstop : stop.isEnd) :
    ∃ items ranges e, Rounds limit s items ranges e ∧ e.rest = stop :: after := by
  obtain ⟨items, ranges, stop', after', hstop', hrest', inside, e, hrounds, he⟩ :=
    hs.exists_rounds limit
  obtain ⟨-, rfl, rfl⟩ := eq_of_append_isEnd (hrest.symm.trans hrest') hts inside hstop hstop'
  exact ⟨items, ranges, e, hrounds, he⟩

/-- Readers of the same tokens, the second one elsewhere. -/
def Pairing.elsewhere (f : Location → Location) {stop : PlacedToken} (ends : stop.isEnd)
    (after : List PlacedToken) (limit limit' : Int) : Pairing where
  move := f
  stop := stop
  after := after
  stop' := stop.relocate f
  after' := after.map (PlacedToken.relocate f)
  limit := limit
  limit' := limit'
  ends := ends
  resumes := Bool.or_eq_true_iff.mpr (.inl ends)
  moved _ := rfl

/-- Parsing moved tokens, with a limit that is larger if the first one was not met, gives the same
statements and reports, moved. -/
theorem parse_relocate_of_limit_le (f : Location → Location) {tokens : List PlacedToken}
    {limit limit' : Int} (placed : ∀ t ∈ tokens, t.span.isSome) (ended : ∃ t ∈ tokens, t.isEnd)
    (hlimit : limit ≤ limit') {p : Parsed} (parsed : parse tokens limit = .ok p)
    (fits : limit < limit' → ∀ d ∈ p.errors, d.cause ≠ .nesting limit) :
    parse (tokens.map (PlacedToken.relocate f)) limit' = .ok (p.relocate f) := by
  have closed := closed_ofTokens placed ended
  obtain ⟨items, ranges, stop, after, hstop, hrest, inside, e, hrounds, he⟩ :=
    closed.exists_rounds limit
  obtain rfl : Parsed.ofItems items = p :=
    Except.ok.inj ((parse_eq (hrounds.items_eq he hstop)).symm.trans parsed)
  have beside : (Pairing.elsewhere f hstop after limit limit').Beside (.ofTokens tokens)
      (.ofTokens (tokens.map (PlacedToken.relocate f))) := by
    rw [TokenStream.ofTokens, TokenStream.ofTokens,
      PlacedToken.filter_relocate f (· != .whitespace) tokens, show tokens.filter _ = _ from hrest,
      List.map_append, List.map_cons]
    exact .mk [] ranges.flatten 0 inside
  obtain ⟨e', hrounds', hbeside, -⟩ | ⟨_, _, _, _, _, _, -, -, -, hmiss⟩ :=
    Pairing.rounds_beside hlimit hrounds beside closed he (by
      rintro item hitem ⟨hlt, d, rfl, hd⟩
      exact fits hlt d (List.mem_filterMap.mpr ⟨_, hitem, rfl⟩) hd)
  · exact (parse_eq (hrounds'.items_eq (hbeside.rest_eq he) hstop)).trans
      (congrArg Except.ok (Parsed.ofItems_relocate f items))
  · cases hmiss.apart.symm.trans hstop

/-- Moving tokens moves what parsing them gives. -/
theorem parse_relocate (f : Location → Location) {tokens : List PlacedToken} {limit : Int}
    (placed : ∀ t ∈ tokens, t.span.isSome) (ended : ∃ t ∈ tokens, t.isEnd) {p : Parsed}
    (parsed : parse tokens limit = .ok p) :
    parse (tokens.map (PlacedToken.relocate f)) limit = .ok (p.relocate f) :=
  parse_relocate_of_limit_le f placed ended (Int.le_refl limit) parsed fun hlt =>
    absurd hlt (Int.lt_irrefl limit)

/-- A larger limit on nesting changes nothing where the limit was not met. -/
theorem parse_of_limit_le {tokens : List PlacedToken} {limit limit' : Int}
    (placed : ∀ t ∈ tokens, t.span.isSome) (ended : ∃ t ∈ tokens, t.isEnd)
    (hlimit : limit ≤ limit') {p : Parsed} (parsed : parse tokens limit = .ok p)
    (fits : ∀ d ∈ p.errors, d.cause ≠ .nesting limit) : parse tokens limit' = .ok p := by
  simpa using parse_relocate_of_limit_le id placed ended hlimit parsed fun _ => fits

end Lox
