import Lox.Proofs.Source.Relocation
import Lox.Proofs.Syntax.Acceptance

/-!
# Programs at other places

What is derived from some tokens is derived from the same tokens elsewhere, with its own spans moved
alike. So a program without reports stays one wherever its tokens stand, and so do two of them
together.

* `Expr.relocate`, `Stmt.relocate`: trees with their locations moved.
* `Derives.relocate`, `StmtDerives.relocate`: they are derived from the moved tokens.
* `Ended`: tokens that a program can be read from to its end.
* `Ended.parse_relocate`: a program elsewhere.
* `Ended.parse_behind`: a program behind another one.
-/

namespace Lox

/-! ## Trees -/

/-- The expression with its locations moved. -/
def Expr.relocate (f : Location → Location) : Expr → Expr
  | literal v a => literal v (a.map (Span.relocate f))
  | named n a => named n (a.map (Span.relocate f))
  | grouping e a => grouping (e.relocate f) (a.map (Span.relocate f))
  | unary o e a => unary o (e.relocate f) (a.map (Span.relocate f))
  | binary l o r a => binary (l.relocate f) o (r.relocate f) (a.map (Span.relocate f))
  | ternary c t e a =>
    ternary (c.relocate f) (t.relocate f) (e.relocate f) (a.map (Span.relocate f))
  | stray s => stray s

@[simp]
theorem Expr.span_relocate (f : Location → Location) (e : Expr) :
    (e.relocate f).span = e.span.map (Span.relocate f) := by
  cases e <;> rfl

/-- The statement with its locations moved. -/
def Stmt.relocate (f : Location → Location) : Stmt → Stmt
  | expression e a => expression (e.relocate f) (a.map (Span.relocate f))
  | print e a => print (e.relocate f) (a.map (Span.relocate f))
  | declaration n e a => declaration n (e.map (Expr.relocate f)) (a.map (Span.relocate f))
  | stray s => stray s

@[simp]
theorem Stmt.span_relocate (f : Location → Location) (st : Stmt) :
    (st.relocate f).span = st.span.map (Span.relocate f) := by
  cases st <;> rfl

/-! ## Derivations -/

theorem Expr.placed_relocate {e : Expr} {a : Span} (h : e.span = some a) (f : Location → Location) :
    (e.relocate f).span = some (a.relocate f) := by
  rw [span_relocate, h]
  rfl

open PlacedToken (token_relocate isSome_span_relocate)

theorem Derives.relocate {l : Level} {room : Nat} {e : Expr} {ts : List PlacedToken}
    (h : Derives l room e ts) (f : Location → Location) :
    Derives l room (e.relocate f) (ts.map (PlacedToken.relocate f)) := by
  induction h with
  | @literal _ t _ h => exact .literal (t := t.relocate f) h
  | named name a => exact .named name _
  | grouping a b _ ih =>
    rw [List.map_append]
    exact .grouping (a.relocate f) (b.relocate f) ih
  | @unary _ _ _ _ a _ ho _ hb ih =>
    exact .unary (a := a.relocate f) ho ih (Expr.placed_relocate hb f)
  | binary ho _ ht _ ha hb ihl ihr =>
    rw [List.map_append]
    exact .binary ho ihl (token_relocate ht f) ihr (Expr.placed_relocate ha f)
      (Expr.placed_relocate hb f)
  | ternary _ hq _ hc _ ha hb ihc iht ihf =>
    rw [List.map_append, List.map_cons, List.map_append]
    exact .ternary ihc (token_relocate hq f) iht (token_relocate hc f) ihf
      (Expr.placed_relocate ha f) (Expr.placed_relocate hb f)
  | lift _ ih => exact .lift ih

theorem StmtDerives.relocate {levels : Nat} {st : Stmt} {ts : List PlacedToken}
    (h : StmtDerives levels st ts) (f : Location → Location) :
    StmtDerives levels (st.relocate f) (ts.map (PlacedToken.relocate f)) := by
  cases h with
  | expression h hstop ha hb =>
    rw [List.map_append]
    exact .expression (h.relocate f) (token_relocate hstop f) (Expr.placed_relocate ha f)
      (PlacedToken.placed_relocate hb f)
  | print hk h hstop ha hb =>
    rw [List.map_cons, List.map_append]
    exact .print (token_relocate hk f) (h.relocate f) (token_relocate hstop f)
      (PlacedToken.placed_relocate ha f) (PlacedToken.placed_relocate hb f)
  | bare name c hk hstop ha hb =>
    exact .bare name _ (token_relocate hk f) (token_relocate hstop f)
      (PlacedToken.placed_relocate ha f) (PlacedToken.placed_relocate hb f)
  | declaration name c hk he h hstop ha hb =>
    rw [List.map_cons, List.map_cons, List.map_cons, List.map_append]
    exact .declaration name _ (token_relocate hk f) (token_relocate he f) (h.relocate f)
      (token_relocate hstop f) (PlacedToken.placed_relocate ha f) (PlacedToken.placed_relocate hb f)

/-! ## Programs without reports -/

/-- The tokens have places, and an end mark stands behind them but none among them. -/
structure Ended (ts : List PlacedToken) (stop : PlacedToken) : Prop where
  stops : stop.isEnd
  inside : ∀ t ∈ ts, t.isEnd = false
  placed : ∀ t ∈ ts ++ [stop], t.span.isSome

namespace Ended

variable {limit : Int} {ts us : List PlacedToken} {stop stop' : PlacedToken}
  {statements statements' : List Stmt}

theorem relocate (h : Ended ts stop) (f : Location → Location) :
    Ended (ts.map (PlacedToken.relocate f)) (stop.relocate f) where
  stops := h.stops
  inside := List.forall_mem_map.mpr h.inside
  placed := by
    rw [← List.map_singleton, ← List.map_append]
    exact List.forall_mem_map.mpr fun t mem => isSome_span_relocate (h.placed t mem) f

theorem append (h : Ended ts stop) (h' : Ended us stop') : Ended (ts ++ us) stop' where
  stops := h'.stops
  inside := List.forall_mem_append.mpr ⟨h.inside, h'.inside⟩
  placed := by
    rw [List.append_assoc]
    exact List.forall_mem_append.mpr ⟨(List.forall_mem_append.mp h.placed).1, h'.placed⟩

/-- A program without reports stays one elsewhere. -/
theorem parse_relocate (h : Ended ts stop)
    (parsed : parse (ts ++ [stop]) limit = .ok ⟨statements, []⟩)
    (f : Location → Location) :
    parse (ts.map (PlacedToken.relocate f) ++ [stop.relocate f]) limit =
      .ok ⟨statements.map (Stmt.relocate f), []⟩ := by
  obtain ⟨ranges, derived, flat⟩ := (parse_eq_ok_iff h.stops h.inside h.placed).mp parsed
  obtain ⟨stops, inside, placed⟩ := h.relocate f
  refine (parse_eq_ok_iff stops inside placed).mpr
    ⟨ranges.map (List.map (PlacedToken.relocate f)), ?_, ?_⟩
  · rw [List.forall₂_map_left_iff, List.forall₂_map_right_iff]
    exact derived.imp fun _ _ h => h.relocate f
  · rw [← List.map_flatten, flat]
    exact (PlacedToken.filter_relocate f (· != .whitespace) ts).symm

/-- Two programs without reports are one together. -/
theorem parse_behind (h : Ended ts stop) (h' : Ended us stop')
    (parsed : parse (ts ++ [stop]) limit = .ok ⟨statements, []⟩)
    (parsed' : parse (us ++ [stop']) limit = .ok ⟨statements', []⟩) :
    parse (ts ++ us ++ [stop']) limit = .ok ⟨statements ++ statements', []⟩ := by
  obtain ⟨ranges, derived, flat⟩ := (parse_eq_ok_iff h.stops h.inside h.placed).mp parsed
  obtain ⟨ranges', derived', flat'⟩ := (parse_eq_ok_iff h'.stops h'.inside h'.placed).mp parsed'
  obtain ⟨stops, inside, placed⟩ := h.append h'
  refine (parse_eq_ok_iff stops inside placed).mpr
    ⟨ranges ++ ranges', List.rel_append derived derived', ?_⟩
  rw [List.flatten_append, flat, flat', List.filter_append]

end Ended

/-- White space does not matter to the parser. -/
theorem parse_whitespace {limit : Int} {t : PlacedToken} (h : t.kind = .whitespace)
    (ts us : List PlacedToken) : parse (ts ++ t :: us) limit = parse (ts ++ us) limit := by
  simp [parse, TokenStream.ofTokens, h]

end Lox
