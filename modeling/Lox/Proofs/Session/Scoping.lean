import Lox.Proofs.Session.Effects

/-!
# Names that are declared before they are used

A run reports a name as undefined only if the name stands in an expression and nothing has given it
a value before. So a program that declares every name before it uses it never gets such a report,
whatever else goes wrong in it.

* `Stop.undefined?`: the name that an evaluation stopped at because it means nothing.
* `Expr.undefined_of_eval`: it is a name of the expression, and it means nothing.
* `Scoped`: every name in a statement is declared by one before.
* `ReadsAs.run_scoped`: such a program finishes, or it reports something else.
-/

namespace Lox

/-! ## Evaluation -/

/-- The name that an evaluation stopped at because it means nothing. -/
def Stop.undefined? : Stop → Option String
  | .diagnostic ⟨.undefinedVariable name, _⟩ => some name
  | _ => none

namespace Expr

variable {stop : Stop}

theorem undefined_applyUnary {o : TokenKind} {v : Value} {a : Option Span}
    (failed : applyUnary o v a = .error stop) : stop.undefined? = none := by
  obtain ⟨m, rfl⟩ | rfl := applyUnary_eq_error failed
  · rfl
  · rfl

theorem undefined_applyBinary {o : TokenKind} {v w : Value} {a : Option Span}
    (failed : applyBinary o v w a = .error stop) : stop.undefined? = none := by
  obtain ⟨m, rfl⟩ | rfl := applyBinary_eq_error failed
  · rfl
  · rfl

theorem undefined_descend {cost frames : Nat} {walk : Nat → Except Stop Value} {n : String}
    {p : Prop} (h : ∀ k, walk k = .error stop → p) (failed : descend cost frames walk = .error stop)
    (undefined : stop.undefined? = some n) : p := by
  obtain rfl | ⟨k, -, failed⟩ := descend_eq_error failed
  · cases undefined
  · exact h k failed

/-- A name that an evaluation stops at because it means nothing stands in the expression. -/
theorem undefined_of_eval {e : Expr} {lookup : String → Option Value} {frames : Nat} {n : String}
    (failed : e.eval lookup frames = .error stop) (undefined : stop.undefined? = some n) :
    .identifier n ∈ e.yield ∧ lookup n = none := by
  induction e generalizing frames with
  | literal => cases failed
  | named name =>
    rw [eval] at failed
    split at failed
    · cases failed
    · rename_i none
      cases failed
      cases undefined
      exact ⟨List.mem_cons_self, none⟩
  | grouping e a ih =>
    obtain ⟨mem, none⟩ := undefined_descend (fun _ => ih) failed undefined
    exact ⟨by simp [yield, mem], none⟩
  | unary o e a ih =>
    obtain failed | ⟨v, -, failed⟩ := Except.bind_eq_error.mp failed
    · obtain ⟨mem, none⟩ := undefined_descend (fun _ => ih) failed undefined
      exact ⟨by simp [yield, mem], none⟩
    · cases (undefined_applyUnary failed).symm.trans undefined
  | binary l o r a left right =>
    obtain failed | ⟨v, -, failed⟩ := Except.bind_eq_error.mp failed
    · obtain ⟨mem, none⟩ := undefined_descend (fun _ => left) failed undefined
      exact ⟨by simp [yield, mem], none⟩
    obtain failed | ⟨w, -, failed⟩ := Except.bind_eq_error.mp failed
    · obtain ⟨mem, none⟩ := undefined_descend (fun _ => right) failed undefined
      exact ⟨by simp [yield, mem], none⟩
    · cases (undefined_applyBinary failed).symm.trans undefined
  | ternary c t f a condition whenTrue whenFalse =>
    obtain failed | ⟨v, -, failed⟩ := Except.bind_eq_error.mp failed
    · obtain ⟨mem, none⟩ := undefined_descend (fun _ => condition) failed undefined
      exact ⟨by simp [yield, mem], none⟩
    split at failed
    · obtain ⟨mem, none⟩ := undefined_descend (fun _ => whenTrue) failed undefined
      exact ⟨by simp [yield, mem], none⟩
    · obtain ⟨mem, none⟩ := undefined_descend (fun _ => whenFalse) failed undefined
      exact ⟨by simp [yield, mem], none⟩
    · cases failed
      cases undefined
  | stray =>
    cases failed
    cases undefined

end Expr

/-- A name that a statement stops at because it means nothing stands in its expression. -/
theorem Stmt.undefined_of_value [Stack] {st : Stmt} {lookup : String → Option Value} {stop : Stop}
    {n : String} (failed : st.value lookup = .error stop) (undefined : stop.undefined? = some n) :
    ∃ e ∈ st.body?, .identifier n ∈ e.yield ∧ lookup n = none := by
  match st with
  | expression e _ | print e _ | declaration _ (some e) _ =>
    exact ⟨e, rfl, Expr.undefined_of_eval failed undefined⟩
  | declaration _ none _ => cases failed
  | stray _ =>
    cases failed
    cases undefined

/-! ## Programs -/

/-- Every name in a statement is declared by a statement before it. -/
def Scoped (statements : List Stmt) : Prop :=
  ∀ before st after, statements = before ++ st :: after → ∀ e ∈ st.body?, ∀ n,
    .identifier n ∈ e.yield → ∃ d ∈ before, d.declared? = some n

/-- Statements that differ in their spans at most have the same tokens in their expressions. -/
theorem Stmt.exists_body_of_bare {st st' : Stmt} (same : st.bare = st'.bare) {e : Expr}
    (body : e ∈ st.body?) : ∃ e' ∈ st'.body?, e'.yield = e.yield := by
  have bodies (st : Stmt) : st.bare.body? = st.body?.map Expr.bare := by cases st <;> rfl
  have mapped : st'.body?.map Expr.bare = some e.bare := by
    rw [← bodies, ← same, bodies, body, Option.map_some]
  obtain ⟨e', body', bare⟩ := Option.map_eq_some_iff.mp mapped
  exact ⟨e', body', by rw [← e'.yield_bare, bare, e.yield_bare]⟩

/-- Spans do not matter for what is declared and used. -/
theorem Scoped.of_bare {ss ts : List Stmt} (h : Scoped ss)
    (same : ts.map Stmt.bare = ss.map Stmt.bare) :
    Scoped ts := by
  have declared (st : Stmt) : st.bare.declared? = st.declared? := by cases st <;> rfl
  rintro before st after rfl e body n mem
  rw [List.map_append, List.map_cons] at same
  obtain ⟨before', rest, rfl, front, split⟩ := List.map_eq_append_iff.mp same.symm
  obtain ⟨st', after', rfl, bare, -⟩ := List.map_eq_cons_iff.mp split
  obtain ⟨e', body', yield⟩ := Stmt.exists_body_of_bare bare.symm body
  obtain ⟨d', among, name⟩ := h before' st' after' rfl e' body' n (yield ▸ mem)
  obtain ⟨d, mem, same⟩ := List.mem_map.mp (front ▸ List.mem_map_of_mem among)
  exact ⟨d, mem, by rw [← declared, same, declared, name]⟩

/-- What a statement of a history declares has a value. -/
theorem History.isSome_lookup {h : History} {st : Stmt} (mem : st ∈ h.statements) {n : String}
    (declared : st.declared? = some n) (globals : Bindings) : (h.lookup globals n).isSome := by
  obtain ⟨⟨st, v⟩, ran, rfl⟩ := List.mem_map.mp mem
  have found : (h.declared? n).isSome := by
    rw [declared?, Option.isSome_map, List.findRev?_eq_find?_reverse, List.find?_isSome]
    exact ⟨(st, v), List.mem_reverse.mpr ran, beq_iff_eq.mpr declared⟩
  rw [lookup, Option.isSome_or, found, Bool.true_or]

/-- A program that declares every name before it uses it finishes, or it reports something else than
a name that means nothing. -/
theorem ReadsAs.run_scoped [Segmenter] [Stack] {text : String} {limit : Int}
    {statements : List Stmt} (h : ReadsAs text limit statements) (known : Scoped statements)
    (globals : Bindings) :
    let r := Lox.run globals text limit
    r.ending = .finished ∨
      ∃ d, r.ending = .stopped .runtime [d] ∧ ∀ n, d.cause ≠ .undefinedVariable n := by
  intro r
  obtain ⟨p, parsed, evaluable⟩ := exists_evaluable text limit
  obtain rfl : p = ⟨statements, []⟩ := Except.ok.inj (parsed.symm.trans h.parsed)
  obtain ⟨-, -, ending⟩ := h.run globals
  obtain ⟨done, rest, split, -, -, -, ended, failed⟩ := exists_history globals statements
  cases rest with
  | nil =>
    rw [ended.mpr rfl] at ending
    exact .inl ending
  | cons st rest =>
    obtain ⟨stop, stopped, failure⟩ := failed st rfl
    obtain ⟨d, report, -⟩ := kind_of_execute evaluable failure
    rw [failure, report] at ending
    refine .inr ⟨d, ending, fun n undefined => ?_⟩
    have name : stop.undefined? = some n := by
      obtain ⟨cause, span⟩ := d
      cases undefined
      cases stop with
      | diagnostic d => cases report; rfl
      | fault f => cases report
      | exhausted => cases report
    obtain ⟨e, body, mem, none⟩ := Stmt.undefined_of_value stopped name
    obtain ⟨declaration, before, declared⟩ := known _ _ _ split e body n mem
    have some := History.isSome_lookup before declared globals
    rw [none] at some
    cases some

end Lox
