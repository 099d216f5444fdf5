import Lox.Proofs.Syntax.Printing

/-!
# Expressions side by side

Expressions that are put side by side with an operator between them, and no parentheses, are one
expression: which operand goes to which operator is decided by the levels. The same holds for an
operator before an expression. Trees are told by what they print, so that nothing is said about how
the operands are shared out.

* `Expr.exists_attached`: a tighter operand goes to the right end of an expression.
* `Expr.exists_joined`: two expressions with an operator between them.
* `Expr.exists_prefixed`: an expression with an operator before it.
-/

namespace Lox

open Token (space)

namespace Expr

/-- An expression that is no choice: it may stand beside any operator. -/
structure Operand (e : Expr) : Prop where
  shaped : e.Shaped
  level : Level.equality.rank ≤ e.level.rank

/-- The levels of operators between operands lie between equalities and unary expressions. -/
theorem rank_of_operator {o : TokenKind} {k : Level} (h : Level.ofOperator? o = some k) :
    Level.equality.rank ≤ k.rank ∧ k.rank < Level.unary.rank := by
  unfold Level.ofOperator? at h
  split at h <;> cases h <;> decide

theorem level_binary {l r : Expr} {o : TokenKind} {k : Level} {a : Option Span}
    (h : Level.ofOperator? o = some k) : (binary l o r a).level = k := by
  rw [level, h, Option.getD_some]

/-- What is looser than a unary expression and no choice has an operator between two operands. -/
theorem Operand.exists_binary {e : Expr} (h : e.Operand) (loose : e.level.rank < Level.unary.rank) :
    ∃ l o r a k, e = binary l o r a ∧ Level.ofOperator? o = some k ∧ k.rank ≤ l.level.rank ∧
      k.rank < r.level.rank ∧ l.Operand ∧ r.Operand := by
  obtain ⟨shaped, level⟩ := h
  cases e with
  | literal | named | grouping | stray => exact absurd loose (show ¬ 6 < 5 by decide)
  | unary => exact absurd loose (Nat.lt_irrefl _)
  | ternary => exact absurd level (show ¬ 1 ≤ 0 by decide)
  | binary l o r a =>
    obtain ⟨⟨k, operator, left, right⟩, hl, hr⟩ := shaped
    obtain ⟨equality, -⟩ := rank_of_operator operator
    exact ⟨l, o, r, a, k, rfl, operator, left, right, ⟨hl, by omega⟩, ⟨hr, by omega⟩⟩

/-- An operator and an operand that is tighter than it go to the right end of an expression, down to
the operand that they bind. -/
theorem exists_attached {e r : Expr} (he : e.Operand) (hr : r.Operand) {o : TokenKind} {k : Level}
    (operator : Level.ofOperator? o = some k) (tighter : k.rank < r.level.rank) :
    ∃ j : Expr, j.Operand ∧ j.level.rank = min e.level.rank k.rank ∧
      j.nesting = max e.nesting r.nesting ∧
      j.printed = e.printed ++ space :: (o.tokens ++ space :: r.printed) := by
  obtain ⟨equality, unary⟩ := rank_of_operator operator
  by_cases binds : k.rank ≤ e.level.rank
  · refine ⟨binary e o r none, ⟨⟨⟨k, operator, binds, tighter⟩, he.shaped, hr.shaped⟩, ?_⟩, ?_, rfl,
      rfl⟩
    · rw [level_binary operator]
      exact equality
    · rw [level_binary operator]
      omega
  · obtain ⟨l, o', r', a, k', rfl, operator', left, right, hl, hr'⟩ := he.exists_binary (by omega)
    rw [level_binary operator'] at binds
    obtain ⟨j, hj, level, nesting, printed⟩ := exists_attached hr' hr operator tighter
    refine ⟨binary l o' j none,
      ⟨⟨⟨k', operator', left, by omega⟩, hl.shaped, hj.shaped⟩, ?_⟩, ?_, ?_, ?_⟩
    · rw [level_binary operator']
      exact (rank_of_operator operator').1
    · rw [level_binary operator', level_binary operator']
      omega
    · simp only [Expr.nesting, nesting]
      omega
    · simp only [Expr.printed, printed, List.append_assoc, List.cons_append]
termination_by e

/-- Two expressions with an operator between them are one. -/
theorem exists_joined {l r : Expr} (hl : l.Operand) (hr : r.Operand) {o : TokenKind} {k : Level}
    (operator : Level.ofOperator? o = some k) :
    ∃ j : Expr, j.Operand ∧ j.nesting = max l.nesting r.nesting ∧
      j.printed = l.printed ++ space :: (o.tokens ++ space :: r.printed) := by
  by_cases tighter : k.rank < r.level.rank
  · obtain ⟨j, hj, -, nesting, printed⟩ := exists_attached hl hr operator tighter
    exact ⟨j, hj, nesting, printed⟩
  · -- The first operand on the right is joined first, and what is behind it is attached to that.
    obtain ⟨-, unary⟩ := rank_of_operator operator
    obtain ⟨l', o', r', a, k', rfl, operator', left, right, hl', hr'⟩ := hr.exists_binary (by omega)
    obtain ⟨j, hj, nesting, printed⟩ := exists_joined hl hl' operator
    obtain ⟨j', hj', -, nesting', printed'⟩ := exists_attached hj hr' operator' right
    refine ⟨j', hj', ?_, ?_⟩
    · simp only [Expr.nesting, nesting', nesting]
      omega
    · simp only [Expr.printed, printed', printed, List.append_assoc, List.cons_append]
termination_by r

/-- An operator before an expression goes to the first of its operands. -/
theorem exists_prefixed {e : Expr} (he : e.Operand) {o : TokenKind}
    (operator : o = .mark .bang ∨ o = .mark .minus) :
    ∃ j : Expr, j.Operand ∧ j.level.rank = min e.level.rank Level.unary.rank ∧
      j.nesting ≤ e.nesting + 1 ∧ j.printed = o.tokens ++ e.printed := by
  by_cases tight : Level.unary.rank ≤ e.level.rank
  · refine ⟨.unary o e none, ⟨⟨operator, tight, he.shaped⟩, show 1 ≤ 5 by decide⟩, ?_,
      Nat.le_refl _, rfl⟩
    show Level.unary.rank = _
    omega
  · obtain ⟨l, o', r, a, k, rfl, operator', left, right, hl, hr⟩ := he.exists_binary (by omega)
    rw [level_binary operator'] at tight
    obtain ⟨j, hj, level, nesting, printed⟩ := exists_prefixed hl operator
    refine ⟨binary j o' r none,
      ⟨⟨⟨k, operator', by omega, right⟩, hj.shaped, hr.shaped⟩, ?_⟩, ?_, ?_, ?_⟩
    · rw [level_binary operator']
      exact (rank_of_operator operator').1
    · rw [level_binary operator', level_binary operator']
      omega
    · simp only [Expr.nesting]
      omega
    · simp only [Expr.printed, printed, List.append_assoc]
termination_by e

end Expr

end Lox
