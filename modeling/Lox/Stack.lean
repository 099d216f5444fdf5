/-!
# The stack

Trees are walked by recursion, and recursion has a limit. Long chains of operators make trees that
are deeper than the parser's limit on nesting sees, so walking them is bounded by the number of
frames that a walk may have open at once. So is a walk over the scopes around a scope.

How many frames that is depends on who calls: those who called before hold frames of their own. It
is therefore a parameter of all that walks, and what holds of a walk holds for every number of
frames.
-/

namespace Lox

/-- The stack that a walk starts on. -/
class Stack where
  /-- The number of frames that the walk may have open. -/
  frames : Nat

/-- The number of frames of a stack that nobody has called on yet. -/
def stackFrames : Nat := 1000

instance : Stack := ⟨stackFrames⟩

end Lox
