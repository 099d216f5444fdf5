/-!
# Draws

A random value is a tree of draws: each draw is of a fraction or of a number up to a bound, and what
is drawn decides how it goes on. The tree does not say where the numbers come from, so what holds on
all of its branches holds for every source of random numbers.

* `Draw`: a value that depends on draws.
* `Randomness`: a source of random numbers.
* `Draw.run`: the value for what a source gives.
* `Draw.between`, `Draw.oneOf`, `Draw.chance`, `Draw.times`: the usual draws.
-/

namespace Lox.Corpus

/-- A value that depends on draws. -/
inductive Draw (α : Type) where
  | done (a : α)
  /-- A fraction of one is drawn. -/
  | fraction (next : Float → Draw α)
  /-- A number that is at most the bound is drawn. -/
  | upTo (bound : Nat) (next : Fin (bound + 1) → Draw α)

/-- A source of random numbers, with states `σ`. -/
structure Randomness (σ : Type) where
  fraction : σ → Float × σ
  upTo : (bound : Nat) → σ → Fin (bound + 1) × σ

namespace Draw

/-- One value, and another that depends on it. -/
def bind : Draw α → (α → Draw β) → Draw β
  | done a, f => f a
  | fraction next, f => .fraction fun x => (next x).bind f
  | upTo bound next, f => .upTo bound fun n => (next n).bind f

instance : Monad Draw where
  pure := done
  bind := bind

/-- The value for what a source gives, and the source afterwards. -/
def run (r : Randomness σ) : Draw α → σ → α × σ
  | done a, s => (a, s)
  | fraction next, s =>
    let (x, s) := r.fraction s
    (next x).run r s
  | upTo bound next, s =>
    let (n, s) := r.upTo bound s
    (next n).run r s

/-- A whole number from `low` up to `low + width`. -/
def between (low width : Nat) : Draw Nat := upTo width fun n => done (low + n)

/-- One of some values. -/
def oneOf (a : α) (more : List α) : Draw α := upTo more.length fun n => done ((a :: more).get n)

/-- Whether a drawn fraction is below another. -/
def chance (limit : Float) : Draw Bool := fraction fun x => done (x < limit)

/-- As many values as are asked for, drawn one after another. -/
def times : Nat → Draw α → Draw (List α)
  | 0, _ => done []
  | n + 1, d => do
    let a ← d
    let more ← times n d
    pure (a :: more)

end Draw

end Lox.Corpus
