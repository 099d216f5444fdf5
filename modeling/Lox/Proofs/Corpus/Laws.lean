import Lox.Corpus.Draw

/-!
# Laws of draws

What holds on all branches of a draw holds of what is drawn, whatever the source of the random
numbers gives. So nothing has to be known about the source, and each of the usual draws has one law.

* `Draw.Always`: a property holds on all branches.
* `Draw.Always.run`: it holds of what is drawn.
* `Draw.Always.bind`, `Draw.always_between`, `Draw.always_oneOf`, `Draw.always_times`: the laws.
-/

namespace Lox.Corpus.Draw

variable {α β σ : Type} {P P' : α → Prop} {Q : β → Prop}

/-- The property holds on all branches. -/
def Always (P : α → Prop) : Draw α → Prop
  | done a => P a
  | fraction next => ∀ x, (next x).Always P
  | upTo _ next => ∀ n, (next n).Always P

/-- What holds on all branches holds of what is drawn. -/
theorem Always.run {d : Draw α} (h : d.Always P) (r : Randomness σ) (s : σ) : P (d.run r s).1 := by
  induction d generalizing s with
  | done a => exact h
  | fraction next ih => exact ih _ (h _) _
  | upTo bound next ih => exact ih _ (h _) _

theorem Always.mono {d : Draw α} (h : d.Always P) (weaker : ∀ a, P a → P' a) : d.Always P' := by
  induction d with
  | done a => exact weaker a h
  | fraction next ih => exact fun x => ih x (h x)
  | upTo bound next ih => exact fun n => ih n (h n)

/-- What holds of a value that depends on another holds if it does for all that the other may be. -/
theorem Always.bind {d : Draw α} {f : α → Draw β} (h : d.Always P)
    (later : ∀ a, P a → (f a).Always Q) : (d >>= f).Always Q := by
  induction d with
  | done a => exact later a h
  | fraction next ih => exact fun x => ih x (h x)
  | upTo bound next ih => exact fun n => ih n (h n)

theorem always_pure {a : α} (h : P a) : (pure a : Draw α).Always P :=
  h

/-- A number that is drawn lies between its bounds. -/
theorem always_between (low width : Nat) :
    (between low width).Always fun n => low ≤ n ∧ n ≤ low + width :=
  fun n => ⟨Nat.le_add_right _ _, Nat.add_le_add_left (Nat.le_of_lt_succ n.isLt) _⟩

/-- A value that is drawn is one of those to choose from. -/
theorem always_oneOf (a : α) (more : List α) : (oneOf a more).Always (· ∈ a :: more) :=
  fun n => List.get_mem (a :: more) n

/-- A drawn fraction may be below a limit or not. -/
theorem always_chance (limit : Float) : (chance limit).Always fun _ => True :=
  fun _ => trivial

/-- There are as many values as were asked for, and what holds of each draw holds of all of them. -/
theorem always_times {d : Draw α} (h : d.Always P) (n : Nat) :
    (times n d).Always fun as => as.length = n ∧ ∀ a ∈ as, P a := by
  induction n with
  | zero => exact ⟨rfl, List.forall_mem_nil P⟩
  | succ n ih =>
    refine h.bind fun a ha => ih.bind fun more ⟨length, hmore⟩ => ?_
    exact always_pure ⟨congrArg (· + 1) length, List.forall_mem_cons.mpr ⟨ha, hmore⟩⟩

end Lox.Corpus.Draw
