import Mathlib.Data.List.Basic
import Lox.Scope

/-!
# Scopes over time

Scopes form a tree: each new one is made within a scope that there is already, and any scope may be
given definitions at any time, also after others were made within it. What a name means in a scope
is settled by what was done so far: of the scopes from there on, going outwards, the nearest one
that ever defined the name says what it means, by the last value that it was given there.

* `Scopes.chain`: the scopes that a name is looked for in.
* `Scopes.findIn_eq`, `Scopes.containedIn_eq`: both walks over them, the second one with as many
  steps as the stack has frames.
* `Scopes.chain_push`, `Scopes.chain_define`, `Scopes.bindingsOf_push`, `Scopes.bindingsOf_define`:
  what one step does to the scopes.
* `Scopes.History`: what was done so far, with the value last given to a name in a scope.
* `Scopes.History.chain_scopes`, `Scopes.History.last?_scopes`: what it leaves in the scopes.
* `Scopes.History.get_finds_nearest`: the main statement.
* `Scopes.History.nested_exhausts_stack`: a name that is nowhere, and too many scopes to ask.
-/

namespace Lox.Scopes

/-! ## Walking outwards -/

/-- The walk of `chain`. -/
def chainIn : List Scope → Nat → List Nat
  | [], _ => []
  | scope :: older, id =>
    if id = older.length then
      id :: match scope.enclosing with
        | some outer => chainIn older outer
        | none => []
    else chainIn older id

/-- A scope and those around it, going outwards. -/
def chain (s : Scopes) (id : Nat) : List Nat := chainIn s.scopes id

theorem findSome?_congr {α β : Type} {f g : α → Option β} {l : List α} (h : ∀ t ∈ l, f t = g t) :
    l.findSome? f = l.findSome? g := by
  induction l with
  | nil => rfl
  | cons t l ih =>
    rw [List.forall_mem_cons] at h
    rw [List.findSome?_cons, List.findSome?_cons, h.1, ih h.2]

section Walk

variable {scopes older : List Scope} {scope : Scope} {id t : Nat}

theorem lt_of_mem_chainIn (h : t ∈ chainIn scopes id) : t < scopes.length := by
  induction scopes generalizing id with
  | nil => cases h
  | cons scope older ih =>
    rw [List.length_cons]
    rw [chainIn] at h
    split at h
    · obtain rfl | h := List.mem_cons.mp h
      · omega
      · split at h
        · exact Nat.lt_succ_of_lt (ih h)
        · cases h
    · exact Nat.lt_succ_of_lt (ih h)

theorem bindingsOf_cons (scope : Scope) (older : List Scope) (id : Nat) :
    bindingsOf ⟨scope :: older⟩ id =
      if id < older.length then bindingsOf ⟨older⟩ id else scope.bindings := by
  unfold bindingsOf count
  dsimp only
  rw [List.length_cons, Nat.add_sub_cancel]
  by_cases inside : id < older.length
  · rw [if_pos inside, show older.length - id = older.length - 1 - id + 1 by omega,
      List.getElem?_cons_succ]
  · rw [if_neg inside, show older.length - id = 0 by omega, List.getElem?_cons_zero]

/-- The scopes around one are older, so a younger one makes no difference to them. -/
theorem bindingsOf_older (h : t ∈ chainIn older id) :
    bindingsOf ⟨scope :: older⟩ t = bindingsOf ⟨older⟩ t := by
  rw [bindingsOf_cons, if_pos (lt_of_mem_chainIn h)]

/-- A name is looked for in one scope after the other. -/
theorem findIn_eq (name : String) (scopes : List Scope) (id : Nat) :
    findIn name scopes id =
      (chainIn scopes id).findSome? fun t => (bindingsOf ⟨scopes⟩ t)[name]? := by
  induction scopes generalizing id with
  | nil => rfl
  | cons scope older ih =>
    have inside (id : Nat) : findIn name older id =
        (chainIn older id).findSome? fun t => (bindingsOf ⟨scope :: older⟩ t)[name]? := by
      rw [ih id]
      exact findSome?_congr fun t mem => by rw [bindingsOf_older mem]
    rw [findIn, chainIn]
    by_cases here : id = older.length
    · rw [if_pos here, if_pos here, List.findSome?_cons, bindingsOf_cons, if_neg (by omega)]
      cases scope.bindings[name]? with
      | some value => rfl
      | none =>
        cases scope.enclosing with
        | some outer => exact inside outer
        | none => rfl
    · rw [if_neg here, if_neg here, inside]

/-- Asking whether a name is there comes as far as there are frames. It comes to an answer if a
scope on the way has the name, or if no scopes are left. -/
theorem containedIn_eq (name : String) (scopes : List Scope) (id frames : Nat) :
    containedIn name scopes id frames =
      if ∃ t ∈ (chainIn scopes id).take frames, name ∈ bindingsOf ⟨scopes⟩ t then some true
      else if (chainIn scopes id).length ≤ frames then some false else none := by
  induction scopes generalizing id frames with
  | nil => simp [containedIn, chainIn]
  | cons scope older ih =>
    have inside (id frames : Nat) : containedIn name older id frames =
        if ∃ t ∈ (chainIn older id).take frames, name ∈ bindingsOf ⟨scope :: older⟩ t then some true
        else if (chainIn older id).length ≤ frames then some false else none := by
      rw [ih id frames]
      refine if_congr (exists_congr fun t => and_congr_right fun mem => ?_) rfl rfl
      rw [bindingsOf_older (List.mem_of_mem_take mem)]
    rw [containedIn, chainIn]
    by_cases here : id = older.length
    · have own : bindingsOf ⟨scope :: older⟩ id = scope.bindings := by
        rw [bindingsOf_cons, if_neg (by omega)]
      rw [if_pos here, if_pos here]
      cases frames with
      | zero => simp
      | succ frames =>
        by_cases defined : name ∈ scope.bindings
        · simp [own, defined]
        · cases scope.enclosing with
          | some outer => simp [own, defined, inside]
          | none => simp [own, defined]
    · rw [if_neg here, if_neg here, inside]

end Walk

/-! ## One step -/

section Step

variable (s : Scopes) {outer id t : Nat} {name : String} {value : Value}

@[simp] theorem count_push : (s.push outer).count = s.count + 1 := rfl

theorem length_defineIn (scopes : List Scope) :
    (defineIn id name value scopes).length = scopes.length := by
  induction scopes with
  | nil => rfl
  | cons scope older ih =>
    rw [defineIn]
    split
    · rfl
    · rw [List.length_cons, ih, List.length_cons]

@[simp] theorem count_define : (s.define id name value).count = s.count :=
  length_defineIn s.scopes

/-- The scopes around a new scope are those from the one that it is made within. -/
theorem chain_push :
    (s.push outer).chain id = if id = s.count then id :: s.chain outer else s.chain id := rfl

/-- A definition moves no scope. -/
theorem chain_define : (s.define id name value).chain t = s.chain t := by
  obtain ⟨scopes⟩ := s
  show chainIn (defineIn id name value scopes) t = chainIn scopes t
  induction scopes generalizing t with
  | nil => rfl
  | cons scope older ih =>
    rw [defineIn]
    split
    · rfl
    · cases enclosing : scope.enclosing with
      | some outer => simp only [chainIn, length_defineIn, enclosing, ih]
      | none => simp only [chainIn, length_defineIn, enclosing, ih]

/-- A new scope defines nothing. -/
theorem bindingsOf_push :
    (s.push outer).bindingsOf id = if id < s.count then s.bindingsOf id else {} :=
  bindingsOf_cons _ _ _

/-- A definition changes what one name means in one scope. -/
theorem bindingsOf_define (ht : t < s.count) :
    (s.define id name value).bindingsOf t =
      if t = id then (s.bindingsOf t).insert name value else s.bindingsOf t := by
  obtain ⟨scopes⟩ := s
  show bindingsOf ⟨defineIn id name value scopes⟩ t = _
  induction scopes with
  | nil => cases ht
  | cons scope older ih =>
    have last : ¬ t < older.length → t = older.length := by
      have : t < older.length + 1 := ht
      omega
    rw [defineIn]
    split
    · rw [bindingsOf_cons, bindingsOf_cons]
      split
      · rw [if_neg (by omega)]
      · rw [if_pos (by have := last ‹_›; omega)]
    · rw [bindingsOf_cons, bindingsOf_cons, length_defineIn]
      split
      · exact ih ‹_›
      · rw [if_neg (by have := last ‹_›; omega)]

end Step

/-! ## Many steps -/

/-- What was done with scopes, from a single one on: scopes were made, each within one that there
was, and names were given values, each in a scope that there was. The index is the number of scopes
in the end. -/
inductive History : Nat → Type where
  | start : History 1
  | push {n : Nat} (before : History n) (outer : Fin n) : History (n + 1)
  | define {n : Nat} (before : History n) (id : Fin n) (name : String) (value : Value) : History n

namespace History

/-- The scopes in the end. -/
def scopes {n : Nat} : History n → Scopes
  | start => initial
  | push before outer => before.scopes.push outer
  | define before id name value => before.scopes.define id name value

/-- A scope and those that it was made within, going outwards. -/
def chain {n : Nat} : History n → Nat → List Nat
  | start, id => [id]
  | push (n := made) before outer, id =>
    if id = made then id :: before.chain outer else before.chain id
  | define before _ _ _, id => before.chain id

/-- The value that was last given to a name in a scope. -/
def last? {n : Nat} : History n → Nat → String → Option Value
  | start, _, _ => none
  | push before _, id, name => before.last? id name
  | define before scope defined value, id, name =>
    if id = scope ∧ name = defined then some value else before.last? id name

/-- From one scope another one can be seen under a name: it is that scope or around it, and none
before it has ever defined the name. -/
def Sees {n : Nat} (h : History n) (id : Nat) (name : String) (scope : Nat) : Prop :=
  ∃ inner outer, h.chain id = inner ++ scope :: outer ∧ ∀ t ∈ inner, h.last? t name = none

variable {n : Nat} (h : History n) {id : Nat}

theorem count_scopes : h.scopes.count = n := by
  induction h with
  | start => rfl
  | push before outer ih => rw [scopes, count_push, ih]
  | define before id name value ih => rw [scopes, count_define, ih]

theorem chain_scopes (hid : id < n) : h.scopes.chain id = h.chain id := by
  induction h generalizing id with
  | start =>
    obtain rfl : id = 0 := by omega
    rfl
  | push before outer ih =>
    rw [scopes, chain_push, chain, count_scopes]
    split
    · rw [ih outer.isLt]
    · rw [ih (by omega)]
  | define before scope name value ih => rw [scopes, chain_define, chain, ih hid]

/-- Nothing is defined in a scope that is yet to be made. -/
theorem last?_of_le (hid : n ≤ id) (name : String) : h.last? id name = none := by
  induction h with
  | start => rfl
  | push before outer ih => exact ih (by omega)
  | define before scope defined value ih =>
    rw [last?, if_neg, ih hid]
    rintro ⟨rfl, -⟩
    exact absurd scope.isLt (by omega)

theorem last?_scopes (hid : id < n) (name : String) :
    (h.scopes.bindingsOf id)[name]? = h.last? id name := by
  induction h generalizing id with
  | start =>
    obtain rfl : id = 0 := by omega
    rfl
  | push before outer ih =>
    rw [scopes, bindingsOf_push, count_scopes, last?]
    split
    · exact ih ‹_›
    · rw [before.last?_of_le (by omega)]
      rfl
  | define before scope defined value ih =>
    rw [scopes, bindingsOf_define _ (by rwa [count_scopes]), last?, ← ih hid]
    by_cases same : id = scope
    · rw [if_pos same, Std.TreeMap.getElem?_insert]
      by_cases named : defined = name
      · simp [same, named]
      · simp [same, named, Ne.symm named]
    · rw [if_neg same, if_neg fun both => same both.1]

/-- The scopes around one are scopes that there are. -/
theorem lt_of_mem_chain {t : Nat} (hid : id < n) (mem : t ∈ h.chain id) : t < n := by
  rw [← h.chain_scopes hid] at mem
  exact h.count_scopes ▸ lt_of_mem_chainIn mem

/-! ## What a name means -/

variable {name : String} {value : Value}

theorem find?_scopes (hid : id < n) (name : String) :
    h.scopes.find? id name = (h.chain id).findSome? fun t => h.last? t name := by
  have walk : h.scopes.find? id name = _ := findIn_eq name h.scopes.scopes id
  rw [walk, show chainIn h.scopes.scopes id = h.chain id from h.chain_scopes hid]
  exact findSome?_congr fun t mem => h.last?_scopes (h.lt_of_mem_chain hid mem) name

theorem find?_eq_some_iff (hid : id < n) :
    h.scopes.find? id name = some value ↔
      ∃ scope, h.Sees id name scope ∧ h.last? scope name = some value := by
  rw [h.find?_scopes hid, List.findSome?_eq_some_iff]
  constructor
  · rintro ⟨inner, scope, outer, split, last, none⟩
    exact ⟨scope, ⟨inner, outer, split, none⟩, last⟩
  · rintro ⟨scope, ⟨inner, outer, split, none⟩, last⟩
    exact ⟨inner, scope, outer, split, last, none⟩

theorem find?_eq_none_iff (hid : id < n) :
    h.scopes.find? id name = none ↔ ∀ t ∈ h.chain id, h.last? t name = none := by
  rw [h.find?_scopes hid, List.findSome?_eq_none_iff]

theorem contains?_scopes [Stack] (hid : id < n) (name : String) :
    h.scopes.contains? id name =
      if ∃ t ∈ (h.chain id).take Stack.frames, h.last? t name ≠ none then some true
      else if (h.chain id).length ≤ Stack.frames then some false else none := by
  have walk : h.scopes.contains? id name = _ :=
    containedIn_eq name h.scopes.scopes id Stack.frames
  rw [walk, show chainIn h.scopes.scopes id = h.chain id from h.chain_scopes hid]
  refine if_congr (exists_congr fun t => and_congr_right fun mem => ?_) rfl rfl
  have made : t < n := h.lt_of_mem_chain hid (List.mem_of_mem_take mem)
  rw [← h.last?_scopes made, Option.ne_none_iff_isSome, Std.TreeMap.isSome_getElem?_iff_mem]

/-- Asking says yes if a scope on the way has the name and the stack has a frame for that one. -/
theorem contains?_eq_true_iff [Stack] (hid : id < n) :
    h.scopes.contains? id name = some true ↔
      ∃ t ∈ (h.chain id).take Stack.frames, h.last? t name ≠ none := by
  rw [h.contains?_scopes hid]
  by_cases defined : ∃ t ∈ (h.chain id).take Stack.frames, h.last? t name ≠ none
  · exact iff_of_true (if_pos defined) defined
  · refine iff_of_false ?_ defined
    rw [if_neg defined]
    split <;> nofun

/-- Asking says no if the name means nothing and the stack has frames for all the scopes. -/
theorem contains?_eq_false_iff [Stack] (hid : id < n) :
    h.scopes.contains? id name = some false ↔
      h.scopes.find? id name = none ∧ (h.chain id).length ≤ Stack.frames := by
  rw [h.contains?_scopes hid, h.find?_eq_none_iff hid]
  by_cases few : (h.chain id).length ≤ Stack.frames
  · rw [List.take_of_length_le few]
    by_cases defined : ∃ t ∈ h.chain id, h.last? t name ≠ none
    · rw [if_pos defined]
      obtain ⟨t, mem, some⟩ := defined
      simp only [few, and_true]
      exact ⟨nofun, fun none => absurd (none t mem) some⟩
    · rw [if_neg defined, if_pos few]
      push Not at defined
      simpa [few] using defined
  · rw [if_neg few]
    simp only [few, and_false, iff_false]
    split <;> nofun

theorem get_eq_ok_iff {s : Scopes} {span : Option Span} :
    s.get id name span = .ok value ↔ s.find? id name = some value := by
  rw [get]
  cases s.find? id name <;> simp

theorem get_eq_error_iff {s : Scopes} {span : Option Span} {d : Diagnostic} :
    s.get id name span = .error d ↔
      s.find? id name = none ∧ d = ⟨.undefinedVariable name, span⟩ := by
  rw [get]
  cases s.find? id name <;> simp [eq_comm]

/-- A definition changes what a name means in a scope only if it is a definition of that name in a
scope that can be seen from there, and then the name means what it says. -/
theorem find?_define (hid : id < n) (scope : Fin n) (defined name : String) (value : Value) :
    (h.define scope defined value).scopes.find? id name = h.scopes.find? id name ∨
      name = defined ∧ h.Sees id name scope ∧
        (h.define scope defined value).scopes.find? id name = some value := by
  have other {t : Nat} (different : t ≠ scope ∨ name ≠ defined) :
      (h.define scope defined value).last? t name = h.last? t name := by
    rw [last?, if_neg]
    rintro ⟨rfl, rfl⟩
    simp at different
  rw [find?_scopes _ hid, h.find?_scopes hid, chain]
  by_cases named : name = defined
  swap
  · exact .inl (findSome?_congr fun t _ => other (.inr named))
  by_cases around : (scope : Nat) ∈ h.chain id
  swap
  · exact .inl (findSome?_congr fun t mem => other (.inl fun same => around (same ▸ mem)))
  -- The scope is met at one place, and what stands before it on the way is as it was.
  obtain ⟨inner, outer, split, first⟩ := List.eq_append_cons_of_mem around
  have before : (inner.findSome? fun t => (h.define scope defined value).last? t name) =
      inner.findSome? fun t => h.last? t name :=
    findSome?_congr fun t mem => other (.inl fun same => first (same ▸ mem))
  have here : (h.define scope defined value).last? scope name = some value :=
    if_pos ⟨rfl, named⟩
  rw [split, List.findSome?_append, List.findSome?_append, before, List.findSome?_cons, here]
  cases found : inner.findSome? fun t => h.last? t name with
  | some value => exact .inl rfl
  | none =>
    exact .inr ⟨named, ⟨inner, outer, split, List.findSome?_eq_none_iff.mp found⟩, rfl⟩

/-- What a name means in a scope, after any history: what was last said in the nearest scope that
ever defined the name, from that scope on outwards, or else nothing, which is reported under the
name and at the given place. Asking whether it means something says so if the stack has frames for
the scopes on the way; with more scopes than frames there is no answer for a name that means
nothing. One more definition makes a difference only to its own name, and only in those scopes that
see the one it is made in; there the name then means what the definition says. -/
theorem get_finds_nearest [Stack] (h : History n) (id : Fin n) (name : String)
    (span : Option Span) :
    (∀ value, h.scopes.get id name span = .ok value ↔
      ∃ scope, h.Sees id name scope ∧ h.last? scope name = some value) ∧
    (∀ d, h.scopes.get id name span = .error d ↔
      (∀ scope ∈ h.chain id, h.last? scope name = none) ∧ d.cause = .undefinedVariable name ∧
        d.span = span) ∧
    (h.scopes.contains? id name = some true ↔
      ∃ scope ∈ (h.chain id).take Stack.frames, h.last? scope name ≠ none) ∧
    (h.scopes.contains? id name = some false ↔
      (∃ d, h.scopes.get id name span = .error d) ∧ (h.chain id).length ≤ Stack.frames) ∧
    ∀ (scope : Fin n) (defined : String) (value : Value),
      (h.define scope defined value).scopes.get id name span = h.scopes.get id name span ∨
        name = defined ∧ h.Sees id name scope ∧
          (h.define scope defined value).scopes.get id name span = .ok value := by
  refine ⟨fun value => ?_, fun d => ?_, h.contains?_eq_true_iff id.isLt, ?_, ?_⟩
  · rw [get_eq_ok_iff, h.find?_eq_some_iff id.isLt]
  · rw [get_eq_error_iff, h.find?_eq_none_iff id.isLt]
    obtain ⟨cause, place⟩ := d
    simp
  · rw [h.contains?_eq_false_iff id.isLt]
    simp [get_eq_error_iff]
  · intro scope defined value
    obtain same | ⟨named, seen, means⟩ := h.find?_define id.isLt scope defined name value
    · exact .inl (by rw [get, get, same])
    · exact .inr ⟨named, seen, get_eq_ok_iff.mpr means⟩

/-! ## Too many scopes -/

/-- So many scopes within a single one, each within the one before it. -/
def nested : (depth : Nat) → History (depth + 1)
  | 0 => start
  | depth + 1 => (nested depth).push (Fin.last depth)

theorem last?_nested (depth id : Nat) (name : String) : (nested depth).last? id name = none := by
  induction depth with
  | zero => rfl
  | succ depth ih => exact ih

theorem length_chain_nested (depth : Nat) : ((nested depth).chain depth).length = depth + 1 := by
  induction depth with
  | zero => rfl
  | succ depth ih =>
    rw [nested, chain, if_pos rfl, List.length_cons]
    exact congrArg (· + 1) ih

/-- From the innermost of more scopes than the stack has frames a name is looked for in all of them
and reported to mean nothing, but asking whether it means something gives no answer. -/
theorem contains?_nested [Stack] {depth : Nat} (deep : Stack.frames ≤ depth) (name : String) :
    (nested depth).scopes.get depth name = .error ⟨.undefinedVariable name, none⟩ ∧
      (nested depth).scopes.contains? depth name = none := by
  constructor
  · rw [get_eq_error_iff, find?_eq_none_iff _ (Nat.lt_succ_self _)]
    exact ⟨fun t _ => last?_nested depth t name, rfl⟩
  · rw [contains?_scopes _ (Nat.lt_succ_self _), length_chain_nested,
      if_neg fun ⟨t, _, defined⟩ => defined (last?_nested depth t name), if_neg (by omega)]

/-- So it is with two thousand scopes on a whole stack. -/
theorem nested_exhausts_stack :
    (nested 2000).scopes.get 2000 "x" = .error ⟨.undefinedVariable "x", none⟩ ∧
      (nested 2000).scopes.contains? 2000 "x" ≠ some false := by
  obtain ⟨unknown, exhausted⟩ := contains?_nested (show Stack.frames ≤ 2000 by decide) "x"
  exact ⟨unknown, exhausted ▸ nofun⟩

end History

end Lox.Scopes
