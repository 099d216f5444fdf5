import Mathlib.Algebra.Ring.Parity
import Mathlib.Data.List.Induction
import Lox.Text.Escaped

/-!
# Escapes undone

A reader of escapes goes over a text character by character. It knows whether it stands behind a
backslash, behind the letter of a code point, or among its digits; a quote that no backslash escapes
ends the text, so the reader accepts none. What was escaped it reads back.

* `Reader.step`, `Reader.run`: one character, and a run of them.
* `unescape?`: the text that an escaped text stands for.
* `unescape?_escape`: escapes are undone, whatever the text.
* `odd_backslashes`: in a text that is accepted every quote has a backslash of its own.
* `controlFree_escape`: an escaped text has no controls.
-/

namespace Lox.Text

/-! ## Reading escapes -/

/-- The character that a letter behind a backslash stands for. -/
def letterChar? : Char → Option Char
  | 't' => some '\t'
  | 'r' => some '\r'
  | 'n' => some '\n'
  | '\\' => some '\\'
  | '"' => some '"'
  | '0' => some '\x00'
  | _ => none

/-- The value of a hexadecimal digit. -/
def hexValue? (c : Char) : Option Nat :=
  if c.isDigit then some (c.toNat - '0'.toNat)
  else if 'a' ≤ c ∧ c ≤ 'f' then some (c.toNat - 'a'.toNat + 10)
  else none

/-- Where a reader of escapes stands. -/
inductive Reader where
  /-- Between two characters of the text. -/
  | between
  /-- Behind the backslash of an escape. -/
  | opened
  /-- Behind the letter that announces a code point. -/
  | announced
  /-- Among the digits of a code point; those so far stand for this number. -/
  | among (n : Nat)
  deriving DecidableEq

namespace Reader

/-- One character: where the reader stands behind it, and what it has read with it. -/
def step : Reader → Char → Option (Reader × List Char)
  | between, c =>
    if c = '\\' then some (opened, []) else if c = '"' then none else some (between, [c])
  | opened, c =>
    if c = 'u' then some (announced, []) else (letterChar? c).map fun d => (between, [d])
  | announced, c => if c = '\x7b' then some (among 0, []) else none
  | among n, c =>
    if c = '\x7d' then some (between, [Char.ofNat n])
    else (hexValue? c).map fun d => (among (16 * n + d), [])

/-- A run of characters. -/
def run : Reader → List Char → Option (Reader × List Char)
  | r, [] => some (r, [])
  | r, c :: cs => do
    let (s, read) ← r.step c
    let (t, more) ← s.run cs
    pure (t, read ++ more)

variable {r s t : Reader} {cs ds read more : List Char} {c : Char}

theorem run_cons (h : r.step c = some (s, read)) (h' : s.run cs = some (t, more)) :
    r.run (c :: cs) = some (t, read ++ more) := by
  simp [run, h, h']

theorem exists_of_run_cons (h : r.run (c :: cs) = some (t, ds)) :
    ∃ s read more, r.step c = some (s, read) ∧ s.run cs = some (t, more) ∧ ds = read ++ more := by
  obtain ⟨⟨s, read⟩, first, behind⟩ := Option.bind_eq_some_iff.mp h
  obtain ⟨⟨t', more⟩, rest, same⟩ := Option.bind_eq_some_iff.mp behind
  obtain ⟨rfl, rfl⟩ := Prod.mk.inj (Option.some.inj same)
  exact ⟨s, read, more, first, rest, rfl⟩

theorem run_append (h : r.run cs = some (s, read)) (h' : s.run ds = some (t, more)) :
    r.run (cs ++ ds) = some (t, read ++ more) := by
  induction cs generalizing r read with
  | nil =>
    obtain ⟨rfl, rfl⟩ := Prod.mk.inj (Option.some.inj h)
    exact h'
  | cons c cs ih =>
    obtain ⟨mid, one, rest, first, behind, rfl⟩ := exists_of_run_cons h
    rw [List.append_assoc]
    exact run_cons first (ih behind)

theorem exists_of_run_append (h : r.run (cs ++ ds) = some (t, read)) :
    ∃ s before behind, r.run cs = some (s, before) ∧ s.run ds = some (t, behind) ∧
      read = before ++ behind := by
  induction cs generalizing r read with
  | nil => exact ⟨r, [], read, rfl, h, rfl⟩
  | cons c cs ih =>
    obtain ⟨mid, one, rest, first, more, rfl⟩ := exists_of_run_cons h
    obtain ⟨s, before, behind, inner, outer, rfl⟩ := ih more
    exact ⟨s, one ++ before, behind, run_cons first inner, outer, (List.append_assoc ..).symm⟩

end Reader

/-- The text that an escaped text stands for, if it is one. -/
def unescape? (s : String) : Option String :=
  match Reader.between.run s.toList with
  | some (.between, cs) => some (String.ofList cs)
  | _ => none

/-! ## What was escaped is read back -/

/-- The character is a control. -/
def IsControl (c : Char) : Prop := c.toNat < 0x20 ∨ c.toNat = 0x7F
  deriving Decidable

/-- The ways to escape a character. -/
inductive EscapedAs (c : Char) : List Char → Prop where
  | letter {l : Char} (h : escapeLetter? c = some l) : EscapedAs c ['\\', l]
  | code : EscapedAs c ('\\' :: 'u' :: '\x7b' :: Nat.toDigits 16 c.toNat ++ ['\x7d'])
  | plain (none : escapeLetter? c = none) (visible : ¬ IsControl c) : EscapedAs c [c]

theorem escapedAs_escapedChar (c : Char) : EscapedAs c (escapedChar c) := by
  unfold escapedChar
  split
  · exact .letter ‹_›
  · split
    · rw [hex, Nat.zero_sub, List.replicate_zero, List.nil_append]
      exact .code
    · exact .plain ‹_› ‹_›

theorem hexValue?_digitChar : ∀ d < 16, hexValue? (Nat.digitChar d) = some d ∧
    Nat.digitChar d ≠ '\x7d' ∧ ¬ IsControl (Nat.digitChar d) := by
  decide

namespace Reader

theorem step_among {n d : Nat} (h : d < 16) :
    (among n).step (Nat.digitChar d) = some (among (16 * n + d), []) := by
  obtain ⟨value, other, -⟩ := hexValue?_digitChar d h
  simp [step, value, other]

/-- The digits of a number are read as the number. -/
theorem run_toDigits (n : Nat) : (among 0).run (Nat.toDigits 16 n) = some (among n, []) := by
  induction n using Nat.strongRecOn with
  | ind n ih =>
    rw [Nat.toDigits_eq_if (by decide)]
    split
    · rename_i small
      rw [run_cons (step_among small) rfl, Nat.mul_zero, Nat.zero_add]
      rfl
    · rename_i large
      have last : (among (n / 16)).step (Nat.digitChar (n % 16)) = some (among n, []) := by
        rw [step_among (Nat.mod_lt _ (by decide)), Nat.div_add_mod]
      exact run_append (ih (n / 16) (by omega)) (run_cons last rfl)

/-- A character that was escaped is read back. -/
theorem run_escapedChar (c : Char) : between.run (escapedChar c) = some (between, [c]) := by
  have escaped := escapedAs_escapedChar c
  generalize escapedChar c = cs at escaped
  cases escaped with
  | @letter l h =>
    have found : l ≠ 'u' ∧ letterChar? l = some c := by
      unfold escapeLetter? at h
      split at h <;> cases h <;> decide
    have second : opened.step l = some (between, [c]) := by simp [step, found]
    have first : between.step '\\' = some (opened, []) := rfl
    exact run_cons first (run_cons second rfl)
  | code =>
    have front : between.run ['\\', 'u', '\x7b'] = some (among 0, []) := by decide
    have close : (among c.toNat).run ['\x7d'] = some (between, [c]) := by
      simp [run, step]
    exact run_append front (run_append (run_toDigits c.toNat) close)
  | plain none visible =>
    have other : c ≠ '\\' ∧ c ≠ '"' := by
      constructor <;> rintro rfl <;> cases none
    have first : between.step c = some (between, [c]) := by simp [step, other]
    exact run_cons first rfl

theorem run_flatMap_escapedChar (cs : List Char) :
    between.run (cs.flatMap escapedChar) = some (between, cs) := by
  induction cs with
  | nil => rfl
  | cons c cs ih => exact run_append (run_escapedChar c) ih

end Reader

/-- Escapes are undone, whatever the text. -/
theorem unescape?_escape (s : String) : unescape? (escape s) = some s := by
  rw [unescape?, escape, String.toList_ofList, Reader.run_flatMap_escapedChar]
  simp

/-- A digit behind an escaped character does not belong to the escape. -/
example : unescape? "\\01\\u\x7b1\x7d1" = some "\x001\x011" := by decide +kernel

/-- Texts are told apart when they are escaped. -/
theorem escape_inj {s t : String} : escape s = escape t ↔ s = t := by
  refine ⟨fun same => ?_, fun same => same ▸ rfl⟩
  have read := congrArg unescape? same
  rwa [unescape?_escape, unescape?_escape, Option.some_inj] at read

/-! ## Quotes -/

/-- The number of backslashes at the end. -/
def backslashes (cs : List Char) : Nat := (cs.reverse.takeWhile (· == '\\')).length

theorem backslashes_concat (cs : List Char) (c : Char) :
    backslashes (cs ++ [c]) = if c = '\\' then backslashes cs + 1 else 0 := by
  unfold backslashes
  rw [List.reverse_concat, List.takeWhile_cons]
  by_cases same : c = '\\' <;> simp [same]

namespace Reader

variable {r s : Reader} {cs read : List Char} {c : Char}

/-- A backslash opens an escape unless it stands in one, and nothing else does. -/
theorem step_eq_opened_iff (h : r.step c = some (s, read)) :
    s = opened ↔ c = '\\' ∧ r ≠ opened := by
  cases r with
  | between =>
    simp only [step] at h
    split at h
    · cases h
      simp [*]
    · split at h <;> cases h
      simp [*]
  | opened =>
    simp only [step] at h
    split at h
    · cases h
      simp
    · obtain ⟨d, -, same⟩ := Option.map_eq_some_iff.mp h
      cases same
      simp
  | announced =>
    simp only [step] at h
    split at h <;> cases h
    simp [*]
  | among n =>
    simp only [step] at h
    split at h
    · cases h
      simp [*]
    · obtain ⟨d, value, same⟩ := Option.map_eq_some_iff.mp h
      cases same
      have other : c ≠ '\\' := by
        rintro rfl
        cases value
      simp [other]

/-- A reader stands behind the backslash of an escape if an odd number of them stands before it. -/
theorem eq_opened_iff (h : between.run cs = some (r, read)) :
    r = opened ↔ Odd (backslashes cs) := by
  induction cs using List.reverseRecOn generalizing r read with
  | nil =>
    cases h
    simp [backslashes]
  | append_singleton cs c ih =>
    obtain ⟨mid, before, behind, inner, last, -⟩ := exists_of_run_append h
    obtain ⟨r', one, none, first, nil, -⟩ := exists_of_run_cons last
    obtain ⟨rfl, -⟩ := Prod.mk.inj (Option.some.inj nil)
    rw [step_eq_opened_iff first, backslashes_concat, ne_eq, ih inner]
    split <;> simp_all [Nat.odd_add_one]

end Reader

/-- In a text that is accepted each quote has a backslash of its own before it. -/
theorem odd_backslashes {t : String} (h : (unescape? t).isSome) {front back : List Char}
    (split : t.toList = front ++ '"' :: back) : Odd (backslashes front) := by
  obtain ⟨x, read⟩ := Option.isSome_iff_exists.mp h
  unfold unescape? at read
  split at read <;> cases read
  rename_i cs whole
  rw [split] at whole
  obtain ⟨mid, before, behind, inner, rest, -⟩ := Reader.exists_of_run_append whole
  obtain ⟨next, one, more, quote, -, -⟩ := Reader.exists_of_run_cons rest
  refine (Reader.eq_opened_iff inner).mp ?_
  cases mid with
  | opened => rfl
  | _ => cases quote

/-! ## Controls -/

/-- The text has no controls. -/
def ControlFree (s : String) : Prop := ∀ c ∈ s.toList, ¬ IsControl c

instance : DecidablePred ControlFree := fun s => List.decidableBAll (¬ IsControl ·) s.toList

@[simp] theorem controlFree_append {s t : String} :
    ControlFree (s ++ t) ↔ ControlFree s ∧ ControlFree t := by
  simp only [ControlFree, String.toList_append, List.forall_mem_append]

/-- A text without controls keeps to one line. -/
theorem ControlFree.oneLine {s : String} (h : ControlFree s) : '\n' ∉ s.toList :=
  fun mem => h _ mem (by decide)

/-- What holds of the digits of a base holds of all that numbers are written with. -/
theorem forall_mem_toDigits {b : Nat} (hb : 1 < b) {p : Char → Prop}
    (h : ∀ d < b, p (Nat.digitChar d)) (n : Nat) : ∀ c ∈ Nat.toDigits b n, p c := by
  induction n using Nat.strongRecOn with
  | ind n ih =>
    rw [Nat.toDigits_eq_if hb]
    split
    · rename_i small
      exact List.forall_mem_singleton.mpr (h n small)
    · have less : n / b < n := Nat.div_lt_self (by omega) hb
      rw [List.forall_mem_append]
      exact ⟨ih _ less, List.forall_mem_singleton.mpr (h _ (Nat.mod_lt n (by omega)))⟩

/-- What is escaped has no controls, whatever the text. -/
theorem controlFree_escape (s : String) : ControlFree (escape s) := by
  have char (c : Char) : ∀ d ∈ escapedChar c, ¬ IsControl d := by
    have escaped := escapedAs_escapedChar c
    generalize escapedChar c = cs at escaped
    cases escaped with
    | @letter l h =>
      have visible : ¬ IsControl l := by
        unfold escapeLetter? at h
        split at h <;> cases h <;> decide
      simpa [visible] using (by decide : ¬ IsControl '\\')
    | code =>
      have digits : ∀ d ∈ Nat.toDigits 16 c.toNat, ¬ IsControl d :=
        forall_mem_toDigits (by decide) (fun d small => (hexValue?_digitChar d small).2.2) c.toNat
      rw [List.forall_mem_append]
      refine ⟨?_, List.forall_mem_singleton.mpr (by decide)⟩
      simp only [List.forall_mem_cons]
      exact ⟨by decide, by decide, by decide, digits⟩
    | plain none visible => exact List.forall_mem_singleton.mpr visible
  rw [ControlFree, escape, String.toList_ofList]
  intro d mem
  obtain ⟨c, -, inside⟩ := List.mem_flatMap.mp mem
  exact char c d inside

end Lox.Text
