import Lox.Text.Utf8

/-!
# Bytes of a text are read as the text

A character takes one to four bytes. The lead byte of several says how many follow and holds the
highest digits of the character to the base of sixty-four; each byte behind it holds one more digit.
No range that a lead byte sets for the byte behind it excludes a character.

* `Reads`: bytes are read as characters, wherever they stand, with the rules for each byte.
* `exists_lead_two`, `exists_lead_three`, `exists_lead_four`: what the lead byte of a character
  begins.
* `decode_toUTF8`: the main statement.
-/

namespace Lox.Text.Utf8

/-- The bytes, behind a character that has begun, are read as the characters, wherever they
stand. -/
def Reads (begun : Option Begun) (bs : List UInt8) (cs : List Char) : Prop :=
  ∀ position, decodeFrom position begun bs = .ok cs

theorem toNat_ofNat_of_lt {n : Nat} (h : n < 256) : (UInt8.ofNat n).toNat = n := by
  simpa using h

namespace Reads

variable {b : UInt8} {bs : List UInt8} {c : Begun} {cs : List Char} {d : Nat} {char : Char}

theorem nil : Reads none [] [] :=
  fun _ => rfl

theorem single {n : Nat} (small : n < 0x80) (value : Char.ofNat n = char)
    (rest : Reads none bs cs) :
    Reads none (UInt8.ofNat n :: bs) (char :: cs) := by
  intro position
  rw [decodeFrom, toNat_ofNat_of_lt (by omega), if_pos small, rest, value]

theorem lead (begins : lead? b = some c) (rest : Reads (some c) bs cs) :
    Reads none (b :: bs) cs := by
  intro position
  have large : ¬ b.toNat < 0x80 := by
    intro small
    simp [lead?, show b.toNat < 0xC2 by omega] at begins
  rw [decodeFrom, if_neg large, begins]
  exact rest _

/-- A byte that others follow adds a digit to the base of sixty-four. -/
theorem next {later : Nat} (small : d < 64) (range : c.low ≤ d + 128 ∧ d + 128 ≤ c.high)
    (more : c.later = later + 1)
    (rest : Reads
      (some { first := c.first, count := c.count + 1, value := c.value * 64 + d, later }) bs cs) :
    Reads (some c) (UInt8.ofNat (d + 128) :: bs) cs := by
  intro position
  rw [decodeFrom, toNat_ofNat_of_lt (by omega), if_pos range, Nat.add_sub_cancel]
  simp only [more]
  exact rest _

/-- The last byte of a character adds the last digit. -/
theorem last (small : d < 64) (range : c.low ≤ d + 128 ∧ d + 128 ≤ c.high) (none : c.later = 0)
    (value : Char.ofNat (c.value * 64 + d) = char) (rest : Reads .none bs cs) :
    Reads (some c) (UInt8.ofNat (d + 128) :: bs) (char :: cs) := by
  intro position
  rw [decodeFrom, toNat_ofNat_of_lt (by omega), if_pos range, Nat.add_sub_cancel]
  simp only [none, rest _, value]

end Reads

/-! ## Lead bytes -/

section Lead

variable {v : Nat}

theorem exists_lead_two (low : 0x80 ≤ v) (high : v < 0x800) :
    ∃ c, lead? (UInt8.ofNat (v / 64 % 32 + 192)) = some c ∧ c.value = v / 64 ∧ c.later = 0 ∧
      c.low = 0x80 ∧ c.high = 0xBF := by
  unfold lead?
  rw [toNat_ofNat_of_lt (by omega)]
  dsimp only
  rw [if_neg (by omega), if_pos (by omega)]
  exact ⟨_, rfl, by dsimp only; omega, rfl, rfl, rfl⟩

/-- The second of three bytes keeps to the range that the first one sets. -/
theorem exists_lead_three (low : 0x800 ≤ v) (high : v < 0x10000) (valid : v < 0xD800 ∨ 0xDFFF < v) :
    ∃ c, lead? (UInt8.ofNat (v / 4096 % 16 + 224)) = some c ∧ c.value = v / 4096 ∧ c.later = 1 ∧
      c.low ≤ v / 64 % 64 + 128 ∧ v / 64 % 64 + 128 ≤ c.high := by
  unfold lead?
  rw [toNat_ofNat_of_lt (by omega)]
  dsimp only
  rw [if_neg (by omega), if_neg (by omega)]
  split
  · exact ⟨_, rfl, by dsimp only; omega, rfl, by dsimp only; omega, by dsimp only; omega⟩
  split
  · exact ⟨_, rfl, by dsimp only; omega, rfl, by dsimp only; omega, by dsimp only; omega⟩
  rw [if_pos (by omega)]
  exact ⟨_, rfl, by dsimp only; omega, rfl, by dsimp only; omega, by dsimp only; omega⟩

/-- The second of four bytes keeps to the range that the first one sets. -/
theorem exists_lead_four (low : 0x10000 ≤ v) (high : v < 0x110000) :
    ∃ c, lead? (UInt8.ofNat (v / 262144 % 8 + 240)) = some c ∧ c.value = v / 262144 ∧
      c.later = 2 ∧ c.low ≤ v / 4096 % 64 + 128 ∧ v / 4096 % 64 + 128 ≤ c.high := by
  unfold lead?
  rw [toNat_ofNat_of_lt (by omega)]
  dsimp only
  rw [if_neg (by omega), if_neg (by omega), if_neg (by omega), if_neg (by omega), if_neg (by omega)]
  split
  · exact ⟨_, rfl, by dsimp only; omega, rfl, by dsimp only; omega, by dsimp only; omega⟩
  split
  · exact ⟨_, rfl, by dsimp only; omega, rfl, by dsimp only; omega, by dsimp only; omega⟩
  rw [if_pos (by omega)]
  exact ⟨_, rfl, by dsimp only; omega, rfl, by dsimp only; omega, by dsimp only; omega⟩

end Lead

/-! ## Characters and texts -/

/-- The bytes of a character are read as the character. -/
theorem reads_utf8EncodeChar (c : Char) {bs : List UInt8} {cs : List Char}
    (rest : Reads none bs cs) : Reads none (String.utf8EncodeChar c ++ bs) (c :: cs) := by
  have valid : c.toNat < 0xD800 ∨ 0xDFFF < c.toNat ∧ c.toNat < 0x110000 := c.valid
  have char : Char.ofNat c.toNat = c := Char.ofNat_toNat c
  unfold String.utf8EncodeChar
  rw [show c.val.toNat = c.toNat from rfl]
  generalize c.toNat = v at valid char
  have digit (n : Nat) : n % 64 < 64 := Nat.mod_lt n (by decide)
  dsimp only
  -- One byte, or a lead byte and as many digits as it asks for.
  split
  · exact .single (by omega) char rest
  split
  · obtain ⟨b, lead, value, later, low, high⟩ := exists_lead_two (v := v) (by omega) (by omega)
    refine .lead lead (.last (digit v) (by omega) later ?_ rest)
    rw [value, show v / 64 * 64 + v % 64 = v by omega, char]
  split
  · obtain ⟨b, lead, value, later, range⟩ :=
      exists_lead_three (v := v) (by omega) (by omega) (by omega)
    refine .lead lead (.next (digit (v / 64)) range later (.last (digit v) ?_ rfl ?_ rest))
    · dsimp only
      omega
    · dsimp only
      rw [value, show (v / 4096 * 64 + v / 64 % 64) * 64 + v % 64 = v by omega, char]
  · obtain ⟨b, lead, value, later, range⟩ := exists_lead_four (v := v) (by omega) (by omega)
    refine .lead lead (.next (digit (v / 4096)) range later (.next (digit (v / 64)) ?_ rfl
      (.last (digit v) ?_ rfl ?_ rest)))
    · dsimp only
      omega
    · dsimp only
      omega
    · dsimp only
      rw [value, show ((v / 262144 * 64 + v / 4096 % 64) * 64 + v / 64 % 64) * 64 + v % 64 = v by
        omega, char]

/-- The bytes of a text are read as the text. -/
theorem decode_toUTF8 (s : String) : decode s.toUTF8.data.toList = .ok s := by
  have bytes : s.toUTF8.data.toList = s.toList.flatMap String.utf8EncodeChar := by
    rw [String.toUTF8_eq_toByteArray, ← String.utf8Encode_toList, List.utf8Encode]
    simp
  have reads (cs : List Char) : Reads none (cs.flatMap String.utf8EncodeChar) cs := by
    induction cs with
    | nil => exact .nil
    | cons c cs ih => exact reads_utf8EncodeChar c ih
  rw [decode, bytes, reads]
  exact congrArg Except.ok String.ofList_toList

end Lox.Text.Utf8
