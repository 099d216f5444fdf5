/-!
# The twister

A generator of pseudo-random words: a shift register of 624 words of 32 bits that is renewed as a
whole whenever all of its words have been given out. Each word is tempered on its way out.

* `Twister.ofSeed`: the register for a seed of any size.
* `Twister.word`: the next word.
* `Twister.fraction`, `Twister.upTo`: numbers made of words.
-/

namespace Lox.Corpus

/-- The number of words in the register. -/
def registerSize : Nat := 624

/-- The register, and the number of words that were given out since it was renewed. -/
structure Twister where
  register : Array UInt32
  used : Nat

namespace Twister

/-- The word at a place of a register, which is never asked for a place beyond it. -/
def wordAt (register : Array UInt32) (i : Nat) : UInt32 := register.getD i 0

/-! ## Seeds -/

/-- The register that follows from one word. -/
def spread (seed : UInt32) : Array UInt32 :=
  (List.range (registerSize - 1)).foldl (fun register i =>
    let last := wordAt register i
    register.push ((1812433253 : UInt32) * (last ^^^ (last >>> 30)) + UInt32.ofNat (i + 1))) #[seed]

/-- The words of a number, the least significant first; zero has one word. -/
def wordsOf (n : Nat) : List UInt32 :=
  if n < UInt32.size then [UInt32.ofNat n]
  else UInt32.ofNat (n % UInt32.size) :: wordsOf (n / UInt32.size)
termination_by n
decreasing_by simp only [UInt32.size] at *; omega

/-- Puts a word into the register behind the place `i`, and copies the last word of the register to
its first place when it is reached. Gives the next place. -/
def place (register : Array UInt32) (i : Nat) (word : UInt32) : Array UInt32 × Nat :=
  let register := register.setIfInBounds i word
  if i + 1 < registerSize then (register, i + 1)
  else (register.setIfInBounds 0 (wordAt register (registerSize - 1)), 1)

/-- The word of the register at a place, mixed with the one before it. -/
def mixed (register : Array UInt32) (i : Nat) (factor : UInt32) : UInt32 :=
  let last := wordAt register (i - 1)
  wordAt register i ^^^ ((last ^^^ (last >>> 30)) * factor)

/-- Mixes the words of a key into a register, over and over until each word of both has been
reached. -/
def mixKey (key : Array UInt32) (register : Array UInt32) : Array UInt32 × Nat :=
  (List.range (max registerSize key.size)).foldl (fun (register, i) k =>
    let j := k % key.size
    place register i (mixed register i 1664525 + wordAt key j + UInt32.ofNat j)) (register, 1)

/-- Mixes the words of a register with their places, from the place `i` on once around. -/
def mixPlaces (register : Array UInt32) (i : Nat) : Array UInt32 :=
  ((List.range (registerSize - 1)).foldl (fun (register, i) _ =>
    place register i (mixed register i 1566083941 - UInt32.ofNat i)) (register, i)).1

/-- The register for a seed. The sign of the seed makes no difference. -/
def ofSeed (seed : Int) : Twister :=
  let (register, i) := mixKey (wordsOf seed.natAbs).toArray (spread 19650218)
  ⟨(mixPlaces register i).setIfInBounds 0 0x80000000, registerSize⟩

/-! ## Words -/

/-- Renews the word at a place from itself and two that come after it, going around. -/
def renewAt (register : Array UInt32) (i : Nat) : Array UInt32 :=
  let joined := (wordAt register i &&& 0x80000000) |||
    (wordAt register ((i + 1) % registerSize) &&& 0x7FFFFFFF)
  let twist : UInt32 := if joined &&& 1 = 0 then 0 else 0x9908B0DF
  register.setIfInBounds i (wordAt register ((i + 397) % registerSize) ^^^ (joined >>> 1) ^^^ twist)

/-- Renews every word of the register. -/
def renew (register : Array UInt32) : Array UInt32 :=
  (List.range registerSize).foldl renewAt register

/-- How a word is given out. -/
def temper (w : UInt32) : UInt32 :=
  let w := w ^^^ (w >>> 11)
  let w := w ^^^ ((w <<< 7) &&& 0x9D2C5680)
  let w := w ^^^ ((w <<< 15) &&& 0xEFC60000)
  w ^^^ (w >>> 18)

/-- The next word. -/
def word (t : Twister) : UInt32 × Twister :=
  if t.used < registerSize then (temper (wordAt t.register t.used), ⟨t.register, t.used + 1⟩)
  else
    let register := renew t.register
    (temper (wordAt register 0), ⟨register, 1⟩)

/-! ## Numbers -/

/-- A fraction below one, of 53 bits out of two words. -/
def fraction (t : Twister) : Float × Twister :=
  let (a, t) := t.word
  let (b, t) := t.word
  (Float.ofNat ((a >>> 5).toNat <<< 26 + (b >>> 6).toNat) / Float.ofNat (1 <<< 53), t)

/-- The number of bits of a number. -/
def bitLength (n : Nat) : Nat := if n = 0 then 0 else n.log2 + 1

/-- The first of so many numbers of as many bits as `bound + 1` has that is at most the bound. -/
def upToWithin (bound : Nat) : Nat → Twister → Fin (bound + 1) × Twister
  | 0, t => (0, t)
  | tries + 1, t =>
    let (w, t) := t.word
    let n := w.toNat >>> (32 - bitLength (bound + 1))
    if h : n < bound + 1 then (⟨n, h⟩, t) else upToWithin bound tries t

/-- How many numbers may be refused before zero is taken. More than half of all numbers are taken,
so that this does not come about. -/
def patience : Nat := 10000

/-- A number that is at most the bound, which is below 2 ^ 32. -/
def upTo (bound : Nat) (t : Twister) : Fin (bound + 1) × Twister := upToWithin bound patience t

end Twister

end Lox.Corpus
