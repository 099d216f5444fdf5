import Lox.Text.Quoted

/-!
# Texts as bytes

The bytes of a text are read from left to right. A byte below 80 is a character of its own; a lead
byte says how many bytes continue it, and which the first of them may be, so that no character has a
second, longer form and none lies outside the range of characters.

* `Utf8.lead?`: what a lead byte asks for.
* `Utf8.decode`: the text, or the first bytes that are none.
-/

namespace Lox.Text.Utf8

/-- Why bytes are no character. -/
inductive Reason where
  /-- No character starts with the byte. -/
  | start
  /-- The byte behind these does not continue them. -/
  | continuation
  /-- The bytes end within a character. -/
  | ending
  deriving DecidableEq, Repr

namespace Reason

/-- The reason in words. -/
def text : Reason → String
  | start => "invalid start byte"
  | continuation => "invalid continuation byte"
  | ending => "unexpected end of data"

end Reason

/-- Bytes that are no character: the first of them, how many bytes stand before it, how many of them
there are, and why. -/
structure Malformed where
  first : UInt8
  position : Nat
  count : Nat
  reason : Reason
  deriving DecidableEq, Repr

namespace Malformed

/-- The bytes and the reason in words. A single byte is shown, several are named by their positions.
-/
def message (m : Malformed) : String :=
  let place :=
    if m.count ≤ 1 then
      "byte 0x" ++ String.ofList (hex 2 m.first.toNat) ++ " in position " ++ toString m.position
    else
      "bytes in position " ++ toString m.position ++ "-" ++ toString (m.position + m.count - 1)
  "'utf-8' codec can't decode " ++ place ++ ": " ++ m.reason.text

end Malformed

/-- A character that has begun. -/
structure Begun where
  first : UInt8
  /-- The bytes so far. -/
  count : Nat := 1
  /-- What they add up to. -/
  value : Nat
  /-- The least byte that may come next. -/
  low : Nat := 0x80
  /-- The greatest byte that may come next. -/
  high : Nat := 0xBF
  /-- The bytes that are to come after the next one. -/
  later : Nat

/-- What a lead byte begins. -/
def lead? (b : UInt8) : Option Begun :=
  let n := b.toNat
  if n < 0xC2 then none
  else if n < 0xE0 then some { first := b, value := n - 0xC0, later := 0 }
  else if n = 0xE0 then some { first := b, value := 0, low := 0xA0, later := 1 }
  else if n = 0xED then some { first := b, value := 0xD, high := 0x9F, later := 1 }
  else if n < 0xF0 then some { first := b, value := n - 0xE0, later := 1 }
  else if n = 0xF0 then some { first := b, value := 0, low := 0x90, later := 2 }
  else if n < 0xF4 then some { first := b, value := n - 0xF0, later := 2 }
  else if n = 0xF4 then some { first := b, value := 4, high := 0x8F, later := 2 }
  else none

/-- The characters of bytes that stand behind a number of others, with the character that those have
begun, if any. -/
def decodeFrom (position : Nat) : Option Begun → List UInt8 → Except Malformed (List Char)
  | none, [] => .ok []
  | some c, [] => .error ⟨c.first, position - c.count, c.count, .ending⟩
  | none, b :: bs =>
    if b.toNat < 0x80 then
      match decodeFrom (position + 1) none bs with
      | .ok cs => .ok (Char.ofNat b.toNat :: cs)
      | .error m => .error m
    else
      match lead? b with
      | none => .error ⟨b, position, 1, .start⟩
      | some c => decodeFrom (position + 1) (some c) bs
  | some c, b :: bs =>
    if c.low ≤ b.toNat ∧ b.toNat ≤ c.high then
      let value := c.value * 64 + (b.toNat - 0x80)
      match c.later with
      | 0 =>
        match decodeFrom (position + 1) none bs with
        | .ok cs => .ok (Char.ofNat value :: cs)
        | .error m => .error m
      | later + 1 =>
        let more : Begun := { first := c.first, count := c.count + 1, value, later }
        decodeFrom (position + 1) (some more) bs
    else .error ⟨c.first, position - c.count, c.count, .continuation⟩

/-- The text of some bytes, or the first of them that are no character. -/
def decode (bytes : List UInt8) : Except Malformed String :=
  match decodeFrom 0 none bytes with
  | .ok cs => .ok (String.ofList cs)
  | .error m => .error m

end Lox.Text.Utf8
