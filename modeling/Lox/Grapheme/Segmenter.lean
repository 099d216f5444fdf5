import Lox.Grapheme.Basic

/-!
# Ways to split a text into graphemes

Which code points combine is told by tables that grow with every release of the character data.
Reading a source relies on none of these tables, but on a few laws that hold for all of them.

* `Segmenter`: a way to split texts, with the laws.
* `Grapheme.split`: the graphemes of a text. They lose nothing: `Grapheme.join_split`.
-/

namespace Lox

/-- A printable ASCII character or a line feed. -/
def Grapheme.IsPlain (c : Char) : Prop := (32 ≤ c.toNat ∧ c.toNat < 127) ∨ c = '\n'

instance (c : Char) : Decidable (Grapheme.IsPlain c) := by
  unfold Grapheme.IsPlain
  infer_instance

/-- A way to split texts into graphemes. -/
class Segmenter where
  /-- The graphemes of a run of code points. -/
  split : List Char → List Grapheme
  /-- Nothing is lost. -/
  flatMap_chars_split (cs : List Char) : (split cs).flatMap Grapheme.chars = cs
  /-- A part of what was split is split in the same way by itself. -/
  split_of_infix {cs : List Char} {gs : List Grapheme} :
    gs <:+: split cs → split (gs.flatMap Grapheme.chars) = gs
  /-- What is added behind a text changes nothing but its last grapheme. -/
  split_append {cs : List Char} {gs : List Grapheme} {g : Grapheme} (ds : List Char) :
    split cs = gs ++ [g] → split (cs ++ ds) = gs ++ split (g.chars ++ ds)
  /-- A carriage return and a line feed behind it are one grapheme. -/
  split_crlf : split ['\r', '\n'] = [⟨'\r', ['\n']⟩]
  /-- Otherwise neither of them is in a grapheme with other code points. -/
  eq_of_mem_chars {g : Grapheme} : split g.chars = [g] → '\r' ∈ g.chars ∨ '\n' ∈ g.chars →
    g = ⟨'\r', []⟩ ∨ g = ⟨'\n', []⟩ ∨ g = ⟨'\r', ['\n']⟩
  /-- No two plain characters are. -/
  split_plain {c d : Char} : Grapheme.IsPlain c → Grapheme.IsPlain d →
    split [c, d] = [⟨c, []⟩, ⟨d, []⟩]
  /-- Beside a plain character, the code points on both sides tell whether a boundary stands between
  two graphemes. -/
  split_seam {g h : Grapheme} {c : Char} : split g.chars = [g] → split h.chars = [h] →
    g.chars.getLast? = some c → Grapheme.IsPlain c ∨ Grapheme.IsPlain h.lead →
    split [c, h.lead] = [⟨c, []⟩, ⟨h.lead, []⟩] → split (g.chars ++ h.chars) = [g, h]

namespace Grapheme

variable [Segmenter]

/-- The graphemes of a text. -/
def split (s : String) : List Grapheme := Segmenter.split s.toList

/-- The graphemes of a text, put together, are the text. -/
theorem join_split (s : String) : join (split s) = s := by
  rw [join, split, Segmenter.flatMap_chars_split, String.ofList_toList]

end Grapheme

end Lox
