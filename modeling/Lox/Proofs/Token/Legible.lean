import Mathlib.Data.List.Forall2
import Mathlib.Tactic.IntervalCases
import Lox.Proofs.Decimal.Spelling
import Lox.Proofs.Grapheme.Clusters
import Lox.Proofs.Token.Lexed

/-!
# Tokens that a text can be made of

A token is spelled in one way, white space included, and it is legible if its spelling is a piece
that is read as the token. Marks are legible, and so are finite numbers that were read; names and
strings are if they were read from some text, names only if they join with no plain character beside
them. Tokens that may follow each other keep apart when their spellings are put together.

* `Token.spelling`: the text of a token.
* `Readable`: a piece that is read as a token, and that keeps apart from plain characters.
* `Legible`: such a piece that spells the token, too.
* `Token.Follows`: the token may stand right behind the other.
* `WrittenAs`: a text is put together from pieces that are read as tokens.
* `WrittenAs.lexed`, `Legible.lexed`: a text is read as its tokens, if each may follow the one
  before, and so is the spelling of a legible token.
* `scan_of_legible`: a text made of legible tokens, each of which may follow the one before, is
  scanned into them.
-/

namespace Lox

open Grapheme (plain IsPlain FreeBefore FreeBehind Clusters Apart)

/-! ## Spellings -/

/-- White space as it stands in a source. -/
def Blank.spelling : Blank → String
  | space => " "
  | tab => "\t"
  | carriageReturn => "\r"
  | newline => "\n"
  | crlf => "\r\n"

/-- The token as a source spells it, white space included. -/
def Token.spelling : Token → String
  | whitespace b => b.spelling
  | t => t.text

/-- The piece of plain characters. -/
def Piece.ofChars (c : Char) (cs : List Char) : Piece := ⟨⟨c, []⟩, plain cs⟩

/-- What stands behind a token that does not end by itself. -/
def Grapheme.closers : List Grapheme := [⟨' ', []⟩, ⟨'\n', []⟩, ⟨')', []⟩, ⟨';', []⟩]

/-- The piece is read as the token, and it ends before the closers. Only a number need not be
spelled as the token is. -/
structure Readable [Segmenter] (t : Token) (p : Piece) : Prop where
  chars : t.kind ≠ .number → p.graphemes.flatMap Grapheme.chars = t.spelling.toList
  reading : p.reading = .ok t
  clusters : Clusters p.graphemes
  before : FreeBefore p.lead.lead
  behind : ∀ c ∈ (p.graphemes.flatMap Grapheme.chars).getLast?, FreeBehind c
  ends : ∀ rest : List Grapheme, (∀ g ∈ rest.head?, g ∈ Grapheme.closers) → p.Ends rest

/-- The piece spells the token and is read as it, and it ends before the closers. -/
structure Legible [Segmenter] (t : Token) (p : Piece) : Prop where
  chars : p.graphemes.flatMap Grapheme.chars = t.spelling.toList
  reading : p.reading = .ok t
  clusters : Clusters p.graphemes
  before : FreeBefore p.lead.lead
  behind : ∀ c ∈ t.spelling.toList.getLast?, FreeBehind c
  ends : ∀ rest : List Grapheme, (∀ g ∈ rest.head?, g ∈ Grapheme.closers) → p.Ends rest

namespace Readable

variable {t : Token} {p : Piece}

theorem graphemes_ofChars (c : Char) (cs : List Char) :
    (Piece.ofChars c cs).graphemes = plain (c :: cs) :=
  rfl

/-- Plain characters that are read as a token. -/
theorem ofChars [Segmenter] {c : Char} {cs : List Char}
    (spelled : t.kind ≠ .number → t.spelling.toList = c :: cs)
    (reading : (Piece.ofChars c cs).reading = .ok t) (plain : ∀ d ∈ c :: cs, IsPlain d)
    (ends : ∀ rest : List Grapheme, (∀ g ∈ rest.head?, g ∈ Grapheme.closers) →
      (Piece.ofChars c cs).Ends rest) : Readable t (.ofChars c cs) where
  chars other := by rw [graphemes_ofChars, Grapheme.flatMap_chars_plain, spelled other]
  reading := reading
  clusters := Grapheme.clusters_plain plain
  before := (plain c List.mem_cons_self).freeBefore
  behind d mem := by
    rw [graphemes_ofChars, Grapheme.flatMap_chars_plain] at mem
    exact (plain d (List.mem_of_mem_getLast? mem)).freeBehind
  ends := ends

/-- What is read as a token and spells it is legible. -/
theorem legible [Segmenter] (h : Readable t p)
    (spelled : p.graphemes.flatMap Grapheme.chars = t.spelling.toList) : Legible t p where
  chars := spelled
  reading := h.reading
  clusters := h.clusters
  before := h.before
  behind := by
    rw [← spelled]
    exact h.behind
  ends := h.ends

end Readable

namespace Legible

variable [Segmenter] {t : Token} {p : Piece}

theorem readable (h : Legible t p) : Readable t p where
  chars _ := h.chars
  reading := h.reading
  clusters := h.clusters
  before := h.before
  behind := by
    rw [h.chars]
    exact h.behind
  ends := h.ends

/-- Plain characters that are read as a token they spell. -/
theorem ofChars {c : Char} {cs : List Char} (spelled : t.spelling.toList = c :: cs)
    (reading : (Piece.ofChars c cs).reading = .ok t) (plain : ∀ d ∈ c :: cs, IsPlain d)
    (ends : ∀ rest : List Grapheme, (∀ g ∈ rest.head?, g ∈ Grapheme.closers) →
      (Piece.ofChars c cs).Ends rest) : Legible t (.ofChars c cs) :=
  (Readable.ofChars (fun _ => spelled) reading plain ends).legible
    (by rw [Readable.graphemes_ofChars, Grapheme.flatMap_chars_plain, spelled])

end Legible

/-! ## Marks and white space -/

theorem Piece.ends_of_closers {p : Piece} (none : p.Ends [])
    (some : ∀ g ∈ Grapheme.closers, ∀ rest, p.Ends (g :: rest)) (rest : List Grapheme)
    (h : ∀ g ∈ rest.head?, g ∈ Grapheme.closers) : p.Ends rest := by
  cases rest with
  | nil => exact none
  | cons g rest => exact some g (h g rfl) rest

/-- Every mark but the end of a source is legible. -/
theorem exists_legible_mark [Segmenter] {m : Mark} (h : m ≠ .endOfFile) :
    ∃ p, Legible (.mark m) p := by
  cases m <;> first
    | exact absurd rfl h
    | refine ⟨_, .ofChars rfl rfl (Grapheme.isPlain_of_all rfl) (Piece.ends_of_closers rfl ?_)⟩
  all_goals
    intro g mem rest
    simp only [Grapheme.closers, List.mem_cons, List.not_mem_nil, or_false] at mem
    obtain rfl | rfl | rfl | rfl := mem <;> rfl

theorem exists_legible_space [Segmenter] : ∃ p, Legible (.whitespace .space) p :=
  ⟨_, .ofChars rfl rfl (Grapheme.isPlain_of_all rfl) fun _ _ => rfl⟩

theorem exists_legible_newline [Segmenter] : ∃ p, Legible (.whitespace .newline) p :=
  ⟨_, .ofChars rfl rfl (Grapheme.isPlain_of_all rfl) fun _ _ => rfl⟩

/-! ## Numbers -/

/-- The digits start no other tokens, and nothing joins with them. -/
theorem digit_starts_number {c : Char} (h : c.isDigit) :
    Piece.single? ⟨c, []⟩ = none ∧ Piece.withEqual? ⟨c, []⟩ = none ∧
      Blank.ofGrapheme? ⟨c, []⟩ = none ∧ c ≠ '/' ∧ c ≠ '"' ∧ c ≠ '.' ∧ IsPlain c := by
  have mem := Decimal.mem_digits_of_isDigit h
  simp only [List.mem_cons, List.not_mem_nil, or_false] at mem
  obtain rfl | rfl | rfl | rfl | rfl | rfl | rfl | rfl | rfl | rfl := mem <;> decide

namespace Piece

theorem isDigit_of_mem_plain {cs : List Char} (h : ∀ c ∈ cs, c.isDigit) :
    ∀ g ∈ plain cs, g.isDigit := by
  intro g mem
  obtain ⟨c, mem', rfl⟩ := List.mem_map.mp mem
  exact h c mem'

theorem closers_not_digit {rest : List Grapheme} (h : ∀ g ∈ rest.head?, g ∈ Grapheme.closers) :
    ∀ g ∈ rest.head?, g.isDigit = false ∧ g ≠ ⟨'.', []⟩ := by
  intro g mem
  have closer := h g mem
  clear h mem
  revert g
  decide

/-- A whole number ends before what is neither a digit nor a point. -/
theorem numberExtent_whole {cs : List Char} (digits : ∀ c ∈ cs, c.isDigit) {rest : List Grapheme}
    (next : ∀ g ∈ rest.head?, g.isDigit = false ∧ g ≠ ⟨'.', []⟩) :
    numberExtent (plain cs ++ rest) = (plain cs).length := by
  unfold numberExtent
  rw [takeWhile_append_stop (isDigit_of_mem_plain digits) fun g mem => (next g mem).1]
  dsimp only
  rw [List.drop_left]
  cases rest with
  | nil => rfl
  | cons g rest =>
    have point := (next g rfl).2
    split
    · rename_i same
      exact absurd (List.cons.inj same).1 point
    · rfl

/-- A number with a point ends before what is no digit. -/
theorem numberExtent_fraction {cs ds : List Char} (digits : ∀ c ∈ cs ++ ds, c.isDigit)
    (some : ds ≠ []) {rest : List Grapheme} (next : ∀ g ∈ rest.head?, g.isDigit = false) :
    numberExtent (plain (cs ++ '.' :: ds) ++ rest) = (plain (cs ++ '.' :: ds)).length := by
  have split : plain (cs ++ '.' :: ds) ++ rest = plain cs ++ ⟨'.', []⟩ :: (plain ds ++ rest) := by
    simp [plain]
  have whole : (plain cs ++ ⟨'.', []⟩ :: (plain ds ++ rest)).takeWhile Grapheme.isDigit =
      plain cs := by
    apply takeWhile_append_stop
    · exact isDigit_of_mem_plain fun c mem => digits c (List.mem_append_left _ mem)
    · rintro _ ⟨⟩
      rfl
  have behind : (plain ds ++ rest).takeWhile Grapheme.isDigit = plain ds := by
    apply takeWhile_append_stop _ next
    exact isDigit_of_mem_plain fun c mem => digits c (List.mem_append_right _ mem)
  unfold numberExtent
  rw [split, whole]
  dsimp only
  rw [List.drop_left]
  cases ds with
  | nil => exact absurd rfl some
  | cons d ds =>
    have digit : Grapheme.isDigit ⟨d, []⟩ = true := digits d (by simp)
    simp only [plain, List.map_cons, List.cons_append] at behind ⊢
    rw [digit, if_pos rfl, behind]
    simp
    omega

/-- A piece of digits, or of digits with a point between them, is read as their number. -/
theorem reading_number {c : Char} {cs fraction : List Char}
    (digits : ∀ d ∈ c :: cs ++ fraction, d.isDigit) :
    (ofChars c (cs ++ if fraction = [] then [] else '.' :: fraction)).reading =
      .ok (.number (Decimal.ofDigits (c :: cs) fraction).toFloat) := by
  have digit : c.isDigit := digits c (by simp)
  obtain ⟨noMark, noPair, noBlank, notSlash, notQuote, -, -⟩ := digit_starts_number digit
  have number (p : Piece) (lead : p.lead = ⟨c, []⟩) : p.reading = .ok (.number p.numberOf) := by
    unfold reading
    rw [lead, noMark, noPair, noBlank]
    simp [notSlash, notQuote, show Grapheme.isDigit ⟨c, []⟩ = true from digit]
  rw [number _ rfl]
  have notPoint : ∀ d ∈ c :: cs, (d != '.') = true := by
    intro d mem
    obtain ⟨-, -, -, -, -, notPoint, -⟩ :=
      digit_starts_number (digits d (List.mem_append_left _ mem))
    exact bne_iff_ne.mpr notPoint
  have characters : (ofChars c (cs ++ if fraction = [] then [] else '.' :: fraction)).graphemes.map
      Grapheme.lead = (c :: cs) ++ if fraction = [] then [] else '.' :: fraction := by
    simp [Readable.graphemes_ofChars, plain, Function.comp_def]
  unfold numberOf
  rw [characters]
  dsimp only
  rw [List.takeWhile_append_of_pos notPoint, List.dropWhile_append_of_pos notPoint]
  by_cases none : fraction = []
  · rw [if_pos none, none]
    simp
  · rw [if_neg none]
    simp

end Piece

/-- A number that was read has no sign. -/
theorem Piece.toBits_numberOf_lt (p : Piece) : p.numberOf.toBits.toNat < 2 ^ 63 :=
  Decimal.toBits_nearest_lt _ _

/-- Digits, or digits with a point between them, are readable. -/
theorem readable_number [Segmenter] {c : Char} {cs fraction : List Char}
    (digits : ∀ d ∈ c :: cs ++ fraction, d.isDigit) :
    Readable (.number (Decimal.ofDigits (c :: cs) fraction).toFloat)
      (.ofChars c (cs ++ if fraction = [] then [] else '.' :: fraction)) := by
  refine .ofChars (fun other => absurd rfl other) (Piece.reading_number digits) ?_ ?_
  · intro d mem
    by_cases point : d = '.'
    · rw [point]
      decide
    · have digit : d.isDigit := by
        apply digits d
        split at mem <;> simp_all
      exact (digit_starts_number digit).2.2.2.2.2.2
  · intro rest next
    have behind := Piece.closers_not_digit next
    obtain ⟨-, noPair, -, notSlash, notQuote, -, -⟩ := digit_starts_number (digits c (by simp))
    have extent_eq (gs : List Grapheme) : Piece.extent ⟨c, []⟩ gs = Piece.numberExtent gs := by
      unfold Piece.extent
      simp [noPair, notSlash, notQuote,
        show Grapheme.isDigit ⟨c, []⟩ = true from digits c (by simp)]
    show Piece.extent ⟨c, []⟩ (plain _ ++ rest) = (plain _).length
    rw [extent_eq]
    by_cases none : fraction = []
    · rw [if_pos none, List.append_nil]
      exact Piece.numberExtent_whole (fun d mem => digits d (by simp [mem])) behind
    · rw [if_neg none]
      exact Piece.numberExtent_fraction (fun d mem => digits d (by simp_all)) none
        fun g mem => (behind g mem).1

/-- A finite number that was read is legible. -/
theorem exists_legible_number [Segmenter] {x : Float} (h : x.toBits.toNat < 2 ^ 63)
    (finite : x.isFinite) : ∃ p, Legible (.number x) p := by
  have unsigned := Decimal.hasSign_eq_false h
  obtain ⟨whole, fraction, text, digits, -⟩ := Decimal.exists_spelling_write finite
  obtain ⟨c, cs, rfl⟩ := List.exists_cons_of_ne_nil digits.whole_ne_nil
  have spelled : (Token.number x).spelling.toList =
      c :: (cs ++ if fraction = [] then [] else '.' :: fraction) := by
    show (Layout.plain.write x).toList = _
    rw [text, unsigned, String.toList_ofList]
    rfl
  have readable := readable_number digits.isDigit
  rw [digits.toFloat_eq finite unsigned] at readable
  exact ⟨_, readable.legible
    (by rw [Readable.graphemes_ofChars, Grapheme.flatMap_chars_plain, spelled])⟩

/-! ## Names and strings -/

section Source

variable {gs : List Grapheme} {p : Piece}

theorem Piece.chars_eq_text (p : Piece) : p.graphemes.flatMap Grapheme.chars = p.text.toList := by
  rw [Piece.text, Grapheme.join, String.toList_ofList]

theorem closers_not_alphanumeric :
    ∀ g ∈ Grapheme.closers, g.isAlphanumeric = false := by
  decide

/-- A name that was read is legible if it joins with no plain character beside it. -/
theorem legible_identifier [Segmenter] {n : String} (clusters : Clusters gs)
    (mem : p ∈ Piece.cut gs) (reading : p.reading = .ok (.identifier n))
    (before : ∀ c ∈ n.toList.head?, FreeBefore c)
    (behind : ∀ c ∈ n.toList.getLast?, FreeBehind c) : Legible (.identifier n) p := by
  cases Piece.readAs_of_reading reading with
  | identifier word =>
    refine ⟨p.chars_eq_text, reading, clusters.part (Piece.mem_cut mem).1, ?_, behind, ?_⟩
    · apply before
      rw [← p.chars_eq_text]
      rfl
    · intro rest next
      exact word.ends (Piece.isAlphanumeric_of_mem_tail mem word) fun g mem' =>
        closers_not_alphanumeric g (next g mem')

/-- A string that was read is legible. -/
theorem legible_string [Segmenter] {text : String} (clusters : Clusters gs) (mem : p ∈ Piece.cut gs)
    (reading : p.reading = .ok (.string text)) : Legible (.string text) p := by
  cases Piece.readAs_of_reading reading with
  | string inner lead tail =>
    have quote : IsPlain '"' := by decide
    have spelled : (Token.string (Grapheme.join inner)).spelling.toList =
        '"' :: inner.flatMap Grapheme.chars ++ ['"'] := by
      show ("\"" ++ Grapheme.join inner ++ "\"").toList = _
      rw [Grapheme.join]
      simp
    refine ⟨?_, reading, clusters.part (Piece.mem_cut mem).1, ?_, ?_, ?_⟩
    · rw [spelled, Piece.graphemes, lead, tail]
      simp [Grapheme.chars]
    · rw [lead]
      exact quote.freeBefore
    · intro c last
      rw [spelled, List.getLast?_concat] at last
      cases last
      exact quote.freeBehind
    · intro rest _
      exact Piece.ends_of_quote lead tail (Piece.ne_quote_of_mem_inner mem lead tail)

end Source

/-! ## Neighbours -/

namespace Token

/-- The tokens that end whatever stands before them. -/
def closings : List Token :=
  [.whitespace .space, .whitespace .newline, .mark .rightParen, .mark .semicolon]

/-- The tokens that end by themselves, whatever stands behind them. -/
def openings : List Token :=
  [.whitespace .space, .whitespace .newline, .mark .leftParen, .mark .minus]

/-- The token may stand right behind the other. -/
inductive Follows : Token → Token → Prop where
  | closing {t u : Token} : u ∈ closings → Follows t u
  | opening {t u : Token} : t ∈ openings → Follows t u
  /-- What stands behind an exclamation mark may not start with an equals sign. -/
  | bang {u : Token} : u ≠ .mark .equal → u ≠ .mark .equalEqual → Follows (.mark .bang) u

end Token

namespace Readable

variable [Segmenter] {t u : Token} {p q : Piece}

/-- A token with one character is one grapheme. -/
theorem eq_of_single {c : Char} (h : Readable t p) (other : t.kind ≠ .number)
    (single : t.spelling.toList = [c]) : p = ⟨⟨c, []⟩, []⟩ := by
  have chars := h.chars other
  obtain ⟨⟨lead, marks⟩, tail⟩ := p
  rw [single, Piece.graphemes, List.flatMap_cons, Grapheme.chars, List.cons_append] at chars
  obtain ⟨rfl, rest⟩ := List.cons.inj chars
  obtain ⟨rfl, none⟩ := List.append_eq_nil_iff.mp rest
  cases tail with
  | nil => rfl
  | cons g tail => simp [Grapheme.chars] at none

theorem eq_of_mem_closings (h : Readable t p) (mem : t ∈ Token.closings) :
    ∃ g ∈ Grapheme.closers, IsPlain g.lead ∧ p = ⟨g, []⟩ := by
  simp only [Token.closings, List.mem_cons, List.not_mem_nil, or_false] at mem
  obtain rfl | rfl | rfl | rfl := mem <;>
    exact ⟨_, by decide, by decide, h.eq_of_single nofun rfl⟩

theorem eq_of_mem_openings (h : Readable t p) (mem : t ∈ Token.openings) :
    ∃ c, IsPlain c ∧ p = ⟨⟨c, []⟩, []⟩ ∧ ∀ rest, p.Ends rest := by
  simp only [Token.openings, List.mem_cons, List.not_mem_nil, or_false] at mem
  obtain rfl | rfl | rfl | rfl := mem <;>
    exact ⟨_, by decide, h.eq_of_single nofun rfl, h.eq_of_single nofun rfl ▸ fun _ => rfl⟩

/-- A token ends before one that may follow it. -/
theorem ends_of_follows (ht : Readable t p) (hu : Readable u q) (h : t.Follows u)
    (rest : List Grapheme) : p.Ends (q.graphemes ++ rest) := by
  cases h with
  | closing mem =>
    obtain ⟨g, closer, -, rfl⟩ := hu.eq_of_mem_closings mem
    exact ht.ends _ (by rintro _ ⟨⟩; exact closer)
  | opening mem =>
    obtain ⟨c, -, -, ends⟩ := ht.eq_of_mem_openings mem
    exact ends _
  | bang notEqual notEqualEqual =>
    have bang : p = ⟨⟨'!', []⟩, []⟩ := ht.eq_of_single nofun rfl
    have notSign : q.lead ≠ ⟨'=', []⟩ := by
      obtain ⟨lead, tail⟩ := q
      rintro rfl
      cases tail with
      | nil => exact notEqual (Except.ok.inj hu.reading).symm
      | cons g tail => exact notEqualEqual (Except.ok.inj hu.reading).symm
    subst bang
    show (if some q.lead = some ⟨'=', []⟩ then 1 else 0) = 0
    rw [if_neg (by simpa using notSign)]

/-- A piece ends with a character that a boundary stands behind. -/
theorem exists_last (h : Readable t p) {g : Grapheme} (last : g ∈ p.graphemes.getLast?) :
    ∃ c ∈ g.chars.getLast?, FreeBehind c := by
  obtain ⟨gs, split⟩ := List.getLast?_eq_some_iff.mp last
  obtain ⟨cs, c, chars⟩ := List.eq_nil_or_concat' g.chars |>.resolve_left (List.cons_ne_nil _ _)
  refine ⟨c, by rw [chars, List.getLast?_concat]; rfl, h.behind c ?_⟩
  rw [split, List.flatMap_append, List.flatMap_singleton, chars, ← List.append_assoc,
    List.getLast?_concat]
  rfl

theorem isWhole_of_mem (h : Readable t p) {g : Grapheme} (mem : g ∈ p.graphemes) :
    g.IsWhole :=
  h.clusters.whole mem

theorem isWhole_lead (h : Readable t p) : p.lead.IsWhole :=
  h.isWhole_of_mem List.mem_cons_self

/-- A boundary stands between a token and one that may follow it. -/
theorem apart_of_follows (ht : Readable t p) (hu : Readable u q) (h : t.Follows u) {g : Grapheme}
    (last : g ∈ p.graphemes.getLast?) : Apart g q.lead := by
  cases h with
  | closing mem =>
    obtain ⟨closer, -, plain, rfl⟩ := hu.eq_of_mem_closings mem
    obtain ⟨c, end_, free⟩ := ht.exists_last last
    exact Grapheme.apart_of_plain_right (ht.isWhole_of_mem (List.mem_of_mem_getLast? last))
      hu.isWhole_lead plain end_ free
  | opening mem =>
    obtain ⟨c, plain, rfl, -⟩ := ht.eq_of_mem_openings mem
    cases last
    exact Grapheme.apart_of_plain_left plain hu.isWhole_lead hu.before
  | bang =>
    have bang : p = ⟨⟨'!', []⟩, []⟩ := ht.eq_of_single nofun rfl
    subst bang
    cases last
    exact Grapheme.apart_of_plain_left (by decide) hu.isWhole_lead hu.before

end Readable

/-! ## Texts of tokens -/

/-- Tokens that may follow each other keep apart. -/
theorem separate_of_follows [Segmenter] {ts : List Token} {ps : List Piece}
    (h : List.Forall₂ Readable ts ps) (chain : ts.IsChain Token.Follows) :
    Piece.Separate ps ∧ Clusters (ps.flatMap Piece.graphemes) := by
  induction h with
  | nil => exact ⟨trivial, Grapheme.clusters_nil⟩
  | @cons t p ts ps head rest ih =>
    obtain ⟨separate, clusters⟩ := ih chain.tail
    rw [List.flatMap_cons]
    cases rest with
    | nil => exact ⟨⟨head.ends _ (by simp), trivial⟩, by simpa using head.clusters⟩
    | @cons u q ts ps next rest =>
      have follows : t.Follows u := chain.rel_head? rfl
      refine ⟨⟨?_, separate⟩, head.clusters.append clusters ?_⟩
      · rw [List.flatMap_cons]
        exact head.ends_of_follows next follows _
      · rintro g last _ ⟨⟩
        exact head.apart_of_follows next follows last

/-- The code points are those of pieces that are read as the tokens. -/
def WrittenAs [Segmenter] (cs : List Char) (ts : List Token) : Prop :=
  ∃ ps, List.Forall₂ Readable ts ps ∧ (ps.flatMap Piece.graphemes).flatMap Grapheme.chars = cs

namespace WrittenAs

variable [Segmenter] {cs ds : List Char} {ts us : List Token}

theorem nil : WrittenAs [] [] :=
  ⟨[], .nil, rfl⟩

theorem of_readable {t : Token} {p : Piece} (h : Readable t p) :
    WrittenAs (p.graphemes.flatMap Grapheme.chars) [t] :=
  ⟨[p], .cons h .nil, by rw [List.flatMap_singleton]⟩

theorem append (h : WrittenAs cs ts) (h' : WrittenAs ds us) : WrittenAs (cs ++ ds) (ts ++ us) := by
  obtain ⟨ps, read, rfl⟩ := h
  obtain ⟨qs, read', rfl⟩ := h'
  exact ⟨ps ++ qs, List.rel_append read read', by rw [List.flatMap_append, List.flatMap_append]⟩

/-- Legible tokens are written as they are spelled. -/
theorem of_legible (legible : ∀ t ∈ ts, ∃ p, Legible t p) :
    WrittenAs (ts.flatMap fun t => t.spelling.toList) ts := by
  induction ts with
  | nil => exact nil
  | cons t ts ih =>
    rw [List.forall_mem_cons] at legible
    obtain ⟨⟨p, head⟩, rest⟩ := legible
    have first := of_readable head.readable
    rw [head.chars] at first
    exact first.append (ih rest)

/-- Tokens that are written, each of which may follow the one before, are what is read. -/
theorem lexed (h : WrittenAs cs ts) (chain : ts.IsChain Token.Follows) : Lexed cs ts := by
  obtain ⟨ps, read, rfl⟩ := h
  obtain ⟨separate, clusters⟩ := separate_of_follows read chain
  rw [Lexed, clusters.split_eq, Piece.cut_flatMap separate]
  clear chain separate clusters
  induction read with
  | nil => rfl
  | cons head _ ih => rw [List.map_cons, List.map_cons, head.reading, ih]

end WrittenAs

/-- The spelling of a legible token is read as it. -/
theorem Legible.lexed [Segmenter] {t : Token} {p : Piece} (h : Legible t p) :
    Lexed t.spelling.toList [t] := by
  have written := WrittenAs.of_readable h.readable
  rw [h.chars] at written
  exact written.lexed (.singleton _)

/-- A text made of legible tokens, each of which may follow the one before, is scanned into them. -/
theorem scan_of_legible [Segmenter] {ts : List Token} (legible : ∀ t ∈ ts, ∃ p, Legible t p)
    (chain : ts.IsChain Token.Follows) {text : String}
    (spelled : text.toList = ts.flatMap fun t => t.spelling.toList) :
    ∃ placed stop, (Source.ofText text).scan = ⟨placed ++ [stop], []⟩ ∧ stop.isEnd ∧
      (∀ t ∈ placed ++ [stop], t.span.isSome) ∧ placed.map PlacedToken.token = ts :=
  scan_of_lexed (spelled ▸ (WrittenAs.of_legible legible).lexed chain)

end Lox
