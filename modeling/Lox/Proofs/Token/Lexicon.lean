import Lox.Proofs.Decimal.Numeral
import Lox.Proofs.Token.Legible
import Lox.Proofs.Token.Tiling

/-!
# The lexical grammar

What a source may be made of, told without saying how it is found: each lexeme by the graphemes that
it consists of and by what may not follow it. A word and a number go as far as they can, an operator
takes an equals sign that stands behind it, a comment ends before a line break, and a string at the
next quote. Every source is made of lexemes in exactly one way, and that is how it is scanned.

* `Lexeme`: the lexemes, each with what it is read as and with what stands behind it.
* `Lexeme.Found`: what is found in a source: lexemes, and graphemes that no lexeme starts with.
* `Lexeme.front`: a lexeme is one where less stands behind it, so the first pieces of a source, and
  the last ones, are cut alike by themselves (`Piece.cut_front`, `Piece.cut_back`).
* `Source.Lexes`: a source from one grapheme on, as a row of what is found in it.
* `lexes_iff_scan`: the main statement.
-/

namespace Lox

/-- The marks that are one grapheme by themselves, whatever follows. -/
def Mark.punctuation : List Mark :=
  [.leftParen, .rightParen, .leftBrace, .rightBrace, .comma, .dot, .minus, .plus, .semicolon, .star,
    .question, .colon]

/-- The marks that take an equals sign behind them. -/
def Mark.extensible : List Mark := [.bang, .equal, .less, .greater]

/-- The graphemes are all that has the property before the others. -/
structure Grapheme.Run (f : Grapheme → Bool) (gs rest : List Grapheme) : Prop where
  inside : ∀ g ∈ gs, f g
  next : ∀ g ∈ rest.head?, f g = false

/-- The graphemes, with the others behind them, are a lexeme that is read so. -/
inductive Lexeme : List Grapheme → List Grapheme → Except Cause Token → Prop where
  | keyword {g : Grapheme} {tail rest : List Grapheme} {m : Mark} :
    g.isAlpha → Grapheme.Run Grapheme.isAlphanumeric tail rest →
    m ∈ Mark.keywords → m.spelling = Grapheme.join (g :: tail) →
    Lexeme (g :: tail) rest (.ok (.mark m))
  | identifier {g : Grapheme} {tail rest : List Grapheme} :
    g.isAlpha → Grapheme.Run Grapheme.isAlphanumeric tail rest →
    (∀ m ∈ Mark.keywords, m.spelling ≠ Grapheme.join (g :: tail)) →
    Lexeme (g :: tail) rest (.ok (.identifier (Grapheme.join (g :: tail))))
  /-- A number without a point. No point with a digit behind it follows. -/
  | whole {digits rest : List Grapheme} {x : Float} :
    digits ≠ [] → Grapheme.Run Grapheme.isDigit digits rest →
    (∀ d more, rest = ⟨'.', []⟩ :: d :: more → d.isDigit = false) →
    Decimal.floatOfText? (Grapheme.join digits) = some x →
    Lexeme digits rest (.ok (.number x))
  | fraction {digits fraction rest : List Grapheme} {x : Float} :
    digits ≠ [] → (∀ d ∈ digits, d.isDigit) →
    fraction ≠ [] → Grapheme.Run Grapheme.isDigit fraction rest →
    Decimal.floatOfText? (Grapheme.join (digits ++ ⟨'.', []⟩ :: fraction)) = some x →
    Lexeme (digits ++ ⟨'.', []⟩ :: fraction) rest (.ok (.number x))
  | operator {g : Grapheme} {rest : List Grapheme} {m : Mark} :
    m ∈ Mark.extensible → g.text = m.spelling → rest.head? ≠ some ⟨'=', []⟩ →
    Lexeme [g] rest (.ok (.mark m))
  | operatorEqual {g : Grapheme} {rest : List Grapheme} {m extended : Mark} :
    m ∈ Mark.extensible → g.text = m.spelling → extended.spelling = m.spelling ++ "=" →
    Lexeme [g, ⟨'=', []⟩] rest (.ok (.mark extended))
  | comment {body rest : List Grapheme} :
    Grapheme.Run (fun g => !g.isNewline) body rest →
    Lexeme (⟨'/', []⟩ :: ⟨'/', []⟩ :: body) rest
      (.ok (.comment (Grapheme.join (⟨'/', []⟩ :: ⟨'/', []⟩ :: body))))
  | slash {rest : List Grapheme} :
    rest.head? ≠ some ⟨'/', []⟩ → Lexeme [⟨'/', []⟩] rest (.ok (.mark .slash))
  | string {inner rest : List Grapheme} :
    (∀ g ∈ inner, g ≠ ⟨'"', []⟩) →
    Lexeme (⟨'"', []⟩ :: inner ++ [⟨'"', []⟩]) rest (.ok (.string (Grapheme.join inner)))
  /-- A quote without a later one, and all that is left. -/
  | unterminated {inner : List Grapheme} :
    (∀ g ∈ inner, g ≠ ⟨'"', []⟩) → Lexeme (⟨'"', []⟩ :: inner) [] (.error .unterminatedString)
  | punctuation {g : Grapheme} {rest : List Grapheme} {m : Mark} :
    m ∈ Mark.punctuation → g.text = m.spelling → Lexeme [g] rest (.ok (.mark m))
  | blank {g : Grapheme} {rest : List Grapheme} {b : Blank} :
    g.text = b.spelling → Lexeme [g] rest (.ok (.whitespace b))

/-- What is found in a source: a lexeme, or a grapheme that no lexeme starts with. -/
inductive Lexeme.Found : List Grapheme → List Grapheme → Except Cause Token → Prop where
  | lexeme {piece rest : List Grapheme} {reading : Except Cause Token} :
    Lexeme piece rest reading → Found piece rest reading
  | unexpected {g : Grapheme} {rest : List Grapheme} :
    (∀ tail rest reading, ¬ Lexeme (g :: tail) rest reading) →
    Found [g] rest (.error (.unexpectedCharacter g))

/-- From its grapheme `i` on, the source is a row of what is found in it. These are the tokens and
the reports, each at its place, and the end of the source. -/
inductive Source.Lexes (s : Source) : Nat → List PlacedToken → List Diagnostic → Prop where
  | stop : Lexes s s.length
    [⟨.mark .endOfFile, some ⟨s.locate s.length, s.locate s.length⟩⟩] []
  | token {i j : Nat} {t : Token} {ts : List PlacedToken} {ds : List Diagnostic} :
    i < j → j ≤ s.length →
    Lexeme.Found ((s.graphemes.take j).drop i) (s.graphemes.drop j) (.ok t) →
    Lexes s j ts ds → Lexes s i (⟨t, some ⟨s.locate i, s.locate j⟩⟩ :: ts) ds
  | report {i j : Nat} {cause : Cause} {ts : List PlacedToken} {ds : List Diagnostic} :
    i < j → j ≤ s.length →
    Lexeme.Found ((s.graphemes.take j).drop i) (s.graphemes.drop j) (.error cause) →
    Lexes s j ts ds → Lexes s i ts (⟨cause, some ⟨s.locate i, s.locate j⟩⟩ :: ds)

/-! ## What a grapheme starts -/

theorem Grapheme.eq_of_text {g : Grapheme} {c : Char} {s : String} (h : g.text = s)
    (spelled : s.toList = [c]) : g = ⟨c, []⟩ := by
  obtain ⟨lead, marks⟩ := g
  rw [← h, Grapheme.text, String.toList_ofList, Grapheme.chars, List.cons.injEq] at spelled
  obtain ⟨rfl, rfl⟩ := spelled
  rfl

/-- No two keywords are spelled alike. -/
theorem Mark.ofKeyword?_spelling {m : Mark} (h : m ∈ keywords) :
    ofKeyword? m.spelling = some m := by
  revert m
  decide

theorem Blank.ofGrapheme?_eq_some {g : Grapheme} {b : Blank} :
    ofGrapheme? g = some b ↔ g.text = b.spelling := by
  constructor
  · intro h
    unfold ofGrapheme? at h
    split at h <;> cases h <;> rfl
  · obtain ⟨lead, marks⟩ := g
    intro h
    rw [← String.toList_inj, Grapheme.text, String.toList_ofList, Grapheme.chars] at h
    cases b <;> obtain ⟨rfl, rfl⟩ := List.cons.inj h <;> rfl

namespace Piece

variable {g : Grapheme} {rest : List Grapheme}

theorem single?_eq_some {m : Mark} :
    single? g = some m ↔ m ∈ Mark.punctuation ∧ g.text = m.spelling := by
  constructor
  · intro h
    unfold single? at h
    split at h <;> cases h <;> exact ⟨by decide, rfl⟩
  · rintro ⟨mem, text⟩
    simp only [Mark.punctuation, List.mem_cons, List.not_mem_nil, or_false] at mem
    obtain rfl | rfl | rfl | rfl | rfl | rfl | rfl | rfl | rfl | rfl | rfl | rfl := mem <;>
      rw [Grapheme.eq_of_text text rfl] <;> rfl

theorem withEqual?_eq_some {m extended : Mark} :
    withEqual? g = some (m, extended) ↔
      m ∈ Mark.extensible ∧ g.text = m.spelling ∧ extended.spelling = m.spelling ++ "=" := by
  constructor
  · intro h
    unfold withEqual? at h
    split at h <;> cases h <;> exact ⟨by decide, rfl, rfl⟩
  · rintro ⟨mem, text, spelled⟩
    simp only [Mark.extensible, List.mem_cons, List.not_mem_nil, or_false] at mem
    obtain rfl | rfl | rfl | rfl := mem <;> rw [Grapheme.eq_of_text text rfl] <;>
      cases extended <;> first | rfl | exact absurd spelled (by decide)

theorem exists_mem_digits (h : g.isDigit) :
    ∃ c, g = ⟨c, []⟩ ∧ c ∈ ['0', '1', '2', '3', '4', '5', '6', '7', '8', '9'] := by
  obtain ⟨c, _ | ⟨mark, marks⟩⟩ := g
  · exact ⟨c, rfl, Decimal.mem_digits_of_isDigit h⟩
  · cases h

theorem exists_withEqual {m : Mark} (h : m ∈ Mark.extensible) (text : g.text = m.spelling) :
    ∃ extended, withEqual? g = some (m, extended) := by
  simp only [Mark.extensible, List.mem_cons, List.not_mem_nil, or_false] at h
  obtain rfl | rfl | rfl | rfl := h <;> rw [Grapheme.eq_of_text text rfl] <;> exact ⟨_, rfl⟩

theorem extent_of_withEqual {m extended : Mark} (h : withEqual? g = some (m, extended)) :
    extent g rest = if rest.head? = some ⟨'=', []⟩ then 1 else 0 := by
  unfold extent
  rw [h]
  rfl

/-- What is one piece by itself starts nothing longer. -/
theorem extent_of_single {m : Mark} (h : single? g = some m) : extent g rest = 0 := by
  unfold single? at h
  split at h <;> cases h <;> rfl

theorem extent_of_isDigit (h : g.isDigit) : extent g rest = numberExtent rest := by
  obtain ⟨c, rfl, -⟩ := exists_mem_digits h
  obtain ⟨-, noPair, -, notSlash, notQuote, -, -⟩ := digit_starts_number h
  unfold extent
  simp [noPair, notSlash, notQuote, h]

/-- A comment goes on up to a line break. -/
theorem extent_comment {body : List Grapheme}
    (run : Grapheme.Run (fun g => !g.isNewline) body rest) :
    extent ⟨'/', []⟩ (⟨'/', []⟩ :: body ++ rest) = body.length + 1 := by
  show (((⟨'/', []⟩ : Grapheme) :: body ++ rest).takeWhile (fun g => !g.isNewline)).length = _
  rw [takeWhile_append_stop (List.forall_mem_cons.mpr ⟨rfl, run.inside⟩) run.next]
  rfl

theorem extent_of_blank {b : Blank} (h : Blank.ofGrapheme? g = some b) : extent g rest = 0 := by
  unfold Blank.ofGrapheme? at h
  split at h <;> cases h <;> rfl

/-- A word starts with what starts no mark, no number and no white space. -/
theorem isWordStart_of_isAlpha (h : g.isAlpha) :
    single? g = none ∧ Blank.ofGrapheme? g = none ∧ IsWordStart g := by
  have noSingle : single? g = none := by
    unfold single?
    split <;> first | rfl | exact absurd h (by decide)
  have noBlank : Blank.ofGrapheme? g = none := by
    unfold Blank.ofGrapheme?
    split <;> first | rfl | exact absurd h (by decide)
  refine ⟨noSingle, noBlank, ?_, ?_, ?_, ?_, h⟩
  · unfold withEqual?
    split <;> first | rfl | exact absurd h (by decide)
  · rintro rfl
    exact absurd h (by decide)
  · rintro rfl
    exact absurd h (by decide)
  · refine Bool.eq_false_iff.mpr fun digit => ?_
    obtain ⟨c, rfl, mem⟩ := exists_mem_digits digit
    -- A `∀` over the list would be decided by going through all characters.
    have letterless : ['0', '1', '2', '3', '4', '5', '6', '7', '8', '9'].all
        (fun c => !Grapheme.isAlpha ⟨c, []⟩) = true := by decide
    have other := List.all_eq_true.mp letterless c mem
    rw [h] at other
    cases other

/-! ## What is read -/

theorem reading_of_single {m : Mark} (h : single? g = some m) (tail : List Grapheme) :
    reading ⟨g, tail⟩ = .ok (.mark m) := by
  unfold reading
  rw [h]

theorem reading_of_withEqual {m extended : Mark} (h : withEqual? g = some (m, extended))
    (tail : List Grapheme) :
    reading ⟨g, tail⟩ = .ok (.mark (if tail.isEmpty then m else extended)) := by
  unfold withEqual? at h
  split at h <;> cases h <;> rfl

theorem reading_of_blank {b : Blank} (h : Blank.ofGrapheme? g = some b) (tail : List Grapheme) :
    reading ⟨g, tail⟩ = .ok (.whitespace b) := by
  unfold Blank.ofGrapheme? at h
  split at h <;> cases h <;> rfl

theorem reading_of_quote (tail : List Grapheme) :
    reading ⟨⟨'"', []⟩, tail⟩ = if tail.getLast? = some ⟨'"', []⟩ then
      .ok (.string (Grapheme.join tail.dropLast)) else .error .unterminatedString :=
  rfl

theorem reading_closed (inner : List Grapheme) :
    reading ⟨⟨'"', []⟩, inner ++ [⟨'"', []⟩]⟩ = .ok (.string (Grapheme.join inner)) := by
  rw [reading_of_quote, List.getLast?_concat, if_pos rfl, List.dropLast_concat]

theorem reading_open {inner : List Grapheme} (inside : ∀ g ∈ inner, g ≠ ⟨'"', []⟩) :
    reading ⟨⟨'"', []⟩, inner⟩ = .error .unterminatedString := by
  rw [reading_of_quote, if_neg fun last => inside _ (List.mem_of_getLast? last) rfl]

theorem reading_of_isAlpha (h : g.isAlpha) (tail : List Grapheme) :
    reading ⟨g, tail⟩ = .ok (wordOf (Grapheme.join (g :: tail))) := by
  obtain ⟨noSingle, noBlank, start⟩ := isWordStart_of_isAlpha h
  unfold reading
  dsimp only
  rw [noSingle, start.withEqual, noBlank]
  simp [start.notSlash, start.notQuote, start.notDigit, h, text, graphemes]

/-- Digits are plain. -/
theorem exists_plain_of_isDigit {gs : List Grapheme} (h : ∀ g ∈ gs, g.isDigit) :
    ∃ cs, gs = Grapheme.plain cs ∧ ∀ c ∈ cs, c.isDigit := by
  induction gs with
  | nil => exact ⟨[], rfl, by simp⟩
  | cons g gs ih =>
    rw [List.forall_mem_cons] at h
    obtain ⟨cs, rfl, digits⟩ := ih h.2
    obtain ⟨c, rfl, -⟩ := exists_mem_digits h.1
    exact ⟨c :: cs, rfl, List.forall_mem_cons.mpr ⟨h.1, digits⟩⟩

/-- A numeral is read as the number that its text stands for. -/
theorem exists_number {d : Grapheme} {digits fraction : List Grapheme} (lead : d.isDigit)
    (front : ∀ g ∈ digits, g.isDigit) (behind : ∀ g ∈ fraction, g.isDigit) :
    ∃ x, reading ⟨d, digits ++ if fraction = [] then [] else ⟨'.', []⟩ :: fraction⟩ =
        .ok (.number x) ∧
      Decimal.floatOfText? (Grapheme.join
        (d :: digits ++ if fraction = [] then [] else ⟨'.', []⟩ :: fraction)) = some x := by
  obtain ⟨c, rfl, -⟩ := exists_mem_digits lead
  obtain ⟨cs, rfl, whole⟩ := exists_plain_of_isDigit front
  obtain ⟨ds, rfl, part⟩ := exists_plain_of_isDigit behind
  have digits : ∀ e ∈ c :: cs ++ ds, e.isDigit := by
    simp only [List.cons_append, List.forall_mem_cons, List.forall_mem_append]
    exact ⟨lead, whole, part⟩
  have plain : Grapheme.plain cs ++
      (if Grapheme.plain ds = [] then [] else ⟨'.', []⟩ :: Grapheme.plain ds) =
      Grapheme.plain (cs ++ if ds = [] then [] else '.' :: ds) := by
    cases ds <;> simp [Grapheme.plain]
  rw [List.cons_append, plain]
  refine ⟨_, reading_number digits, ?_⟩
  have text : Grapheme.join (⟨c, []⟩ :: Grapheme.plain (cs ++ if ds = [] then [] else '.' :: ds)) =
      String.ofList (c :: cs ++ if ds = [] then [] else '.' :: ds) :=
    congrArg String.ofList (Grapheme.flatMap_chars_plain (c :: _))
  rw [text]
  exact Decimal.floatOfText?_numeral (List.cons_ne_nil c cs) digits

/-- Digits that no point with a digit follows end with the last of them. -/
theorem extent_digits {d : Grapheme} {digits : List Grapheme} (lead : d.isDigit)
    (run : Grapheme.Run Grapheme.isDigit digits rest)
    (next : ∀ e more, rest = ⟨'.', []⟩ :: e :: more → e.isDigit = false) :
    extent d (digits ++ rest) = digits.length := by
  rw [extent_of_isDigit lead, numberExtent, takeWhile_append_stop run.inside run.next,
    List.drop_left]
  split
  · rw [next _ _ rfl, if_neg Bool.false_ne_true]
  · rfl

/-- A point and digits behind digits go on with the number. -/
theorem extent_fraction {d : Grapheme} {digits fraction : List Grapheme} (lead : d.isDigit)
    (front : ∀ g ∈ digits, g.isDigit) (some : fraction ≠ [])
    (run : Grapheme.Run Grapheme.isDigit fraction rest) :
    extent d ((digits ++ ⟨'.', []⟩ :: fraction) ++ rest) =
      (digits ++ ⟨'.', []⟩ :: fraction).length := by
  have stop : ∀ g ∈ ((⟨'.', []⟩ : Grapheme) :: (fraction ++ rest)).head?, g.isDigit = false := by
    rintro _ ⟨⟩
    rfl
  rw [extent_of_isDigit lead, List.append_assoc, List.cons_append, numberExtent,
    takeWhile_append_stop front stop, List.drop_left]
  obtain ⟨e, more, rfl⟩ := List.exists_cons_of_ne_nil some
  have behind := takeWhile_append_stop run.inside run.next
  rw [List.cons_append] at behind
  simp only [List.cons_append]
  rw [behind, if_pos (run.inside e List.mem_cons_self), List.length_append, Nat.add_assoc,
    Nat.add_comm 1]
  rfl

end Piece

/-! ## Lexemes are cut off -/

open Piece in
/-- A lexeme is cut off as one piece, and read as it should be. -/
theorem Lexeme.exists_piece {gs rest : List Grapheme} {reading : Except Cause Token}
    (h : Lexeme gs rest reading) :
    ∃ p : Piece, p.graphemes = gs ∧ cut (gs ++ rest) = p :: cut rest ∧ p.reading = reading := by
  cases h with
  | @keyword g tail _ m alpha run mem spelled =>
    obtain ⟨-, -, start⟩ := isWordStart_of_isAlpha alpha
    let p : Piece := ⟨g, tail⟩
    have ends : p.Ends rest := start.ends run.inside run.next
    refine ⟨p, rfl, cut_of_ends ends, ?_⟩
    rw [reading_of_isAlpha alpha, wordOf, ← spelled, Mark.ofKeyword?_spelling mem]
  | @identifier g tail _ alpha run other =>
    obtain ⟨-, -, start⟩ := isWordStart_of_isAlpha alpha
    let p : Piece := ⟨g, tail⟩
    have ends : p.Ends rest := start.ends run.inside run.next
    refine ⟨p, rfl, cut_of_ends ends, ?_⟩
    have none : Mark.ofKeyword? (Grapheme.join (g :: tail)) = none :=
      List.find?_eq_none.mpr fun m mem => by simpa using other m mem
    rw [reading_of_isAlpha alpha, wordOf, none]
  | @whole digits _ x some run next number =>
    obtain ⟨d, digits, rfl⟩ := List.exists_cons_of_ne_nil some
    obtain ⟨lead, front⟩ := List.forall_mem_cons.mp run.inside
    obtain ⟨y, reading, same⟩ := exists_number lead front (List.forall_mem_nil _)
    rw [if_pos rfl, List.append_nil] at reading same
    let p : Piece := ⟨d, digits⟩
    have ends : p.Ends rest := extent_digits lead ⟨front, run.next⟩ next
    refine ⟨p, rfl, cut_of_ends ends, ?_⟩
    rw [reading, Option.some.inj (same.symm.trans number)]
  | @fraction digits fraction _ x some front someBehind run number =>
    obtain ⟨d, digits, rfl⟩ := List.exists_cons_of_ne_nil some
    obtain ⟨lead, front⟩ := List.forall_mem_cons.mp front
    obtain ⟨y, reading, same⟩ := exists_number lead front run.inside
    rw [if_neg someBehind] at reading same
    let p : Piece := ⟨d, digits ++ ⟨'.', []⟩ :: fraction⟩
    have ends : p.Ends rest := extent_fraction lead front someBehind run
    refine ⟨p, rfl, cut_of_ends ends, ?_⟩
    rw [reading, Option.some.inj (same.symm.trans number)]
  | @operator g _ m mem text next =>
    obtain ⟨extended, pair⟩ := exists_withEqual mem text
    let p : Piece := ⟨g, []⟩
    have ends : p.Ends rest := (extent_of_withEqual pair).trans (if_neg next)
    exact ⟨p, rfl, cut_of_ends ends, reading_of_withEqual pair []⟩
  | @operatorEqual g _ m extended mem text spelled =>
    have pair := withEqual?_eq_some.mpr ⟨mem, text, spelled⟩
    let p : Piece := ⟨g, [⟨'=', []⟩]⟩
    have ends : p.Ends rest := (extent_of_withEqual pair).trans (if_pos rfl)
    exact ⟨p, rfl, cut_of_ends ends, reading_of_withEqual pair _⟩
  | @comment body _ run =>
    let p : Piece := ⟨⟨'/', []⟩, ⟨'/', []⟩ :: body⟩
    have ends : p.Ends rest := extent_comment run
    exact ⟨p, rfl, cut_of_ends ends, rfl⟩
  | slash next =>
    let p : Piece := ⟨⟨'/', []⟩, []⟩
    have ends : p.Ends rest := if_neg next
    exact ⟨p, rfl, cut_of_ends ends, rfl⟩
  | @string inner _ inside =>
    let p : Piece := ⟨⟨'"', []⟩, inner ++ [⟨'"', []⟩]⟩
    have ends : p.Ends rest :=
      ends_of_quote rfl rfl fun g mem => bne_iff_ne.mpr (inside g mem)
    exact ⟨p, by simp [p, graphemes], by simpa [p, graphemes] using cut_of_ends ends,
      reading_closed inner⟩
  | @unterminated inner inside =>
    have all : inner.takeWhile (fun g => g != ⟨'"', []⟩) = inner :=
      List.takeWhile_eq_self_iff.mpr fun g mem => bne_iff_ne.mpr (inside g mem)
    have past : extent ⟨'"', []⟩ inner = inner.length + 1 :=
      congrArg (fun gs : List Grapheme => gs.length + 1) all
    refine ⟨⟨⟨'"', []⟩, inner⟩, rfl, ?_, reading_open inside⟩
    simp [cut, past, List.drop_of_length_le (Nat.le_succ _)]
  | @punctuation g _ m mem text =>
    have single := single?_eq_some.mpr ⟨mem, text⟩
    let p : Piece := ⟨g, []⟩
    have ends : p.Ends rest := extent_of_single single
    exact ⟨p, rfl, cut_of_ends ends, reading_of_single single []⟩
  | @blank g _ b text =>
    have blank := Blank.ofGrapheme?_eq_some.mpr text
    let p : Piece := ⟨g, []⟩
    have ends : p.Ends rest := extent_of_blank blank
    exact ⟨p, rfl, cut_of_ends ends, reading_of_blank blank []⟩

/-- A lexeme is not reported as a grapheme that starts none. -/
theorem Lexeme.ne_unexpected {gs rest : List Grapheme} {reading : Except Cause Token}
    (h : Lexeme gs rest reading) (g : Grapheme) : reading ≠ .error (.unexpectedCharacter g) := by
  cases h <;> rintro ⟨⟩

/-! ## What is cut off is found -/

/-- The longest run at the front, and what is behind it. -/
theorem Grapheme.exists_run (f : Grapheme → Bool) (gs : List Grapheme) :
    ∃ front behind, gs = front ++ behind ∧ Run f front behind := by
  refine ⟨gs.takeWhile f, gs.dropWhile f, List.takeWhile_append_dropWhile.symm, ?_, ?_⟩
  · exact fun g mem => List.mem_takeWhile_imp mem
  · intro g mem
    have stop := List.head?_dropWhile_not f gs
    rw [mem] at stop
    exact stop

namespace Piece

variable {lead : Grapheme} {tail rest : List Grapheme}

/-- What is cut off in front is a lexeme, and read as it should be. -/
def StartsLexeme (lead : Grapheme) (rest : List Grapheme) : Prop :=
  Lexeme (lead :: rest.take (extent lead rest)) (rest.drop (extent lead rest))
    (reading ⟨lead, rest.take (extent lead rest)⟩)

theorem StartsLexeme.of_ends (ends : extent lead (tail ++ rest) = tail.length)
    (h : Lexeme (lead :: tail) rest (reading ⟨lead, tail⟩)) : StartsLexeme lead (tail ++ rest) := by
  rw [StartsLexeme, ends, List.take_left, List.drop_left]
  exact h

theorem startsLexeme_of_single {m : Mark} (h : single? lead = some m) : StartsLexeme lead rest := by
  obtain ⟨mem, text⟩ := single?_eq_some.mp h
  rw [StartsLexeme, extent_of_single h, reading_of_single h]
  exact .punctuation mem text

theorem startsLexeme_of_blank {b : Blank} (h : Blank.ofGrapheme? lead = some b) :
    StartsLexeme lead rest := by
  rw [StartsLexeme, extent_of_blank h, reading_of_blank h]
  exact .blank (Blank.ofGrapheme?_eq_some.mp h)

theorem startsLexeme_of_withEqual {m extended : Mark} (h : withEqual? lead = some (m, extended)) :
    StartsLexeme lead rest := by
  obtain ⟨mem, text, spelled⟩ := withEqual?_eq_some.mp h
  rw [StartsLexeme, extent_of_withEqual h, reading_of_withEqual h]
  by_cases sign : rest.head? = some ⟨'=', []⟩
  · obtain ⟨rest, rfl⟩ := List.head?_eq_some_iff.mp sign
    exact .operatorEqual mem text spelled
  · rw [if_neg sign]
    exact .operator mem text sign

theorem startsLexeme_slash : StartsLexeme ⟨'/', []⟩ rest := by
  by_cases second : rest.head? = some ⟨'/', []⟩
  · obtain ⟨rest, rfl⟩ := List.head?_eq_some_iff.mp second
    obtain ⟨body, rest, rfl, run⟩ := Grapheme.exists_run (fun g => !g.isNewline) rest
    rw [← List.cons_append]
    exact .of_ends (extent_comment run) (.comment run)
  · have reach : extent ⟨'/', []⟩ rest = 0 := if_neg second
    rw [StartsLexeme, reach]
    exact .slash second

theorem startsLexeme_quote : StartsLexeme ⟨'"', []⟩ rest := by
  obtain ⟨inner, behind, rfl, run⟩ := Grapheme.exists_run (fun g => g != ⟨'"', []⟩) rest
  have inside : ∀ g ∈ inner, g ≠ ⟨'"', []⟩ := fun g mem => bne_iff_ne.mp (run.inside g mem)
  have reach : extent ⟨'"', []⟩ (inner ++ behind) = inner.length + 1 :=
    congrArg (fun gs : List Grapheme => gs.length + 1) (takeWhile_append_stop run.inside run.next)
  cases behind with
  | nil =>
    rw [List.append_nil] at reach ⊢
    rw [StartsLexeme, reach, List.take_of_length_le (Nat.le_succ _),
      List.drop_of_length_le (Nat.le_succ _), reading_open inside]
    exact .unterminated inside
  | cons g rest =>
    have quote : g = ⟨'"', []⟩ := by simpa using run.next g rfl
    subst quote
    rw [List.append_cons] at reach ⊢
    refine .of_ends (by rw [reach, List.length_append]; rfl) ?_
    rw [reading_closed]
    exact .string inside

theorem startsLexeme_of_isDigit (h : lead.isDigit) : StartsLexeme lead rest := by
  obtain ⟨digits, behind, rfl, run⟩ := Grapheme.exists_run Grapheme.isDigit rest
  have whole : ∀ g ∈ lead :: digits, g.isDigit := List.forall_mem_cons.mpr ⟨h, run.inside⟩
  by_cases point : ∃ d more, behind = ⟨'.', []⟩ :: d :: more ∧ d.isDigit
  · obtain ⟨d, more, rfl, digit⟩ := point
    obtain ⟨part, rest, split, after⟩ := Grapheme.exists_run Grapheme.isDigit more
    have fraction : Grapheme.Run Grapheme.isDigit (d :: part) rest :=
      ⟨List.forall_mem_cons.mpr ⟨digit, after.inside⟩, after.next⟩
    obtain ⟨x, reading, number⟩ := exists_number h run.inside fraction.inside
    rw [if_neg (List.cons_ne_nil d part)] at reading number
    have parts : digits ++ ⟨'.', []⟩ :: d :: more = (digits ++ ⟨'.', []⟩ :: d :: part) ++ rest := by
      rw [split, List.append_assoc]
      rfl
    rw [parts]
    refine .of_ends (extent_fraction h run.inside (List.cons_ne_nil d part) fraction) ?_
    rw [reading]
    exact .fraction (List.cons_ne_nil lead digits) whole (List.cons_ne_nil d part) fraction number
  · have next : ∀ d more, behind = ⟨'.', []⟩ :: d :: more → d.isDigit = false :=
      fun d more same => Bool.eq_false_iff.mpr fun digit => point ⟨d, more, same, digit⟩
    obtain ⟨x, reading, number⟩ := exists_number h run.inside (List.forall_mem_nil _)
    rw [if_pos rfl, List.append_nil] at reading number
    refine .of_ends (extent_digits h run next) ?_
    rw [reading]
    exact .whole (List.cons_ne_nil lead digits) ⟨whole, run.next⟩ next number

theorem startsLexeme_of_isAlpha (h : lead.isAlpha) : StartsLexeme lead rest := by
  obtain ⟨-, -, start⟩ := isWordStart_of_isAlpha h
  obtain ⟨tail, rest, rfl, run⟩ := Grapheme.exists_run Grapheme.isAlphanumeric rest
  have ends : extent lead (tail ++ rest) = tail.length := by
    rw [start.extent, takeWhile_append_stop run.inside run.next]
  refine .of_ends ends ?_
  rw [reading_of_isAlpha h, wordOf]
  split
  · rename_i m found
    have spelled := List.find?_some found
    exact .keyword h run (List.mem_of_find?_eq_some found) (by simpa using spelled)
  · rename_i none
    exact .identifier h run fun m mem => by simpa using List.find?_eq_none.mp none m mem

/-- What is cut off in front is found. -/
theorem found_of_cut (lead : Grapheme) (rest : List Grapheme) :
    Lexeme.Found (lead :: rest.take (extent lead rest)) (rest.drop (extent lead rest))
      (reading ⟨lead, rest.take (extent lead rest)⟩) := by
  cases single : single? lead with
  | some m => exact .lexeme (startsLexeme_of_single single)
  | none =>
  cases pair : withEqual? lead with
  | some marks => exact .lexeme (startsLexeme_of_withEqual pair)
  | none =>
  cases blank : Blank.ofGrapheme? lead with
  | some b => exact .lexeme (startsLexeme_of_blank blank)
  | none =>
  by_cases slash : lead = ⟨'/', []⟩
  · exact .lexeme (slash ▸ startsLexeme_slash)
  by_cases quote : lead = ⟨'"', []⟩
  · exact .lexeme (quote ▸ startsLexeme_quote)
  by_cases digit : lead.isDigit
  · exact .lexeme (startsLexeme_of_isDigit digit)
  by_cases alpha : lead.isAlpha
  · exact .lexeme (startsLexeme_of_isAlpha alpha)
  have reach : extent lead rest = 0 := by
    unfold extent
    simp [pair, slash, quote, digit, alpha]
  have unread (tail : List Grapheme) :
      reading ⟨lead, tail⟩ = .error (.unexpectedCharacter lead) := by
    unfold reading
    simp [single, pair, blank, slash, quote, digit, alpha]
  rw [reach, unread]
  refine .unexpected fun tail rest reading h => ?_
  obtain ⟨p, same, -, rfl⟩ := h.exists_piece
  obtain rfl : p = ⟨lead, tail⟩ := graphemes_inj same
  exact h.ne_unexpected lead (unread tail)

end Piece

/-- What is found is cut off as one piece, and read as it should be. -/
theorem Lexeme.Found.exists_piece {gs rest : List Grapheme} {reading : Except Cause Token}
    (h : Lexeme.Found gs rest reading) : ∃ p : Piece, p.graphemes = gs ∧
      Piece.cut (gs ++ rest) = p :: Piece.cut rest ∧ p.reading = reading := by
  cases h with
  | lexeme h => exact h.exists_piece
  | @unexpected g rest none =>
    -- What is cut off in front is found too, and no lexeme: so it is this grapheme alone.
    have found := Piece.found_of_cut g rest
    have parts := List.take_append_drop (Piece.extent g rest) rest
    rw [List.singleton_append, Piece.cut]
    generalize rest.take (Piece.extent g rest) = tail at *
    generalize rest.drop (Piece.extent g rest) = behind at *
    generalize read : Piece.reading ⟨g, tail⟩ = reading at *
    cases found with
    | lexeme h => exact absurd h (none _ _ _)
    | unexpected => exact ⟨⟨g, []⟩, rfl, parts ▸ rfl, read⟩

/-- A lexeme is one too where less stands behind it. -/
theorem Lexeme.front {gs front rest : List Grapheme} {reading : Except Cause Token}
    (h : Lexeme gs rest reading) (part : front <+: rest) : Lexeme gs front reading := by
  have head {g : Grapheme} (first : front.head? = some g) : rest.head? = some g := by
    obtain ⟨back, rfl⟩ := part
    rw [List.head?_append, first, Option.some_or]
  have run {f : Grapheme → Bool} {gs : List Grapheme} (h : Grapheme.Run f gs rest) :
      Grapheme.Run f gs front := ⟨h.inside, fun g first => h.next g (head first)⟩
  cases h with
  | keyword alpha inner mem spelled => exact .keyword alpha (run inner) mem spelled
  | identifier alpha inner other => exact .identifier alpha (run inner) other
  | whole some inner next number =>
    refine .whole some (run inner) (fun d more same => ?_) number
    obtain ⟨back, rfl⟩ := part
    exact next d (more ++ back) (by rw [same]; rfl)
  | fraction some front someBehind inner number =>
    exact .fraction some front someBehind (run inner) number
  | operator mem text next => exact .operator mem text fun first => next (head first)
  | operatorEqual mem text spelled => exact .operatorEqual mem text spelled
  | comment inner => exact .comment (run inner)
  | slash next => exact .slash fun first => next (head first)
  | string inside => exact .string inside
  | unterminated inside =>
    rw [List.prefix_nil.mp part]
    exact .unterminated inside
  | punctuation mem text => exact .punctuation mem text
  | blank text => exact .blank text

theorem Lexeme.Found.front {gs front rest : List Grapheme} {reading : Except Cause Token}
    (h : Lexeme.Found gs rest reading) (part : front <+: rest) : Lexeme.Found gs front reading := by
  cases h with
  | lexeme h => exact .lexeme (h.front part)
  | unexpected none => exact .unexpected none

namespace Piece

/-- The first piece is found, and the others are the pieces of what is behind it. -/
theorem found_of_cut_eq_cons {gs : List Grapheme} {p : Piece} {ps : List Piece}
    (h : cut gs = p :: ps) :
    Lexeme.Found p.graphemes (ps.flatMap graphemes) p.reading ∧
      cut (ps.flatMap graphemes) = ps := by
  cases gs with
  | nil =>
    rw [cut] at h
    cases h
  | cons lead rest =>
    rw [cut] at h
    obtain ⟨rfl, rfl⟩ := List.cons.inj h
    rw [flatMap_graphemes_cut]
    exact ⟨found_of_cut lead rest, rfl⟩

/-- The first pieces are cut alike without the others behind them. -/
theorem cut_front {gs : List Grapheme} {ps qs : List Piece} (h : cut gs = ps ++ qs) :
    cut (ps.flatMap graphemes) = ps := by
  induction ps generalizing gs with
  | nil => rw [List.flatMap_nil, cut]
  | cons p ps ih =>
    obtain ⟨found, rest⟩ := found_of_cut_eq_cons h
    have part : ps.flatMap graphemes <+: (ps ++ qs).flatMap graphemes := by
      rw [List.flatMap_append]
      exact List.prefix_append ..
    obtain ⟨q, same, first, -⟩ := (found.front part).exists_piece
    rw [List.flatMap_cons, first, ih rest, graphemes_inj same]

/-- The last pieces are cut alike without the others in front of them. -/
theorem cut_back {gs : List Grapheme} {ps qs : List Piece} (h : cut gs = ps ++ qs) :
    cut (qs.flatMap graphemes) = qs := by
  induction ps generalizing gs with
  | nil =>
    rw [List.nil_append] at h
    rw [← h, flatMap_graphemes_cut]
  | cons p ps ih => exact ih (found_of_cut_eq_cons h).2

/-- Every piece is found in what was cut. -/
theorem found_of_mem_cut {gs : List Grapheme} {p : Piece} (h : p ∈ cut gs) :
    ∃ rest, Lexeme.Found p.graphemes rest p.reading := by
  induction gs using cut.induct with
  | case1 => simp [cut] at h
  | case2 lead rest ih =>
    rw [cut, List.mem_cons] at h
    obtain rfl | h := h
    · exact ⟨_, found_of_cut lead rest⟩
    · exact ih h

/-- A piece that is read as a token is a lexeme. -/
theorem exists_lexeme {gs : List Grapheme} {p : Piece} {t : Token} (h : p ∈ cut gs)
    (reading : p.reading = .ok t) : ∃ rest, Lexeme p.graphemes rest (.ok t) := by
  obtain ⟨rest, found⟩ := found_of_mem_cut h
  rw [reading] at found
  clear h reading
  generalize p.graphemes = gs at found ⊢
  cases found with
  | lexeme h => exact ⟨rest, h⟩

/-- The text of a number is a decimal text, and the number is the one that it stands for. -/
theorem floatOfText?_of_mem_cut {gs : List Grapheme} {p : Piece} (h : p ∈ cut gs) {x : Float}
    (number : p.reading = .ok (.number x)) : Decimal.floatOfText? p.text = some x := by
  obtain ⟨rest, lexeme⟩ := exists_lexeme h number
  rw [text]
  generalize p.graphemes = gs at lexeme
  cases lexeme with
  | whole _ _ _ same => exact same
  | fraction _ _ _ _ same => exact same

end Piece

/-! ## Sources -/

namespace Source

variable {s : Source} {i j : Nat}

/-- What is found between two places is the next piece. -/
theorem pieces_of_found {reading : Except Cause Token} (hij : i < j) (hj : j ≤ s.length)
    (h : Lexeme.Found ((s.graphemes.take j).drop i) (s.graphemes.drop j) reading) :
    ∃ p : Piece, p.reading = reading ∧
      PlacedPiece.place (s.locate i) (Piece.cut (s.graphemes.drop i)) =
        ⟨p, ⟨s.locate i, s.locate j⟩⟩ ::
          PlacedPiece.place (s.locate j) (Piece.cut (s.graphemes.drop j)) := by
  obtain ⟨p, graphemes, cut, reading⟩ := h.exists_piece
  have split : (s.graphemes.take j).drop i ++ s.graphemes.drop j = s.graphemes.drop i := by
    rw [← List.drop_append_of_le_length (hij.le.trans (List.length_take_of_le hj).ge),
      List.take_append_drop]
  refine ⟨p, reading, ?_⟩
  rw [split] at cut
  rw [cut, PlacedPiece.place, graphemes, advanceOver_locate s hij.le]

/-- What a source is made of is what its pieces are read as. -/
theorem Lexes.eq_pieces {ts : List PlacedToken} {ds : List Diagnostic} (h : s.Lexes i ts ds) :
    let ps := PlacedPiece.place (s.locate i) (Piece.cut (s.graphemes.drop i))
    ts = ps.filterMap PlacedPiece.token? ++ [s.endToken] ∧
      ds = ps.filterMap PlacedPiece.diagnostic? := by
  induction h with
  | stop =>
    rw [length, List.drop_length, Piece.cut]
    exact ⟨by rw [endToken, ← locate_length]; rfl, rfl⟩
  | @token i j t ts ds hij hj found _ ih =>
    obtain ⟨p, reading, pieces⟩ := pieces_of_found hij hj found
    obtain ⟨rfl, rfl⟩ := ih
    simp [pieces, PlacedPiece.token?, PlacedPiece.diagnostic?, reading]
  | @report i j cause ts ds hij hj found _ ih =>
    obtain ⟨p, reading, pieces⟩ := pieces_of_found hij hj found
    obtain ⟨rfl, rfl⟩ := ih
    simp [pieces, PlacedPiece.token?, PlacedPiece.diagnostic?, reading]

/-- What is cut off next is found between two places. -/
theorem found_of_pieces {p : Piece} {ps : List Piece}
    (h : Piece.cut (s.graphemes.drop i) = p :: ps) :
    ∃ j, i < j ∧ j ≤ s.length ∧ Piece.cut (s.graphemes.drop j) = ps ∧
      Lexeme.Found ((s.graphemes.take j).drop i) (s.graphemes.drop j) p.reading ∧
      PlacedPiece.place (s.locate i) (p :: ps) =
        ⟨p, ⟨s.locate i, s.locate j⟩⟩ :: PlacedPiece.place (s.locate j) ps := by
  have all : s.graphemes.drop i = (p :: ps).flatMap Piece.graphemes :=
    h ▸ (Piece.flatMap_graphemes_cut _).symm
  obtain ⟨j, hij, hj, piece, behind, placed⟩ := PlacedPiece.place_locate all
  obtain ⟨found, rest⟩ := Piece.found_of_cut_eq_cons h
  rw [← behind] at found rest
  exact ⟨j, hij, hj, rest, piece ▸ found, placed⟩

/-- The pieces of a source are found in it. -/
theorem lexes_pieces {ps : List Piece} (h : Piece.cut (s.graphemes.drop i) = ps)
    (hi : i ≤ s.length) :
    s.Lexes i ((PlacedPiece.place (s.locate i) ps).filterMap PlacedPiece.token? ++ [s.endToken])
      ((PlacedPiece.place (s.locate i) ps).filterMap PlacedPiece.diagnostic?) := by
  induction ps generalizing i with
  | nil =>
    have none := Piece.flatMap_graphemes_cut (s.graphemes.drop i)
    rw [h, List.flatMap_nil] at none
    obtain rfl : i = s.length := Nat.le_antisymm hi (List.drop_eq_nil_iff.mp none.symm)
    rw [endToken, ← locate_length]
    exact .stop
  | cons p ps ih =>
    obtain ⟨j, hij, hj, rest, found, placed⟩ := found_of_pieces h
    specialize ih rest hj
    rw [placed]
    cases reading : p.reading with
    | ok t =>
      rw [reading] at found
      simpa [PlacedPiece.token?, PlacedPiece.diagnostic?, reading] using .token hij hj found ih
    | error cause =>
      rw [reading] at found
      simpa [PlacedPiece.token?, PlacedPiece.diagnostic?, reading] using .report hij hj found ih

/-- A source is made of lexemes, and of graphemes that start none, in exactly one way. That is how
it is scanned. -/
theorem lexes_iff_scan (s : Source) (ts : List PlacedToken) (ds : List Diagnostic) :
    s.Lexes 0 ts ds ↔ s.scan = ⟨ts, ds⟩ := by
  constructor
  · intro h
    obtain ⟨rfl, rfl⟩ := h.eq_pieces
    rfl
  · intro h
    have all : s.Lexes 0 s.scan.tokens s.scan.errors := lexes_pieces rfl (Nat.zero_le _)
    rw [h] at all
    exact all

end Source

end Lox
