import Lox.Proofs.Source.Course
import Lox.Proofs.Token.Lexicon
import Lox.Token.Loop

/-!
# A cursor reads lexemes

Scanning with a cursor, round by round, gives what cutting the source into pieces gives. In each
round the cursor reads what the lexical grammar finds next, one case for each sort of lexeme, and it
closes the span in which this stands.

* `Cursor.advanceWhile_run`, `Cursor.advancePast_found`, `Cursor.advanceNumber_fraction` and their
  like: where the loops inside a round stop.
* `Cursor.read_lexeme`, `Cursor.read_found`: what one round reads.
* `Cursor.scanFrom?_of_lexes`: what is read in all rounds.
* `Cursor.scan?_eq_scan`: the main statement. In particular the scanner never fails.
-/

namespace Lox.Cursor

variable {s : Source} {i j : Nat}

/-! ## The loops inside a round -/

/-- At the end of the source there is nothing to read. -/
theorem peek_of_drop_nil (h : s.graphemes.drop j = []) : (between s i j).peek = none :=
  List.getElem?_eq_none (List.drop_eq_nil_iff.mp h)

/-- Before it, the first grapheme of those that are left is read, and the others are left then. -/
theorem advance_of_drop_cons {g : Grapheme} {gs : List Grapheme}
    (h : s.graphemes.drop j = g :: gs) :
    (between s i j).peek = some g ∧ (between s i j).advance = (some g, between s i (j + 1)) ∧
      s.graphemes.drop (j + 1) = gs := by
  have next : s.graphemes[j]? = some g := by rw [← List.head?_drop, h, List.head?_cons]
  have left : j < s.length := (List.getElem?_eq_some_iff.mp next).1
  refine ⟨next, ?_, ?_⟩
  · rw [advance_between, next, if_pos left]
  · rw [← List.tail_drop, h, List.tail_cons]

/-- A grapheme is read where it is the one that is expected. -/
theorem advanceIf_of_drop (expected : Grapheme) :
    (between s i j).advanceIf (some expected) =
      if (s.graphemes.drop j).head? = some expected then (true, between s i (j + 1))
      else (false, between s i j) := by
  rw [advanceIf, peek_between, List.head?_drop]
  split
  · rename_i next
    have left : j < s.length := (List.getElem?_eq_some_iff.mp next).1
    rw [advance_between, if_pos left]
  · rfl

/-- A run of some sort is read up to what is not of the sort. -/
theorem advanceWhile_run {f : Grapheme → Bool} {gs rest : List Grapheme}
    (h : s.graphemes.drop j = gs ++ rest) (run : Grapheme.Run f gs rest) :
    (between s i j).advanceWhile f = between s i (j + gs.length) := by
  induction gs generalizing j with
  | nil =>
    cases rest with
    | nil =>
      rw [advanceWhile, peek_of_drop_nil h]
      rfl
    | cons g rest =>
      obtain ⟨next, -, -⟩ := advance_of_drop_cons (i := i) h
      rw [advanceWhile, next]
      exact if_neg (Bool.eq_false_iff.mp (run.next g rfl))
  | cons g gs ih =>
    obtain ⟨next, advanced, behind⟩ := advance_of_drop_cons (i := i) h
    obtain ⟨inside, later⟩ := List.forall_mem_cons.mp run.inside
    rw [advanceWhile, next]
    dsimp only
    rw [if_pos inside, advanced, ih behind ⟨later, run.next⟩, List.length_cons, Nat.add_assoc,
      Nat.add_comm 1]

/-- What is sought is read, and everything before it. -/
theorem advancePast_found {last : Grapheme} {gs rest : List Grapheme}
    (h : s.graphemes.drop j = gs ++ last :: rest) (inside : ∀ g ∈ gs, g ≠ last) :
    (between s i j).advancePast last = (true, between s i (j + (gs ++ [last]).length)) := by
  induction gs generalizing j with
  | nil =>
    obtain ⟨next, advanced, -⟩ := advance_of_drop_cons (i := i) h
    rw [advancePast, next]
    dsimp only
    rw [if_pos rfl, advanced]
    rfl
  | cons g gs ih =>
    obtain ⟨next, advanced, behind⟩ := advance_of_drop_cons (i := i) h
    obtain ⟨other, later⟩ := List.forall_mem_cons.mp inside
    rw [advancePast, next]
    dsimp only
    rw [if_neg other, advanced, ih behind later, List.cons_append, List.length_cons, Nat.add_assoc,
      Nat.add_comm 1]

/-- Where it is not, everything is read. -/
theorem advancePast_missing {last : Grapheme} {gs : List Grapheme}
    (h : s.graphemes.drop j = gs) (inside : ∀ g ∈ gs, g ≠ last) :
    (between s i j).advancePast last = (false, between s i (j + gs.length)) := by
  induction gs generalizing j with
  | nil =>
    rw [advancePast, peek_of_drop_nil h]
    rfl
  | cons g gs ih =>
    obtain ⟨next, advanced, behind⟩ := advance_of_drop_cons (i := i) h
    obtain ⟨other, later⟩ := List.forall_mem_cons.mp inside
    rw [advancePast, next]
    dsimp only
    rw [if_neg other, advanced, ih behind later, List.length_cons, Nat.add_assoc, Nat.add_comm 1]

/-- A number ends with its digits where no point with a digit behind it follows. -/
theorem advanceNumber_whole {digits rest : List Grapheme}
    (h : s.graphemes.drop j = digits ++ rest) (run : Grapheme.Run Grapheme.isDigit digits rest)
    (next : ∀ d more, rest = ⟨'.', []⟩ :: d :: more → d.isDigit = false) :
    (between s i j).advanceNumber = between s i (j + digits.length) := by
  have ahead (n : Nat) : (between s i (j + digits.length)).peek n = rest[n]? := by
    have left : s.graphemes.drop (j + digits.length) = rest := by
      rw [← List.drop_drop, h, List.drop_left]
    rw [← left, List.getElem?_drop]
    rfl
  rw [advanceNumber, advanceWhile_run h run]
  rw [ahead, ahead, if_neg]
  rintro ⟨point, digit⟩
  match rest, next with
  | [], _ => cases point
  | [_], _ => cases digit
  | g :: d :: more, next =>
    obtain rfl : g = ⟨'.', []⟩ := Option.some.inj point
    exact absurd digit (Bool.eq_false_iff.mp (next d more rfl))

/-- Otherwise the point belongs to it, with the digits behind it. -/
theorem advanceNumber_fraction {digits fraction rest : List Grapheme}
    (h : s.graphemes.drop j = digits ++ ⟨'.', []⟩ :: fraction ++ rest)
    (front : ∀ d ∈ digits, d.isDigit) (some : fraction ≠ [])
    (run : Grapheme.Run Grapheme.isDigit fraction rest) :
    (between s i j).advanceNumber =
      between s i (j + (digits ++ ⟨'.', []⟩ :: fraction).length) := by
  obtain ⟨d, more, rfl⟩ := List.exists_cons_of_ne_nil some
  rw [List.append_assoc] at h
  have whole : Grapheme.Run Grapheme.isDigit digits ((⟨'.', []⟩ :: d :: more) ++ rest) :=
    ⟨front, by rintro _ ⟨⟩; rfl⟩
  have left : s.graphemes.drop (j + digits.length) = (⟨'.', []⟩ :: d :: more) ++ rest := by
    rw [← List.drop_drop, h, List.drop_left]
  obtain ⟨point, advanced, behind⟩ := advance_of_drop_cons (i := i) left
  obtain ⟨digit, -, -⟩ := advance_of_drop_cons (i := i) behind
  have second : (between s i (j + digits.length)).peek 1 = Option.some d := digit
  rw [advanceNumber, advanceWhile_run h whole]
  rw [if_pos ⟨point, second ▸ run.inside d List.mem_cons_self⟩, advanced,
    advanceWhile_run behind run]
  congr 1
  simp
  omega

/-- A string token holds the text between its quotes. -/
theorem inner_join (gs : List Grapheme) :
    inner (Grapheme.join (⟨'"', []⟩ :: (gs ++ [⟨'"', []⟩]))) = Grapheme.join gs := by
  rw [inner, Grapheme.join, String.toList_ofList, List.flatMap_cons, List.flatMap_append]
  simp [Grapheme.chars, Grapheme.join]

/-- The text that was read. -/
theorem lexeme_of_drop {lead : Grapheme} {tail rest : List Grapheme}
    (h : s.graphemes.drop i = lead :: tail ++ rest) :
    (between s i (i + 1 + tail.length)).lexeme = Grapheme.join (lead :: tail) := by
  have length := congrArg List.length h
  rw [List.length_drop, List.length_append, List.length_cons] at length
  rw [lexeme_between (by omega) (by unfold Source.length; omega), List.drop_take, h]
  congr 1
  exact List.take_left' (by simp; omega)

/-! ## One round -/

theorem read_of_withEqual {g : Grapheme} {m extended : Mark}
    (h : Piece.withEqual? g = some (m, extended)) (c : Cursor) :
    c.read g = (some (.ok (.mark (if (c.advanceIf (some ⟨'=', []⟩)).1 then extended else m))),
      (c.advanceIf (some ⟨'=', []⟩)).2) := by
  unfold Piece.withEqual? at h
  split at h <;> cases h <;> rfl

theorem read_of_isDigit {g : Grapheme} (h : g.isDigit) (c : Cursor) :
    c.read g = ((Decimal.floatOfText? c.advanceNumber.lexeme).map fun x => .ok (.number x),
      c.advanceNumber) := by
  obtain ⟨d, rfl, -⟩ := Piece.exists_mem_digits h
  obtain ⟨noSingle, noPair, noBlank, notSlash, notQuote, -, -⟩ := digit_starts_number h
  simp [read, noSingle, noPair, noBlank, notSlash, notQuote, h]

theorem read_of_isAlpha {g : Grapheme} (h : g.isAlpha) (c : Cursor) :
    c.read g = (some (.ok (Piece.wordOf (c.advanceWhile Grapheme.isAlphanumeric).lexeme)),
      c.advanceWhile Grapheme.isAlphanumeric) := by
  obtain ⟨noSingle, noBlank, start⟩ := Piece.isWordStart_of_isAlpha h
  simp [read, noSingle, noBlank, start.withEqual, start.notSlash, start.notQuote, start.notDigit, h]

theorem read_of_blank {g : Grapheme} {b : Blank} (h : Blank.ofGrapheme? g = some b) (c : Cursor) :
    c.read g = (some (.ok (.whitespace b)), c) := by
  unfold Blank.ofGrapheme? at h
  split at h <;> cases h <;> rfl

theorem read_slash (c : Cursor) : c.read ⟨'/', []⟩ =
    let second := c.advanceIf (some ⟨'/', []⟩)
    let behind := second.2.advanceWhile fun g => !g.isNewline
    if second.1 then (some (.ok (.comment behind.lexeme)), behind)
    else (some (.ok (.mark .slash)), second.2) :=
  rfl

theorem read_quote (c : Cursor) : c.read ⟨'"', []⟩ =
    let behind := c.advancePast ⟨'"', []⟩
    if behind.1 then (some (.ok (.string (inner behind.2.lexeme))), behind.2)
    else (some (.error .unterminatedString), behind.2) :=
  rfl

/-- A round reads the lexeme that stands behind the cursor, and stops at its end. -/
theorem read_lexeme {lead : Grapheme} {tail rest : List Grapheme} {reading : Except Cause Token}
    (lexeme : Lexeme (lead :: tail) rest reading)
    (h : s.graphemes.drop i = lead :: tail ++ rest) :
    (between s i (i + 1)).read lead = (some reading, between s i (i + 1 + tail.length)) := by
  have text := lexeme_of_drop h
  have behind : s.graphemes.drop (i + 1) = tail ++ rest := (advance_of_drop_cons (i := i) h).2.2
  have second := congrArg List.head? behind
  generalize piece : lead :: tail = gs at lexeme
  cases lexeme with
  | keyword alpha run mem spelled =>
    obtain ⟨rfl, rfl⟩ := List.cons.inj piece
    rw [read_of_isAlpha alpha, advanceWhile_run behind run, text, Piece.wordOf, ← spelled,
      Mark.ofKeyword?_spelling mem]
  | identifier alpha run other =>
    obtain ⟨rfl, rfl⟩ := List.cons.inj piece
    have none : Mark.ofKeyword? (Grapheme.join (lead :: tail)) = none :=
      List.find?_eq_none.mpr fun m mem => by simpa using other m mem
    rw [read_of_isAlpha alpha, advanceWhile_run behind run, text, Piece.wordOf, none]
  | whole some run next number =>
    subst piece
    obtain ⟨digit, inside⟩ := List.forall_mem_cons.mp run.inside
    rw [read_of_isDigit digit, advanceNumber_whole behind ⟨inside, run.next⟩ next, text, number]
    rfl
  | fraction some front someBehind run number =>
    obtain ⟨d, digits, rfl⟩ := List.exists_cons_of_ne_nil some
    rw [List.cons_append, List.cons.injEq] at piece
    obtain ⟨rfl, rfl⟩ := piece
    obtain ⟨digit, inside⟩ := List.forall_mem_cons.mp front
    rw [read_of_isDigit digit, advanceNumber_fraction behind inside someBehind run, text,
      ← List.cons_append, number]
    rfl
  | operator mem marked next =>
    obtain ⟨rfl, rfl⟩ := List.cons.inj piece
    obtain ⟨extended, pair⟩ := Piece.exists_withEqual mem marked
    rw [read_of_withEqual pair, advanceIf_of_drop, second, List.nil_append, if_neg next]
    rfl
  | operatorEqual mem marked spelled =>
    obtain ⟨rfl, rfl⟩ := List.cons.inj piece
    have pair := Piece.withEqual?_eq_some.mpr ⟨mem, marked, spelled⟩
    rw [read_of_withEqual pair, advanceIf_of_drop, second]
    rfl
  | @comment body _ run =>
    obtain ⟨rfl, rfl⟩ := List.cons.inj piece
    have after := (advance_of_drop_cons (i := i) behind).2.2
    rw [read_slash, advanceIf_of_drop, second, List.cons_append, List.head?_cons, if_pos rfl]
    dsimp only
    rw [if_pos rfl, advanceWhile_run after run]
    rw [List.length_cons, Nat.add_comm body.length, ← Nat.add_assoc] at text ⊢
    rw [text]
  | slash next =>
    obtain ⟨rfl, rfl⟩ := List.cons.inj piece
    rw [read_slash, advanceIf_of_drop, second, List.nil_append, if_neg next]
    rfl
  | @string inner _ inside =>
    rw [List.cons_append, List.cons.injEq] at piece
    obtain ⟨rfl, rfl⟩ := piece
    rw [List.append_assoc] at behind
    rw [read_quote, advancePast_found behind inside]
    dsimp only
    rw [if_pos rfl, text, inner_join]
  | unterminated inside =>
    obtain ⟨rfl, rfl⟩ := List.cons.inj piece
    rw [List.append_nil] at behind
    rw [read_quote, advancePast_missing behind inside]
    rfl
  | punctuation mem marked =>
    obtain ⟨rfl, rfl⟩ := List.cons.inj piece
    have single := Piece.single?_eq_some.mpr ⟨mem, marked⟩
    unfold read
    rw [single]
    rfl
  | blank blank =>
    obtain ⟨rfl, rfl⟩ := List.cons.inj piece
    rw [read_of_blank (Blank.ofGrapheme?_eq_some.mpr blank)]
    rfl

/-- Where no lexeme starts, a round reports the grapheme that it read first. -/
theorem read_unexpected {g : Grapheme}
    (none : ∀ tail rest reading, ¬ Lexeme (g :: tail) rest reading) (c : Cursor) :
    c.read g = (some (.error (.unexpectedCharacter g)), c) := by
  have never : ¬ Piece.StartsLexeme g [] := none _ _ _
  have noSingle : Piece.single? g = Option.none :=
    Option.eq_none_iff_forall_ne_some.mpr fun m single =>
      never (Piece.startsLexeme_of_single single)
  have noPair : Piece.withEqual? g = Option.none :=
    Option.eq_none_iff_forall_ne_some.mpr fun pair extensible =>
      never (Piece.startsLexeme_of_withEqual extensible)
  have noBlank : Blank.ofGrapheme? g = Option.none :=
    Option.eq_none_iff_forall_ne_some.mpr fun b blank =>
      never (Piece.startsLexeme_of_blank blank)
  have notSlash : g ≠ ⟨'/', []⟩ := by
    rintro rfl
    exact never Piece.startsLexeme_slash
  have notQuote : g ≠ ⟨'"', []⟩ := by
    rintro rfl
    exact never Piece.startsLexeme_quote
  have notDigit : ¬ g.isDigit := fun digit =>
    never (Piece.startsLexeme_of_isDigit digit)
  have notAlpha : ¬ g.isAlpha := fun alpha =>
    never (Piece.startsLexeme_of_isAlpha alpha)
  simp [read, noSingle, noPair, noBlank, notSlash, notQuote, notDigit, notAlpha]

/-- A round reads what is found behind the cursor, and stops at its end. -/
theorem read_found {lead : Grapheme} {tail rest : List Grapheme} {reading : Except Cause Token}
    (found : Lexeme.Found (lead :: tail) rest reading)
    (h : s.graphemes.drop i = lead :: tail ++ rest) :
    (between s i (i + 1)).read lead = (some reading, between s i (i + 1 + tail.length)) := by
  cases found with
  | lexeme lexeme => exact read_lexeme lexeme h
  | unexpected none => exact read_unexpected none _

/-! ## All rounds -/

/-- One round, between two places of the source. -/
theorem scanFrom?_succ {reading : Except Cause Token} (hij : i < j) (hj : j ≤ s.length)
    (found : Lexeme.Found ((s.graphemes.take j).drop i) (s.graphemes.drop j) reading)
    (sofar : Scanned) :
    (between s i i).scanFrom? sofar =
      (between s j j).scanFrom? (sofar.note ⟨s.locate i, s.locate j⟩ reading) := by
  have split : s.graphemes.drop i = (s.graphemes.take j).drop i ++ s.graphemes.drop j := by
    rw [← List.drop_append_of_le_length (hij.le.trans (List.length_take_of_le hj).ge),
      List.take_append_drop]
  have length : ((s.graphemes.take j).drop i).length = j - i := by
    rw [List.length_drop, List.length_take_of_le hj]
  generalize (s.graphemes.take j).drop i = piece at found split length
  obtain _ | ⟨lead, tail⟩ := piece
  · exact absurd length (Nat.sub_pos_of_lt hij).ne
  obtain ⟨next, advanced, -⟩ := advance_of_drop_cons (i := i) split
  have stop : i + 1 + tail.length = j := by
    rw [List.length_cons] at length
    omega
  have round := read_found found split
  rw [stop] at round
  rw [scanFrom?, next]
  dsimp only
  rw [advanced, round]
  rfl

/-- From one round on, all that the source is made of is read. -/
theorem scanFrom?_of_lexes {ts : List PlacedToken} {ds : List Diagnostic} (h : s.Lexes i ts ds)
    (sofar : Scanned) :
    (between s i i).scanFrom? sofar = some ⟨sofar.tokens ++ ts, sofar.errors ++ ds⟩ := by
  induction h generalizing sofar with
  | stop =>
    have last : (between s s.length s.length).peek = none :=
      peek_of_drop_nil (List.drop_eq_nil_iff.mpr (Nat.le_refl _))
    rw [scanFrom?, last, List.append_nil]
    rfl
  | token hij hj found _ ih =>
    rw [scanFrom?_succ hij hj found, ih, Scanned.note, List.append_assoc, List.singleton_append]
  | report hij hj found _ ih =>
    rw [scanFrom?_succ hij hj found, ih, Scanned.note, List.append_assoc, List.singleton_append]

/-- Scanning with a cursor never fails, and gives the tokens and the reports of the pieces. -/
theorem scan?_eq_scan (s : Source) : scan? s = some s.scan :=
  scanFrom?_of_lexes (Source.lexes_pieces rfl (Nat.zero_le _)) ⟨[], []⟩

end Lox.Cursor
