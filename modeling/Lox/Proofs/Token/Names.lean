import Lox.Proofs.Token.LineBreak

/-!
# What a name may hold

A grapheme continues a name if its first code point is a letter or a numeral, whatever the others
are. Few code points join an ASCII character behind them to one grapheme, but some of these are
letters: what stands behind such a letter goes into the name. Nothing else does that is ASCII and
neither a letter nor a digit nor an underscore.

* `Text.leadingLetters`: those letters.
* `Grapheme.IsClosed.leading_of_ascii`: an ASCII character inside a grapheme stands behind code
  points that belong to what follows them.
* `ascii_of_name`: what an ASCII character of a name is, or stands behind.
* `scan_leading`: such a letter takes any printable ASCII character behind it into a name.
* `scan_names`: both, for all texts.
-/

namespace Lox

/-! ## Letters that belong to what follows them -/

namespace Text

/-- The code points of the ranges. -/
def Ranges.points : Ranges → List Nat
  | [] => []
  | (low, high) :: more => List.range' low (high + 1 - low) ++ points more

theorem Ranges.mem_points {r : Ranges} {n : Nat} (h : r.contains n = true) : n ∈ r.points := by
  induction r with
  | nil => cases h
  | cons first more ih =>
    obtain ⟨low, high⟩ := first
    rw [contains] at h
    split at h
    · cases h
    · rename_i above
      obtain h | h := (Bool.or_eq_true _ _).mp h
      · have below : n ≤ high := by simpa using h
        exact List.mem_append_left _ (List.mem_range'_1.mpr (by omega))
      · exact List.mem_append_right _ (ih h)

/-- The letters that belong to what follows them. -/
def leadingLetters : List Nat :=
  [0xD4E, 0x111C2, 0x111C3, 0x1193F, 0x11941, 0x11A84, 0x11A85, 0x11A86, 0x11A87, 0x11A88,
    0x11A89, 0x11D46]

end Text

open Text (leadingLetters isLetter isLetterOrNumeral)

theorem BoundaryClass.contains_of_leading {c : Char} (h : ofChar c = .leading) :
    leadingRanges.contains c.toNat = true := by
  by_contra outside
  refine absurd h ?_
  unfold ofChar
  iterate 6 refine ite_ne (by decide) ?_
  rw [if_neg outside]
  repeat' apply ite_ne
  all_goals decide

/-- No numeral belongs to what follows it, and these letters do. -/
theorem mem_leadingLetters_iff {c : Char} : c.toNat ∈ leadingLetters ↔
    isLetterOrNumeral c = true ∧ BoundaryClass.ofChar c = .leading := by
  constructor
  · intro mem
    have all : ∀ n ∈ leadingLetters, isLetterOrNumeral (Char.ofNat n) = true ∧
        BoundaryClass.ofChar (Char.ofNat n) = .leading := by decide +kernel
    simpa using all c.toNat mem
  · rintro ⟨alphanumeric, leading⟩
    have all : ∀ n ∈ Text.Ranges.points BoundaryClass.leadingRanges,
        (Text.letterRanges.contains n || Text.numeralRanges.contains n) = true →
          n ∈ leadingLetters := by decide +kernel
    exact all _ (Text.Ranges.mem_points (BoundaryClass.contains_of_leading leading)) alphanumeric

theorem isLetter_of_mem {c : Char} (mem : c.toNat ∈ leadingLetters) : isLetter c = true := by
  have all : ∀ n ∈ leadingLetters, isLetter (Char.ofNat n) = true := by decide +kernel
  simpa using all c.toNat mem

/-! ## ASCII -/

theorem isAlphanum_of_ascii {c : Char} (hc : c.toNat < 128) (h : isLetterOrNumeral c = true) :
    c.isAlphanum = true :=
  forall_char_lt (P := fun c => isLetterOrNumeral c = true → c.isAlphanum = true)
    (by decide +kernel) c hc h

/-- The classes of ASCII characters. -/
theorem ofChar_ascii {c : Char} (hc : c.toNat < 128) : BoundaryClass.ofChar c = .other ∨
    BoundaryClass.ofChar c = .control ∨ c = '\n' ∨ c = '\r' :=
  forall_char_lt (P := fun c => BoundaryClass.ofChar c = .other ∨
    BoundaryClass.ofChar c = .control ∨ c = '\n' ∨ c = '\r') (by decide +kernel) c hc

/-! ## Inside a grapheme -/

namespace Tail

variable {t : Tail}

/-- Only a code point that belongs to what follows it is joined by one of these. -/
theorem last_of_admits {b : BoundaryClass} (h : t.admits b = true)
    (hb : b = .other ∨ b = .leading) : t.last = .leading := by
  obtain ⟨last, picture, joined, halfFlag⟩ := t
  obtain rfl | rfl := hb
  · cases last <;> first | rfl | cases h
  · cases last <;> first | rfl | cases h

theorem admits_control (t : Tail) : t.admits .control = false := by
  obtain ⟨last, picture, joined, halfFlag⟩ := t
  cases last <;> rfl

end Tail

namespace Grapheme

variable {g : Grapheme} {c : Char} {ms ms' : List Char}

theorem getLast?_chars_concat (lead : Char) (ms : List Char) (p : Char) :
    (chars ⟨lead, ms ++ [p]⟩).getLast? = some p := by
  rw [chars, ← List.cons_append, List.getLast?_concat]

theorem admits_of_segment {t : Tail}
    (h : segment t (ms ++ c :: ms') = (ms ++ c :: ms', [])) :
    (t.pushAll ms).admits (.ofChar c) = true := by
  induction ms generalizing t with
  | nil =>
    rw [List.nil_append, segment] at h
    split at h
    · assumption
    · cases congrArg Prod.fst h
  | cons m ms ih =>
    rw [List.cons_append, segment] at h
    split at h
    · exact ih (by simpa [Reading.mark, Prod.ext_iff] using h)
    · cases congrArg Prod.fst h

/-- What stands inside a grapheme is joined to what stands before it there. -/
theorem IsClosed.admits (h : g.IsClosed) (hm : g.marks = ms ++ c :: ms') :
    (ending ⟨g.lead, ms⟩).admits (.ofChar c) = true := by
  rw [IsClosed, hm] at h
  exact admits_of_segment h

/-- Before a code point that only such letters join stand none but these. -/
theorem IsClosed.leading (h : g.IsClosed) (hm : g.marks = ms ++ c :: ms')
    (hc : BoundaryClass.ofChar c = .other ∨ BoundaryClass.ofChar c = .leading) :
    ∀ p ∈ g.lead :: ms, BoundaryClass.ofChar p = .leading := by
  induction ms using List.reverseRecOn generalizing c ms' with
  | nil =>
    have last : BoundaryClass.ofChar g.lead = .leading := Tail.last_of_admits (h.admits hm) hc
    simpa using last
  | append_singleton ms p ih =>
    have last := Tail.last_of_admits (h.admits hm) hc
    rw [last_ending (c := p) (getLast?_chars_concat g.lead ms p)] at last
    have split : g.marks = ms ++ p :: c :: ms' := by simp [hm]
    have before := ih split (.inr last)
    rw [← List.cons_append]
    intro q hq
    obtain hq | hq := List.mem_append.mp hq
    · exact before q hq
    · exact List.mem_singleton.mp hq ▸ last

/-- An ASCII character behind the first code point of a grapheme stands behind code points that
belong to what follows them, unless it is the end of a line break. -/
theorem IsClosed.leading_of_ascii (h : g.IsClosed) (hm : g.marks = ms ++ c :: ms')
    (hc : c.toNat < 128) (start : g.lead ≠ '\r') :
    ∀ p ∈ g.lead :: ms, BoundaryClass.ofChar p = .leading := by
  obtain other | control | rfl | rfl := ofChar_ascii hc
  · exact h.leading hm (.inl other)
  · have admitted := h.admits hm
    rw [control, Tail.admits_control] at admitted
    cases admitted
  · have feed : '\n' ∈ g.chars := by simp [chars, hm]
    obtain rfl | rfl | rfl := h.eq_of_mem (.inr feed)
    · exact absurd rfl start
    · cases List.append_ne_nil_of_right_ne_nil ms (List.cons_ne_nil _ _) hm.symm
    · exact absurd rfl start
  · have carriage : '\r' ∈ g.chars := by simp [chars, hm]
    obtain rfl | rfl | rfl := h.eq_of_mem (.inl carriage)
    · exact absurd rfl start
    · cases List.append_ne_nil_of_right_ne_nil ms (List.cons_ne_nil _ _) hm.symm
    · exact absurd rfl start

/-- Each code point of a text stands in a grapheme. -/
theorem exists_grapheme {gs : List Grapheme} {before after : List Char}
    (h : gs.flatMap chars = before ++ c :: after) : ∃ g ∈ gs, ∃ front us vs,
      g.chars = us ++ c :: vs ∧ before = front ++ us := by
  induction gs generalizing before with
  | nil => simp at h
  | cons g gs ih =>
    rw [List.flatMap_cons] at h
    obtain ⟨rest, rfl, later⟩ | ⟨rest, first, later⟩ := List.append_eq_append_iff.mp h
    · obtain ⟨g', mem, front, us, vs, hg', rfl⟩ := ih later
      exact ⟨g', List.mem_cons_of_mem _ mem, g.chars ++ front, us, vs, hg', by simp⟩
    · cases rest with
      | nil =>
        have later : gs.flatMap chars = [] ++ c :: after := by simpa using later.symm
        obtain ⟨g', mem, front, us, vs, hg', hnil⟩ := ih later
        obtain ⟨rfl, rfl⟩ := List.append_eq_nil_iff.mp hnil.symm
        exact ⟨g', List.mem_cons_of_mem _ mem, before, [], vs, hg', by simp⟩
      | cons d rest =>
        obtain ⟨rfl, -⟩ := List.cons.inj later
        exact ⟨g, List.mem_cons_self, [], before, rest, first, rfl⟩

end Grapheme

/-! ## Names -/

/-- The code points of a name come in graphemes that may stand in a name. -/
theorem exists_graphemes_of_name {text name : String} {t : PlacedToken}
    (mem : t ∈ (scanText text).tokens) (ht : t.token = .identifier name) :
    ∃ gs : List Grapheme, gs.flatMap Grapheme.chars = name.toList ∧
      ∀ g ∈ gs, g ∈ Grapheme.split text ∧ g.IsWhole ∧ g.isAlphanumeric = true := by
  have ht' : t.isEnd = false := Bool.eq_false_iff.mpr fun he => by
    cases ht.symm.trans (PlacedToken.isEnd_iff.mp he)
  obtain ⟨p, hp, reading⟩ := exists_piece_of_mem_scan mem ht'
  rw [ht] at reading
  cases Piece.readAs_of_reading reading with
  | identifier word =>
    have part := (Piece.mem_cut hp).1
    have whole := (Grapheme.clusters_split text.toList).part part
    refine ⟨p.graphemes, p.chars_eq_text, fun g hg => ⟨part.subset hg, whole.whole hg, ?_⟩⟩
    obtain rfl | hg := List.mem_cons.mp hg
    · rw [Grapheme.isAlphanumeric, word.alpha, Bool.true_or]
    · exact Piece.isAlphanumeric_of_mem_tail hp word g hg

/-- The code points of a name stand in the text. -/
theorem mem_of_mem_name {text name : String} {t : PlacedToken}
    (mem : t ∈ (scanText text).tokens) (ht : t.token = .identifier name) {c : Char}
    (hc : c ∈ name.toList) : c ∈ text.toList := by
  obtain ⟨gs, hgs, found⟩ := exists_graphemes_of_name mem ht
  obtain ⟨g, hg, inside⟩ := List.mem_flatMap.mp (hgs ▸ hc)
  rw [← Segmenter.flatMap_chars_split text.toList]
  exact List.mem_flatMap.mpr ⟨g, (found g hg).1, inside⟩

/-- An ASCII character in a name is a letter, a digit or an underscore, or it stands in a grapheme
behind such a letter. -/
theorem ascii_of_name {text name : String} {t : PlacedToken}
    (mem : t ∈ (scanText text).tokens) (ht : t.token = .identifier name)
    {before after : List Char} {c : Char} (hname : name.toList = before ++ c :: after)
    (hc : c.toNat < 128) :
    c.isAlphanum = true ∨ c = '_' ∨ ∃ front l between, before = front ++ l :: between ∧
      l.toNat ∈ leadingLetters ∧ ∀ p ∈ between, BoundaryClass.ofChar p = .leading := by
  obtain ⟨gs, hgs, found⟩ := exists_graphemes_of_name mem ht
  obtain ⟨g, hg, front, us, vs, hchars, rfl⟩ := Grapheme.exists_grapheme (hgs.trans hname)
  obtain ⟨-, whole, alphanumeric⟩ := found g hg
  obtain rfl | letter : g = ⟨'_', []⟩ ∨ isLetterOrNumeral g.lead = true := by
    simp only [Grapheme.isAlphanumeric, Grapheme.isAlpha, Bool.or_eq_true, beq_iff_eq]
      at alphanumeric
    obtain (h | h) | h := alphanumeric
    · exact .inl h
    · exact .inr (by simp [isLetterOrNumeral, h])
    · exact .inr h
  · have underscore : c ∈ Grapheme.chars ⟨'_', []⟩ := hchars ▸ by simp
    exact .inr (.inl (List.mem_singleton.mp underscore))
  cases us with
  | nil =>
    obtain ⟨rfl, -⟩ := List.cons.inj hchars
    exact .inl (isAlphanum_of_ascii hc letter)
  | cons l ms =>
    obtain ⟨rfl, hm⟩ := List.cons.inj hchars
    have start : g.lead ≠ '\r' := by
      intro h
      rw [h] at letter
      revert letter
      decide
    have leading := (Grapheme.isClosed_iff.mpr whole).leading_of_ascii hm hc start
    exact .inr (.inr ⟨front, g.lead, ms, rfl,
      mem_leadingLetters_iff.mpr ⟨letter, leading _ List.mem_cons_self⟩,
      fun p hp => leading p (List.mem_cons_of_mem _ hp)⟩)

/-- Such a letter and a printable ASCII character behind it are a name. -/
theorem scan_leading {l c : Char} (hl : l.toNat ∈ leadingLetters) (visible : 32 ≤ c.toNat)
    (ascii : c.toNat < 127) : ∃ t stop, scanText (String.ofList [l, c]) = ⟨[t, stop], []⟩ ∧
      t.token = .identifier (String.ofList [l, c]) ∧ stop.isEnd := by
  obtain ⟨-, leading⟩ := mem_leadingLetters_iff.mp hl
  have joined : Segmenter.split [l, c] = [⟨l, [c]⟩] := by
    show Grapheme.splitChars [l, c] = _
    rw [Grapheme.splitChars_pair, leading, BoundaryClass.ofChar_printable visible ascii]
    rfl
  have alpha : Grapheme.isAlpha ⟨l, [c]⟩ = true := by
    simp [Grapheme.isAlpha, isLetter_of_mem hl]
  have notKeyword : ∀ m ∈ Mark.keywords, m.spelling ≠ Grapheme.join [⟨l, [c]⟩] := by
    intro m mem spelled
    have plain : ∀ m ∈ Mark.keywords,
        m.spelling.toList.all fun d => decide (d.toNat ∉ leadingLetters) := by decide
    have inside : l ∈ m.spelling.toList := by simp [spelled, Grapheme.join, Grapheme.chars]
    exact of_decide_eq_true (List.all_eq_true.mp (plain m mem) l inside) hl
  have run : Grapheme.Run Grapheme.isAlphanumeric [] [] := ⟨by simp, by simp⟩
  obtain ⟨p, -, cut, reading⟩ := (Lexeme.identifier alpha run notKeyword).exists_piece
  have lexed : Lexed (String.ofList [l, c]).toList [.identifier (String.ofList [l, c])] := by
    have text : Grapheme.join [⟨l, [c]⟩] = String.ofList [l, c] := rfl
    rw [List.append_nil] at cut
    rw [Lexed, String.toList_ofList, joined, cut, List.map_cons, reading, text, Piece.cut]
    rfl
  obtain ⟨placed, stop, scanned, ended, -, tokens⟩ := scan_of_lexed lexed
  obtain ⟨t, rfl, ht⟩ := List.map_eq_singleton_iff.mp tokens
  exact ⟨t, stop, scanned, ht, ended⟩

/-- An ASCII character in a name is a letter, a digit or an underscore, unless a letter that belongs
to what follows it stands before it, with nothing between them that does not. So a text without such
letters has none but letters, digits and underscores among the ASCII characters of its names, and
behind such a letter any printable ASCII character is part of a name. -/
theorem scan_names (text : String) :
    (∀ t ∈ (scanText text).tokens, ∀ name, t.token = .identifier name →
      ∀ before c after, name.toList = before ++ c :: after → c.toNat < 128 →
        c.isAlphanum = true ∨ c = '_' ∨ ∃ front l between, before = front ++ l :: between ∧
          l.toNat ∈ leadingLetters ∧ ∀ p ∈ between, BoundaryClass.ofChar p = .leading) ∧
    ((∀ l ∈ text.toList, l.toNat ∉ leadingLetters) →
      ∀ t ∈ (scanText text).tokens, ∀ name, t.token = .identifier name →
        ∀ c ∈ name.toList, c.toNat < 128 → c.isAlphanum = true ∨ c = '_') ∧
    ∀ l c : Char, l.toNat ∈ leadingLetters → 32 ≤ c.toNat → c.toNat < 127 →
      ∃ t stop, scanText (String.ofList [l, c]) = ⟨[t, stop], []⟩ ∧
        t.token = .identifier (String.ofList [l, c]) ∧ stop.isEnd := by
  refine ⟨fun t mem name ht before c after => ascii_of_name mem ht, ?_, fun l c => scan_leading⟩
  intro free t mem name ht c hc ascii
  obtain ⟨before, after, hname⟩ := List.append_of_mem hc
  obtain letter | underscore | ⟨front, l, between, rfl, hl, -⟩ := ascii_of_name mem ht hname ascii
  · exact .inl letter
  · exact .inr underscore
  · exact absurd hl (free l (mem_of_mem_name mem ht (by simp [hname])))

/-- A name and a semicolon behind it. -/
theorem scan_names_plain : ∃ t ∈ (scanText "x1;").tokens, t.token = .identifier "x1" ∧
    ∀ c ∈ "x1".toList, c.toNat < 128 → c.isAlphanum = true ∨ c = '_' := by
  have mem : ⟨.identifier "x1", some ⟨⟨1, 1, 0⟩, ⟨1, 3, 2⟩⟩⟩ ∈ (scanText "x1;").tokens := by
    decide +kernel
  exact ⟨_, mem, rfl, (scan_names "x1;").2.1 (by simp [leadingLetters]) _ mem _ rfl⟩

/-- Behind the Malayalam letter that is written as a dot above the next one, a semicolon is part of
the name. -/
theorem scan_names_semicolon : ¬ ∀ t ∈ (scanText "\u0d4e;").tokens, ∀ name,
    t.token = .identifier name → ∀ c ∈ name.toList, c.toNat < 128 →
      c.isAlphanum = true ∨ c = '_' := by
  intro names
  obtain ⟨t, stop, scanned, ht, -⟩ :=
    @scan_leading '\u0d4e' ';' (by decide) (by decide) (by decide)
  have mem : t ∈ (scanText "\u0d4e;").tokens := by
    rw [show "\u0d4e;" = String.ofList ['\u0d4e', ';'] from rfl, scanned]
    exact List.mem_cons_self
  exact absurd (names t mem _ ht ';' (by decide) (by decide)) (by decide)

end Lox
