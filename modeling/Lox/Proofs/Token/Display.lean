import Lox.Proofs.Token.LineBreak

/-!
# Tokens put one on a line

The tokens that a text is read as, white space left out, are read again from their own texts, put
one on a line. Only a comment may come back changed: the carriage return that it ends with goes to
the line feed behind it.

* `visibleTokens`: the tokens of a text that can be seen.
* `Lexeme.lexed`: a lexeme is read as its token when it stands by itself.
* `Token.Lined`: the token comes back from a line of its own.
* `display_reads_back`: the main statement.
-/

namespace Lox

open Grapheme (Clusters)

/-! ## Lines of tokens -/

/-- The tokens of a text that can be seen: all but white space and the end. -/
def visibleTokens [Segmenter] (text : String) : List Token :=
  ((scanText text).tokens.map PlacedToken.token).filter fun t =>
    t.kind != .whitespace && t.kind != .mark .endOfFile

namespace Token

/-- A comment with a carriage return at its end. -/
def EndsInReturn : Token → Prop
  | comment text => text.toList.getLast? = some '\r'
  | _ => False

instance (t : Token) : Decidable t.EndsInReturn := by
  cases t <;> unfold EndsInReturn <;> infer_instance

/-- What a token with a line feed behind it is read as. A carriage return at the end of a comment
becomes a part of the line break. -/
def withLineFeed : Token → List Token
  | comment text =>
    if text.toList.getLast? = some '\r' then
      [.comment (String.ofList text.toList.dropLast), .whitespace .crlf]
    else [.comment text, .whitespace .newline]
  | t => [t, .whitespace .newline]

/-- What tokens are read as that stand one on a line. -/
def inLines : List Token → List Token
  | [] => []
  | [t] => [t]
  | t :: u :: ts => t.withLineFeed ++ inLines (u :: ts)

theorem withLineFeed_eq {t : Token} (h : ¬ t.EndsInReturn) :
    t.withLineFeed = [t, .whitespace .newline] := by
  cases t with
  | comment text => exact if_neg h
  | _ => rfl

/-- Tokens come back unchanged if no comment before the last token ends in a carriage return. -/
theorem inLines_eq {ts : List Token} (h : ∀ t ∈ ts.dropLast, ¬ t.EndsInReturn) :
    inLines ts = ts.intersperse (.whitespace .newline) := by
  induction ts using inLines.induct with
  | case1 => rfl
  | case2 t => rfl
  | case3 t u ts ih =>
    rw [List.dropLast_cons_of_ne_nil (List.cons_ne_nil u ts), List.forall_mem_cons] at h
    rw [inLines, withLineFeed_eq h.1, ih h.2]
    rfl

end Token

/-! ## Lexemes by themselves -/

namespace Lexeme

variable {gs rest : List Grapheme} {t : Token}

/-- A lexeme is read as its token when it stands by itself. -/
theorem lexed [Segmenter] (h : Lexeme gs rest (.ok t)) (clusters : Clusters gs) :
    Lexed (gs.flatMap Grapheme.chars) [t] := by
  obtain ⟨p, -, cut, reading⟩ := (h.front (List.nil_prefix ..)).exists_piece
  rw [List.append_nil, Piece.cut] at cut
  rw [Lexed, clusters.split_eq, cut, List.map_singleton, reading]
  rfl

/-- All tokens but numbers are spelled in one way only. -/
theorem chars_eq (h : Lexeme gs rest (.ok t)) (other : t.kind ≠ .number) :
    gs.flatMap Grapheme.chars = t.spelling.toList := by
  have single {g : Grapheme} {s : String} (text : g.text = s) :
      [g].flatMap Grapheme.chars = s.toList := by
    rw [← text, Grapheme.text, String.toList_ofList, List.flatMap_singleton]
  have joined (gs : List Grapheme) : gs.flatMap Grapheme.chars = (Grapheme.join gs).toList := by
    rw [Grapheme.join, String.toList_ofList]
  cases h with
  | keyword _ _ _ spelled => exact (joined _).trans (congrArg String.toList spelled.symm)
  | identifier => exact joined _
  | whole => exact absurd rfl other
  | fraction => exact absurd rfl other
  | operator _ text => exact single text
  | @operatorEqual g _ m extended _ text spelled =>
    show ([g] ++ [(⟨'=', []⟩ : Grapheme)]).flatMap Grapheme.chars = extended.spelling.toList
    rw [List.flatMap_append, single text, spelled, String.toList_append]
    rfl
  | comment => exact joined _
  | slash => rfl
  | @string inner =>
    show _ = ("\"" ++ Grapheme.join inner ++ "\"").toList
    rw [String.toList_append, String.toList_append, ← joined]
    simp [Grapheme.chars]
  | punctuation _ text => exact single text
  | blank text => exact single text

/-- A name does not end in a carriage return. -/
theorem identifier_getLast? [Segmenter] {n : String} (h : Lexeme gs rest (.ok (.identifier n)))
    (clusters : Clusters gs) : n.toList.getLast? ≠ some '\r' := by
  intro last
  rw [← show _ = n.toList from h.chars_eq nofun] at last
  obtain ⟨front, rfl⟩ := clusters.exists_concat last
  have word : ∀ g ∈ front ++ [⟨'\r', []⟩], g.isAlphanumeric := by
    generalize front ++ [⟨'\r', []⟩] = gs at h
    cases h with
    | identifier alpha run =>
      rw [List.forall_mem_cons]
      exact ⟨by rw [Grapheme.isAlphanumeric, alpha, Bool.true_or], run.inside⟩
  exact absurd (word _ (List.mem_append_right _ List.mem_cons_self)) (by decide)

/-- A comment is one still without the carriage return at its end. -/
theorem comment_dropLast [Segmenter] {text : String} (h : Lexeme gs rest (.ok (.comment text)))
    (clusters : Clusters gs) (last : text.toList.getLast? = some '\r') :
    Lexed text.toList.dropLast [.comment (String.ofList text.toList.dropLast)] := by
  have spelled : gs.flatMap Grapheme.chars = text.toList := h.chars_eq nofun
  obtain ⟨front, rfl⟩ := clusters.exists_concat (spelled ▸ last)
  have chars : text.toList.dropLast = front.flatMap Grapheme.chars := by
    rw [← spelled, List.flatMap_append, List.flatMap_singleton]
    exact List.dropLast_concat
  have shorter : Lexeme front [] (.ok (.comment (Grapheme.join front))) := by
    generalize split : front ++ [⟨'\r', []⟩] = gs at h
    cases h with
    | @comment body _ run =>
      match front, split with
      | _ :: _ :: inner, split =>
        obtain ⟨rfl, rfl, rfl⟩ := by simpa using split
        exact .comment ⟨fun g mem => run.inside g (by simp [mem]), nofun⟩
  rw [chars]
  exact shorter.lexed (clusters.part (List.prefix_append _ _).isInfix)

end Lexeme

/-! ## Tokens by themselves -/

namespace Token

variable [Segmenter] {t : Token}

/-- The token comes back from a line of its own, whatever stands on the next. -/
structure Lined (t : Token) : Prop where
  alone : Lexed t.text.toList [t]
  before : ∀ {ds : List Char} {us : List Token}, Lexed ds us →
    Lexed (t.text.toList ++ '\n' :: ds) (t.withLineFeed ++ us)

theorem Lined.of_getLast? (alone : Lexed t.text.toList [t])
    (last : t.text.toList.getLast? ≠ some '\r') : t.Lined where
  alone := alone
  before rest := by
    rw [withLineFeed_eq]
    · exact alone.lineFeed last rest
    · cases t with
      | comment text => exact last
      | _ => exact id

/-- Tokens that come back from lines of their own come back from all their lines together. -/
theorem lexed_inLines {ts : List Token} (h : ∀ t ∈ ts, t.Lined) :
    Lexed (String.intercalate "\n" (ts.map text)).toList (inLines ts) := by
  induction ts using inLines.induct with
  | case1 => exact lexed_nil
  | case2 t => simpa [inLines] using (h t List.mem_cons_self).alone
  | case3 t u ts ih =>
    rw [List.forall_mem_cons] at h
    have lines := h.1.before (ih h.2)
    simpa [inLines] using lines

end Token

namespace Lexeme

variable [Segmenter] {gs rest : List Grapheme} {t : Token}

/-- A token that was read comes back from a line of its own. -/
theorem lined (h : Lexeme gs rest (.ok t)) (clusters : Clusters gs) (seen : t.kind ≠ .whitespace)
    (finite : ∀ x, t = .number x → x.toBits.toNat < 2 ^ 63 ∧ x.isFinite) : t.Lined := by
  cases t with
  | mark m =>
    have alone : Lexed _ _ := h.chars_eq nofun ▸ h.lexed clusters
    refine .of_getLast? alone ?_
    cases m <;> decide
  | identifier n =>
    have alone : Lexed _ _ := h.chars_eq nofun ▸ h.lexed clusters
    exact .of_getLast? alone (h.identifier_getLast? clusters)
  | string text =>
    have alone : Lexed _ _ := h.chars_eq nofun ▸ h.lexed clusters
    have quote : (Token.string text).text.toList = '"' :: text.toList ++ ['"'] := by
      simp [Token.text]
    refine .of_getLast? alone ?_
    rw [quote, List.getLast?_concat]
    decide
  | number x =>
    obtain ⟨unsigned, finite⟩ := finite x rfl
    obtain ⟨p, legible⟩ := exists_legible_number unsigned finite
    refine .of_getLast? legible.lexed fun last => ?_
    exact legible.behind _ last '\n' (by decide) Segmenter.split_crlf
  | comment text =>
    have alone : Lexed _ _ := h.chars_eq nofun ▸ h.lexed clusters
    by_cases last : text.toList.getLast? = some '\r'
    · refine ⟨alone, fun {ds us} rest => ?_⟩
      have shorter := (h.comment_dropLast clusters last).crlf rest
      have chars : text.toList.dropLast ++ ['\r'] = text.toList :=
        List.dropLast_append_getLast? _ last
      have split : text.toList ++ '\n' :: ds = text.toList.dropLast ++ '\r' :: '\n' :: ds := by
        conv_lhs => rw [← chars, List.append_assoc, List.singleton_append]
      rw [Token.withLineFeed, if_pos last]
      exact (congrArg (Lexed · _) split).mpr shorter
    · exact .of_getLast? alone last
  | whitespace b => exact absurd rfl seen

end Lexeme

/-- What can be seen of a text comes back from its lines. -/
theorem lined_of_mem_visibleTokens [Segmenter] {text : String} {t : Token}
    (h : t ∈ visibleTokens text) (finite : ∀ x, t = .number x → x.isFinite) : t.Lined := by
  obtain ⟨mem, seen⟩ := List.mem_filter.mp h
  rw [Bool.and_eq_true, bne_iff_ne, bne_iff_ne] at seen
  obtain ⟨u, scanned, rfl⟩ := List.mem_map.mp mem
  obtain ⟨p, mem, reading⟩ := exists_piece_of_mem_scan scanned (beq_eq_false_iff_ne.mpr seen.2)
  obtain ⟨rest, lexeme⟩ := Piece.exists_lexeme mem reading
  have clusters : Clusters p.graphemes :=
    (Grapheme.clusters_split _).part (Piece.mem_cut mem).1
  refine lexeme.lined clusters seen.1 fun x number => ⟨?_, finite x number⟩
  rw [number] at reading
  cases Piece.readAs_of_reading reading
  exact p.toBits_numberOf_lt

/-- Tokens that were read are read again from their texts, put one on a line: white space left out,
and numbers all finite. They come back unchanged, save that a comment gives a carriage return at its
end to the line feed behind it. -/
theorem display_reads_back [Segmenter] (text : String)
    (finite : ∀ x, Token.number x ∈ visibleTokens text → x.isFinite) :
    let ts := visibleTokens text
    let again := scanText (String.intercalate "\n" (ts.map Token.text))
    again.errors = [] ∧
      again.tokens.map PlacedToken.token = Token.inLines ts ++ [.mark .endOfFile] ∧
      ((∀ t ∈ ts.dropLast, ¬ t.EndsInReturn) →
        Token.inLines ts = ts.intersperse (.whitespace .newline)) := by
  intro ts again
  have lexed : Lexed _ (Token.inLines ts) := Token.lexed_inLines fun t mem =>
    lined_of_mem_visibleTokens mem fun x number => finite x (number ▸ mem)
  obtain ⟨placed, stop, scanned, isEnd, -, tokens⟩ := scan_of_lexed lexed
  have scanned : again = ⟨placed ++ [stop], []⟩ := scanned
  rw [scanned]
  refine ⟨rfl, ?_, Token.inLines_eq⟩
  rw [List.map_append, tokens, List.map_singleton, PlacedToken.isEnd_iff.mp isEnd]

/-- A number, a comment that ends in a carriage return and a name come back so. -/
theorem display_reads_back_number :
    (∀ x, Token.number x ∈ visibleTokens "1.5 // a\r\r\nx" → x.isFinite) ∧
      (scanText (String.intercalate "\n"
        ((visibleTokens "1.5 // a\r\r\nx").map Token.text))).tokens.map PlacedToken.token =
        [.number 1.5, .whitespace .newline, .comment "// a", .whitespace .crlf, .identifier "x",
          .mark .endOfFile] := by
  have tokens : visibleTokens "1.5 // a\r\r\nx" =
      [.number 1.5, .comment "// a\r", .identifier "x"] := by decide +kernel
  have finite : ∀ x, Token.number x ∈ visibleTokens "1.5 // a\r\r\nx" → x.isFinite := by
    intro x mem
    obtain rfl : x = 1.5 := by simpa [tokens] using mem
    decide +kernel
  obtain ⟨-, same, -⟩ := display_reads_back _ finite
  exact ⟨finite, same.trans (by rw [tokens]; rfl)⟩

/-- A comment with a carriage return behind it that belongs to it loses it to the line feed. -/
theorem display_carriageReturn :
    visibleTokens "// a\r\r\nx" = [.comment "// a\r", .identifier "x"] ∧
      (scanText (String.intercalate "\n"
        ((visibleTokens "// a\r\r\nx").map Token.text))).tokens.map PlacedToken.token ≠
        (visibleTokens "// a\r\r\nx").intersperse (.whitespace .newline) ++
          [.mark .endOfFile] := by
  decide +kernel

end Lox
