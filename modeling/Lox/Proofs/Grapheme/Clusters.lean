import Mathlib.Data.List.Basic
import Lox.Grapheme.Segmenter

/-!
# Runs of whole graphemes

Whether a run of graphemes is split into these graphemes again is seen one by one: no boundary
stands inside one, and one stands between each and the next. So a part of a run that was split is
split in the same way, and so are two runs put together, if a boundary stands between them.

* `Grapheme.Clusters`: the run is split into itself.
* `Grapheme.clusters_split`: what a text is split into is such a run.
* `Grapheme.Clusters.part`: a part of a run.
* `Grapheme.Clusters.append`: two runs with a boundary between them.
* `Grapheme.apart_of_plain_left`, `Grapheme.apart_of_plain_right`: boundaries beside a plain
  character.
-/

namespace Lox.Grapheme

/-- No grapheme is empty. -/
theorem eq_nil_of_flatMap_chars {gs : List Grapheme} (h : gs.flatMap chars = []) : gs = [] := by
  cases gs with
  | nil => rfl
  | cons g gs => cases h

variable [Segmenter]

/-- No boundary stands inside the grapheme. -/
def IsWhole (g : Grapheme) : Prop := Segmenter.split g.chars = [g]

/-- A boundary stands between two graphemes. -/
def Apart (g h : Grapheme) : Prop := Segmenter.split (g.chars ++ h.chars) = [g, h]

/-- The run of graphemes is split into itself. -/
def Clusters (gs : List Grapheme) : Prop := Segmenter.split (gs.flatMap chars) = gs

theorem Clusters.split_eq {gs : List Grapheme} (h : Clusters gs) :
    Segmenter.split (gs.flatMap chars) = gs :=
  h

/-- What a text is split into is split into itself. -/
theorem clusters_split (cs : List Char) : Clusters (Segmenter.split cs) :=
  congrArg Segmenter.split (Segmenter.flatMap_chars_split cs)

theorem clusters_nil : Clusters [] :=
  eq_nil_of_flatMap_chars (Segmenter.flatMap_chars_split [])

theorem IsWhole.clusters {g : Grapheme} (h : g.IsWhole) : Clusters [g] := by
  rw [Clusters, List.flatMap_singleton]
  exact h

/-- A part of a run that is split into itself is such a run. -/
theorem Clusters.part {gs hs : List Grapheme} (h : Clusters hs) (part : gs <:+: hs) :
    Clusters gs := by
  rw [← h] at part
  exact Segmenter.split_of_infix part

theorem Clusters.whole {gs : List Grapheme} (h : Clusters gs) {g : Grapheme} (mem : g ∈ gs) :
    g.IsWhole := by
  obtain ⟨before, after, rfl⟩ := List.append_of_mem mem
  have single : Clusters [g] := h.part ⟨before, after, by simp⟩
  rwa [Clusters, List.flatMap_singleton] at single

/-- Two runs with a boundary between them are one. -/
theorem Clusters.append {gs hs : List Grapheme} (hg : Clusters gs) (hh : Clusters hs)
    (boundary : ∀ g ∈ gs.getLast?, ∀ h ∈ hs.head?, g.Apart h) : Clusters (gs ++ hs) := by
  obtain rfl | ⟨front, g, rfl⟩ := List.eq_nil_or_concat' gs
  · exact hh
  cases hs with
  | nil =>
    rw [List.append_nil]
    exact hg
  | cons h hs =>
    have apart : Segmenter.split (g.chars ++ h.chars) = [g] ++ [h] :=
      boundary g (by simp) h rfl
    have behind := Segmenter.split_append (hs.flatMap chars) apart
    rw [List.append_assoc, ← List.flatMap_cons, hh] at behind
    rw [Clusters, List.flatMap_append, Segmenter.split_append _ hg, behind, List.append_assoc]

/-! ## Boundaries beside a plain character -/

/-- The two code points are one grapheme. -/
def Joins (a b : Char) : Prop := Segmenter.split [a, b] = [⟨a, [b]⟩]

/-- The code point joins no ASCII character before it. -/
def OpensApart (c : Char) : Prop := ∀ a : Char, a.toNat < 128 → ¬ Joins a c

/-- The code point joins no ASCII character behind it. -/
def ClosesApart (c : Char) : Prop := ∀ a : Char, a.toNat < 128 → ¬ Joins c a

/-- One code point is a grapheme by itself. -/
theorem isWhole_char (c : Char) : IsWhole ⟨c, []⟩ := by
  have all := Segmenter.flatMap_chars_split [c]
  show Segmenter.split [c] = _
  generalize Segmenter.split [c] = gs at all
  match gs with
  | ⟨lead, []⟩ :: gs =>
    obtain ⟨rfl, rest⟩ := List.cons.inj all
    rw [eq_nil_of_flatMap_chars rest]
  | ⟨lead, mark :: marks⟩ :: gs => cases (List.cons.inj all).2

/-- Two code points that are not one grapheme are two of them. -/
theorem split_pair {a b : Char} (h : ¬ Joins a b) :
    Segmenter.split [a, b] = [⟨a, []⟩, ⟨b, []⟩] := by
  have all := Segmenter.flatMap_chars_split [a, b]
  unfold Joins at h
  generalize Segmenter.split [a, b] = gs at all h
  match gs with
  | [⟨lead, []⟩] => cases (List.cons.inj all).2
  | ⟨lead, []⟩ :: ⟨lead', []⟩ :: gs =>
    obtain ⟨rfl, second⟩ := List.cons.inj all
    have second : lead' :: gs.flatMap chars = [b] := second
    obtain ⟨rfl, rest⟩ := List.cons.inj second
    rw [eq_nil_of_flatMap_chars rest]
  | ⟨lead, []⟩ :: ⟨lead', mark :: marks⟩ :: gs => cases (List.cons.inj (List.cons.inj all).2).2
  | ⟨lead, [mark]⟩ :: gs =>
    obtain ⟨rfl, second⟩ := List.cons.inj all
    have second : mark :: gs.flatMap chars = [b] := second
    obtain ⟨rfl, rest⟩ := List.cons.inj second
    rw [eq_nil_of_flatMap_chars rest] at h
    exact absurd rfl h
  | ⟨lead, mark :: mark' :: marks⟩ :: gs => cases (List.cons.inj (List.cons.inj all).2).2

/-- A boundary stands between a plain character and the code point. -/
def FreeBefore (c : Char) : Prop := ∀ a, IsPlain a → ¬ Joins a c

/-- A boundary stands between the code point and a plain character. -/
def FreeBehind (c : Char) : Prop := ∀ a, IsPlain a → ¬ Joins c a

omit [Segmenter] in
theorem IsPlain.lt {c : Char} (h : IsPlain c) : c.toNat < 128 := by
  obtain ⟨-, high⟩ | rfl := h
  · omega
  · decide

theorem OpensApart.freeBefore {c : Char} (h : OpensApart c) : FreeBefore c :=
  fun a plain => h a plain.lt

theorem ClosesApart.freeBehind {c : Char} (h : ClosesApart c) : FreeBehind c :=
  fun a plain => h a plain.lt

theorem IsPlain.not_joins {a b : Char} (ha : IsPlain a) (hb : IsPlain b) : ¬ Joins a b := by
  intro joined
  have both := (Segmenter.split_plain ha hb).symm.trans joined
  cases (List.cons.inj both).2

theorem IsPlain.freeBefore {c : Char} (h : IsPlain c) : FreeBefore c :=
  fun _ plain => plain.not_joins h

theorem IsPlain.freeBehind {c : Char} (h : IsPlain c) : FreeBehind c :=
  fun _ plain => h.not_joins plain

/-- Behind a plain character a boundary stands before whatever does not join with one. -/
theorem apart_of_plain_left {a : Char} {h : Grapheme} (ha : IsPlain a) (hh : h.IsWhole)
    (free : FreeBefore h.lead) : Apart ⟨a, []⟩ h :=
  Segmenter.split_seam (isWhole_char a) hh rfl (.inl ha) (split_pair (free a ha))

/-- Before a plain character a boundary stands behind whatever does not join with one. -/
theorem apart_of_plain_right {g h : Grapheme} {c : Char} (hg : g.IsWhole) (hh : h.IsWhole)
    (plain : IsPlain h.lead) (hc : c ∈ g.chars.getLast?) (free : FreeBehind c) : Apart g h :=
  Segmenter.split_seam hg hh hc (.inr plain) (split_pair (free h.lead plain))

/-! ## Plain text -/

/-- Each character as a grapheme of its own. -/
def plain (cs : List Char) : List Grapheme := cs.map (⟨·, []⟩)

omit [Segmenter] in
theorem flatMap_chars_plain (cs : List Char) : (plain cs).flatMap chars = cs := by
  induction cs with
  | nil => rfl
  | cons c cs ih => exact congrArg (c :: ·) ih

omit [Segmenter] in
theorem isPlain_of_all {cs : List Char} (h : cs.all (fun c => decide (IsPlain c)) = true) :
    ∀ c ∈ cs, IsPlain c :=
  fun c mem => of_decide_eq_true (List.all_eq_true.mp h c mem)

/-- Plain text is split into its characters. -/
theorem clusters_plain {cs : List Char} (h : ∀ c ∈ cs, IsPlain c) : Clusters (plain cs) := by
  induction cs with
  | nil => exact clusters_nil
  | cons c cs ih =>
    rw [List.forall_mem_cons] at h
    refine (isWhole_char c).clusters.append (ih h.2) ?_
    rintro _ ⟨⟩ g mem
    obtain ⟨d, mem', rfl⟩ := List.mem_map.mp (List.mem_of_mem_head? mem)
    exact apart_of_plain_left h.1 (isWhole_char d) (h.2 d mem').freeBefore

end Lox.Grapheme
