import Ambient.Proofs.Text.Shown
import Ambient.Proofs.Text.Words

/-!
# Tidy lines

The lines that a free text shows are tidy: no line holds a line feed or ends in a blank,
and the first and the last one are not blank. Tidying loses blanks only, and lines that
are tidy already are the lines of the text that they are when they are joined again.
-/

namespace Ambient.Text

variable {α : Type} {p : α → Bool}

/-! ## What is dropped from a list -/

theorem exists_dropEndWhile_append (as : List α) :
    ∃ dropped, dropEndWhile p as ++ dropped = as ∧ ∀ a ∈ dropped, p a = true := by
  induction as with
  | nil => exact ⟨[], rfl, fun _ h => absurd h List.not_mem_nil⟩
  | cons a as ih =>
    obtain ⟨dropped, happend, hall⟩ := ih
    unfold dropEndWhile
    split
    · rename_i hnone
      rw [hnone, List.nil_append] at happend
      subst happend
      split
      · rename_i ha
        exact ⟨a :: dropped, rfl, List.forall_mem_cons.mpr ⟨ha, hall⟩⟩
      · exact ⟨dropped, rfl, hall⟩
    · exact ⟨dropped, congrArg (a :: ·) happend, hall⟩

theorem filter_not_dropEndWhile (as : List α) :
    (dropEndWhile p as).filter (! p ·) = as.filter (! p ·) := by
  obtain ⟨dropped, happend, hall⟩ := exists_dropEndWhile_append (p := p) as
  have hnone : dropped.filter (! p ·) = [] :=
    List.filter_eq_nil_iff.mpr fun a ha => by simp [hall a ha]
  calc (dropEndWhile p as).filter (! p ·)
      = (dropEndWhile p as ++ dropped).filter (! p ·) := by
        rw [List.filter_append, hnone, List.append_nil]
    _ = as.filter (! p ·) := by rw [happend]

/-- A list that ends in something else is left as it is. -/
theorem dropEndWhile_of_getLast? {as : List α} (h : ∀ a, as.getLast? = some a → p a = false) :
    dropEndWhile p as = as := by
  obtain ⟨dropped, happend, hall⟩ := exists_dropEndWhile_append (p := p) as
  cases hlast : dropped.getLast? with
  | none =>
    rw [List.getLast?_eq_none_iff.mp hlast, List.append_nil] at happend
    exact happend
  | some a =>
    have htrue := hall a (List.mem_of_getLast? hlast)
    have hfalse := h a (by rw [← happend, List.getLast?_append, hlast]; rfl)
    rw [htrue] at hfalse
    exact nomatch hfalse

/-- Empty lines at the end hold nothing. -/
theorem flatten_dropEndWhile_isEmpty (lines : List (List α)) :
    (dropEndWhile List.isEmpty lines).flatten = lines.flatten := by
  obtain ⟨dropped, happend, hall⟩ := exists_dropEndWhile_append (p := List.isEmpty) lines
  have hnone : dropped.flatten = [] :=
    List.flatten_eq_nil_iff.mpr fun line hline => List.isEmpty_iff.mp (hall line hline)
  calc (dropEndWhile List.isEmpty lines).flatten
      = (dropEndWhile List.isEmpty lines ++ dropped).flatten := by
        rw [List.flatten_append, hnone, List.append_nil]
    _ = lines.flatten := by rw [happend]

theorem flatten_dropWhile_isEmpty (lines : List (List α)) :
    (lines.dropWhile List.isEmpty).flatten = lines.flatten := by
  induction lines with
  | nil => rfl
  | cons line lines ih =>
    rw [List.dropWhile_cons]
    split
    · rename_i hempty
      rw [ih, List.flatten_cons, List.isEmpty_iff.mp hempty, List.nil_append]
    · rfl

/-! ## What can be seen -/

/-- The characters that are not blank. -/
def visible (cs : List Char) : List Char := cs.filter (! isBlank ·)

theorem visible_bareLines (cs : List Char) : visible (bareLines cs).flatten = visible cs := by
  have hpiece : List.filter (! isBlank ·) ∘ dropEndWhile isBlank = List.filter (! isBlank ·) :=
    funext filter_not_dropEndWhile
  have hfeed : ∀ c : Char, (! isBlank c && decide (c ≠ '\n')) = ! isBlank c := by
    intro c
    by_cases hc : c = '\n'
    · subst hc
      rfl
    · simp [hc]
  unfold visible bareLines
  rw [List.filter_flatten, List.map_map, hpiece, ← List.filter_flatten, flatten_splitAt,
    List.filter_filter]
  simp only [hfeed]

theorem visible_shownLines (cs : List Char) : visible (shownLines cs).flatten = visible cs := by
  rw [shownLines, flatten_dropEndWhile_isEmpty, flatten_dropWhile_isEmpty, visible_bareLines]

theorem visible_eq_nil_iff {cs : List Char} : visible cs = [] ↔ cs.all isBlank = true := by
  rw [visible, List.filter_eq_nil_iff, List.all_eq_true]
  simp

/-! ## Tidy lines -/

/-- Lines as they are shown. -/
structure Tidy (lines : List (List Char)) : Prop where
  oneLine : ∀ line ∈ lines, '\n' ∉ line
  /-- No line ends in a blank. -/
  bare : ∀ line ∈ lines, ∀ c, line.getLast? = some c → isBlank c = false
  /-- The first line shows something. -/
  first : ∀ line, lines.head? = some line → visible line ≠ []
  /-- The last line shows something. -/
  last : ∀ line, lines.getLast? = some line → visible line ≠ []

theorem not_mem_of_mem_bareLines {cs line : List Char} (h : line ∈ bareLines cs) :
    '\n' ∉ line := by
  obtain ⟨piece, hpiece, rfl⟩ := List.mem_map.mp h
  have hkept := dropEndWhile_prefix isBlank piece
  exact fun hmem => not_mem_of_mem_splitAt hpiece (hkept.subset hmem)

theorem not_blank_of_mem_bareLines {cs line : List Char} {c : Char} (h : line ∈ bareLines cs)
    (hc : line.getLast? = some c) : isBlank c = false := by
  obtain ⟨piece, -, rfl⟩ := List.mem_map.mp h
  exact not_of_getLast?_dropEndWhile hc

/-- A line of which something is left shows something: its last character. -/
theorem visible_ne_nil_of_mem_bareLines {cs line : List Char} (h : line ∈ bareLines cs)
    (hline : line.isEmpty = false) : visible line ≠ [] := by
  intro hnone
  cases hlast : line.getLast? with
  | none =>
    rw [List.getLast?_eq_none_iff.mp hlast] at hline
    exact nomatch hline
  | some c =>
    have hblank := List.all_eq_true.mp (visible_eq_nil_iff.mp hnone) c (List.mem_of_getLast? hlast)
    rw [not_blank_of_mem_bareLines h hlast] at hblank
    exact nomatch hblank

theorem tidy_shownLines (cs : List Char) : Tidy (shownLines cs) where
  oneLine line hline := not_mem_of_mem_bareLines (mem_bareLines_of_mem_shownLines hline)
  bare line hline _ hc := not_blank_of_mem_bareLines (mem_bareLines_of_mem_shownLines hline) hc
  first line hline := by
    have hmem := mem_bareLines_of_mem_shownLines (List.mem_of_head? hline)
    exact visible_ne_nil_of_mem_bareLines hmem (not_of_head?_dropEndWhile_dropWhile hline)
  last line hline := by
    have hmem := mem_bareLines_of_mem_shownLines (List.mem_of_getLast? hline)
    exact visible_ne_nil_of_mem_bareLines hmem (not_of_getLast?_dropEndWhile hline)

theorem splitAt_intercalate {separator : Char} {pieces : List (List Char)} (hpieces : pieces ≠ [])
    (h : ∀ piece ∈ pieces, separator ∉ piece) :
    splitAt separator ([separator].intercalate pieces) = pieces := by
  induction pieces with
  | nil => exact absurd rfl hpieces
  | cons piece pieces ih =>
    obtain ⟨hpiece, hrest⟩ := List.forall_mem_cons.mp h
    cases pieces with
    | nil => rw [List.intercalate_singleton, splitAt_of_not_mem hpiece]
    | cons second pieces =>
      rw [List.intercalate_cons_cons, List.append_assoc, List.singleton_append, splitAt_append,
        splitAt_of_not_mem hpiece, ih (List.cons_ne_nil second pieces) hrest]
      rfl

/-- **Tidy lines are the lines of the text that they make.** -/
theorem Tidy.shownLines_intercalate {lines : List (List Char)} (h : Tidy lines) :
    shownLines (['\n'].intercalate lines) = lines := by
  by_cases hlines : lines = []
  · subst hlines
    rfl
  · have hkept : lines.map (dropEndWhile isBlank) = lines := by
      refine (List.map_congr_left fun line hline => ?_).trans (List.map_id lines)
      exact dropEndWhile_of_getLast? (h.bare line hline)
    have hbare : bareLines (['\n'].intercalate lines) = lines := by
      rw [bareLines, splitAt_intercalate hlines h.oneLine, hkept]
    have hnot : ∀ line : List Char, visible line ≠ [] → line.isEmpty = false := by
      intro line hline
      refine Bool.eq_false_iff.mpr fun hempty => hline ?_
      rw [List.isEmpty_iff.mp hempty]
      rfl
    rw [shownLines, hbare, dropWhile_of_head fun line hline => hnot line (h.first line hline),
      dropEndWhile_of_getLast? fun line hline => hnot line (h.last line hline)]

/-- No line is shown of a blank text. -/
theorem shownLines_eq_nil_iff {cs : List Char} : shownLines cs = [] ↔ cs.all isBlank = true := by
  rw [← visible_eq_nil_iff, ← visible_shownLines]
  constructor
  · intro hnone
    rw [hnone]
    rfl
  · intro hblank
    cases hshown : shownLines cs with
    | nil => rfl
    | cons line lines =>
      have hline : visible line ≠ [] := (tidy_shownLines cs).first line (by rw [hshown]; rfl)
      rw [hshown, List.flatten_cons, visible, List.filter_append] at hblank
      exact absurd (List.append_eq_nil_iff.mp hblank).1 hline

theorem map_toList_textLines (text : String) :
    (textLines text).map String.toList = shownLines text.toList := by
  rw [textLines_eq, List.map_map, String.toList_comp_ofList, List.map_id]

/-- **The lines of a text are tidy and lose nothing that can be seen**, and they are the lines of
the text that they make when they are joined again. -/
theorem textLines_tidy (text : String) :
    Tidy ((textLines text).map String.toList) ∧
      (textLines text = [] ↔ isBlankText text = true) ∧
      visible ((textLines text).map String.toList).flatten = visible text.toList ∧
      textLines ("\n".intercalate (textLines text)) = textLines text := by
  have hjoined : ("\n".intercalate (textLines text)).toList =
      ['\n'].intercalate (shownLines text.toList) := by
    rw [String.toList_intercalate, map_toList_textLines]
    rfl
  rw [map_toList_textLines]
  refine ⟨tidy_shownLines text.toList, ?_, visible_shownLines text.toList, ?_⟩
  · rw [isBlankText, ← shownLines_eq_nil_iff, textLines_eq, List.map_eq_nil_iff]
  · rw [textLines_eq, hjoined, (tidy_shownLines text.toList).shownLines_intercalate, ← textLines_eq]

end Ambient.Text
