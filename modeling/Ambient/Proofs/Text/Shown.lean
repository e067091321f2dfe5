import Ambient.Proofs.Text.Trimmed
import Ambient.Text.Lines

/-!
# The lines that a free text shows

Blanks before and after a free text do not count when it is compared. They do not count
either when its lines are shown, but for the blanks before the first line that shows
something, which are kept. `modifyHead_trim_textLines` says that nothing else is.
-/

namespace Ambient.Text

variable {α : Type} {p : α → Bool}

/-! ## The two ends of a list -/

theorem dropEndWhile_cons_of_not {a : α} (h : p a = false) (as : List α) :
    dropEndWhile p (a :: as) = a :: dropEndWhile p as := by
  rw [dropEndWhile]
  cases dropEndWhile p as with
  | nil => exact if_neg (Bool.eq_false_iff.mp h)
  | cons b bs => rfl

theorem dropEndWhile_cons_congr {as bs : List α} (h : dropEndWhile p as = dropEndWhile p bs)
    (a : α) : dropEndWhile p (a :: as) = dropEndWhile p (a :: bs) := by
  unfold dropEndWhile
  rw [h]

/-- What is left at the end keeps all that is before it. -/
theorem dropEndWhile_append_of_ne_nil (as : List α) {bs : List α} (h : dropEndWhile p bs ≠ []) :
    dropEndWhile p (as ++ bs) = as ++ dropEndWhile p bs := by
  induction as with
  | nil => rfl
  | cons a as ih =>
    obtain ⟨b, kept, hkept⟩ := List.exists_cons_of_ne_nil (List.append_ne_nil_of_right_ne_nil as h)
    rw [List.cons_append, dropEndWhile, ih, hkept, List.cons_append, hkept]

theorem dropEndWhile_singleton {a : α} (h : p a = true) : dropEndWhile p [a] = [] := if_pos h

/-- It does not matter which end is dropped first. -/
theorem dropEndWhile_dropWhile (as : List α) :
    dropEndWhile p (as.dropWhile p) = (dropEndWhile p as).dropWhile p := by
  induction as with
  | nil => rfl
  | cons a as ih =>
    by_cases h : p a = true
    · rw [List.dropWhile_cons_of_pos h, ih, dropEndWhile]
      cases dropEndWhile p as with
      | nil => rw [if_pos h]
      | cons b bs => rw [List.dropWhile_cons_of_pos h]
    · rw [List.dropWhile_cons_of_neg h, dropEndWhile_cons_of_not (Bool.eq_false_iff.mpr h),
        List.dropWhile_cons_of_neg h]

/-- What is left of some lines tells the first one: it is empty if nothing is left. -/
theorem headD_dropEndWhile_cons (line : List α) (lines : List (List α)) :
    (dropEndWhile List.isEmpty (line :: lines)).headD [] = line := by
  unfold dropEndWhile
  split
  · split
    · rename_i hempty
      exact (List.isEmpty_iff.mp hempty).symm
    · rfl
  · rfl

theorem tail_dropEndWhile_cons (line : List α) (lines : List (List α)) :
    (dropEndWhile List.isEmpty (line :: lines)).tail = dropEndWhile List.isEmpty lines := by
  rw [dropEndWhile]
  cases dropEndWhile List.isEmpty lines with
  | nil =>
    show (if line.isEmpty then [] else [line]).tail = []
    split
    · rfl
    · rfl
  | cons first rest => rfl

/-! ## Lines -/

theorem splitAt_cons (separator c : Char) (cs : List Char) :
    splitAt separator (c :: cs) =
      if c = separator then [] :: splitAt separator cs
      else (splitAt separator cs).modifyHead (c :: ·) := by
  obtain ⟨piece, pieces, heq⟩ := List.exists_cons_of_ne_nil (splitAt_ne_nil separator cs)
  rw [splitAt, heq]
  rfl

/-- The lines of a text without blanks at their ends, those that show nothing included. -/
def bareLines (cs : List Char) : List (List Char) :=
  (splitAt '\n' cs).map (dropEndWhile isBlank)

theorem exists_bareLines_eq_cons (cs : List Char) : ∃ line lines, bareLines cs = line :: lines := by
  obtain ⟨piece, pieces, heq⟩ := List.exists_cons_of_ne_nil (splitAt_ne_nil '\n' cs)
  exact ⟨_, _, congrArg (List.map _) heq⟩

theorem dropEndWhile_of_mem_bareLines {cs line : List Char} (h : line ∈ bareLines cs) :
    dropEndWhile isBlank line = line := by
  obtain ⟨piece, -, rfl⟩ := List.mem_map.mp h
  exact dropEndWhile_dropEndWhile piece

theorem bareLines_cons (c : Char) (cs : List Char) :
    bareLines (c :: cs) =
      if c = '\n' then [] :: bareLines cs
      else (bareLines cs).modifyHead fun line => dropEndWhile isBlank (c :: line) := by
  obtain ⟨piece, pieces, heq⟩ := List.exists_cons_of_ne_nil (splitAt_ne_nil '\n' cs)
  unfold bareLines
  rw [splitAt_cons, heq]
  split
  · rfl
  · rw [List.modifyHead_cons, List.map_cons, List.map_cons, List.modifyHead_cons,
      dropEndWhile_cons_congr (dropEndWhile_dropEndWhile piece)]

/-- The lines from the first to the last that shows something. -/
def shownLines (cs : List Char) : List (List Char) :=
  dropEndWhile List.isEmpty ((bareLines cs).dropWhile List.isEmpty)

/-- What is shown begins with the first line if that shows something. -/
theorem shownLines_of_bareLines {cs line : List Char} {lines : List (List Char)}
    (h : bareLines cs = line :: lines) (hline : line ≠ []) :
    shownLines cs = line :: dropEndWhile List.isEmpty lines := by
  have hsome : line.isEmpty = false := Bool.eq_false_iff.mpr (mt List.isEmpty_iff.mp hline)
  rw [shownLines, h, List.dropWhile_cons_of_neg (Bool.eq_false_iff.mp hsome),
    dropEndWhile_cons_of_not hsome]

theorem textLines_eq (text : String) :
    textLines text = (shownLines text.toList).map String.ofList := rfl

/-! ### Blanks after the text -/

/-- More text before it does not bring back what is dropped at the end. -/
theorem dropEndWhile_bareLines_cons {cs cs' : List Char}
    (h : dropEndWhile List.isEmpty (bareLines cs) = dropEndWhile List.isEmpty (bareLines cs'))
    (c : Char) :
    dropEndWhile List.isEmpty (bareLines (c :: cs)) =
      dropEndWhile List.isEmpty (bareLines (c :: cs')) := by
  rw [bareLines_cons, bareLines_cons]
  split
  · exact dropEndWhile_cons_congr h []
  · obtain ⟨line, lines, heq⟩ := exists_bareLines_eq_cons cs
    obtain ⟨line', lines', heq'⟩ := exists_bareLines_eq_cons cs'
    rw [heq, heq'] at h ⊢
    have hline := congrArg (·.headD []) h
    have hlines := congrArg List.tail h
    simp only [headD_dropEndWhile_cons, tail_dropEndWhile_cons] at hline hlines
    rw [hline]
    exact dropEndWhile_cons_congr hlines _

theorem dropEndWhile_bareLines_dropEndWhile (cs : List Char) :
    dropEndWhile List.isEmpty (bareLines (dropEndWhile isBlank cs)) =
      dropEndWhile List.isEmpty (bareLines cs) := by
  induction cs with
  | nil => rfl
  | cons c cs ih =>
    refine Eq.trans ?_ (dropEndWhile_bareLines_cons ih c)
    cases hkept : dropEndWhile isBlank cs with
    | cons kept rest => rw [dropEndWhile, hkept]
    | nil =>
      -- all that follows `c` is dropped, and `c` as well if it is blank
      rw [dropEndWhile, hkept]
      show dropEndWhile List.isEmpty (bareLines (if isBlank c then [] else [c])) = _
      split
      · rename_i hc
        rw [bareLines_cons]
        split
        · rfl
        · show _ = dropEndWhile List.isEmpty [dropEndWhile isBlank [c]]
          rw [dropEndWhile_singleton hc]
          rfl
      · rfl

theorem shownLines_dropEndWhile (cs : List Char) :
    shownLines (dropEndWhile isBlank cs) = shownLines cs := by
  unfold shownLines
  rw [dropEndWhile_dropWhile, dropEndWhile_bareLines_dropEndWhile, ← dropEndWhile_dropWhile]

/-! ### Blanks before the text -/

/-- A blank before a text shows nothing, or stands before the line that is shown first. -/
theorem modifyHead_shownLines_cons {c : Char} (hc : isBlank c = true) (cs : List Char) :
    (shownLines (c :: cs)).modifyHead (List.dropWhile isBlank) =
      (shownLines cs).modifyHead (List.dropWhile isBlank) := by
  obtain ⟨line, lines, heq⟩ := exists_bareLines_eq_cons cs
  have hbare := bareLines_cons c cs
  split at hbare
  · -- a line feed: one more line before the others, with nothing on it
    unfold shownLines
    rw [hbare]
    rfl
  rw [heq, List.modifyHead_cons] at hbare
  cases line with
  | nil =>
    -- the first line shows nothing, with the blank or without
    rw [dropEndWhile_singleton hc] at hbare
    unfold shownLines
    rw [hbare, heq]
  | cons d line =>
    have hline := dropEndWhile_of_mem_bareLines (heq ▸ List.mem_cons_self)
    rw [dropEndWhile, hline] at hbare
    rw [shownLines_of_bareLines hbare (List.cons_ne_nil _ _),
      shownLines_of_bareLines heq (List.cons_ne_nil _ _), List.modifyHead_cons,
      List.modifyHead_cons, List.dropWhile_cons_of_pos hc]

/-- Without the blanks before a text, the line shown first is without those before it. -/
theorem shownLines_dropWhile (cs : List Char) :
    shownLines (cs.dropWhile isBlank) = (shownLines cs).modifyHead (List.dropWhile isBlank) := by
  induction cs with
  | nil => rfl
  | cons c cs ih =>
    by_cases hc : isBlank c = true
    · rw [List.dropWhile_cons_of_pos hc, ih, modifyHead_shownLines_cons hc]
    · obtain ⟨line, lines, heq⟩ := exists_bareLines_eq_cons cs
      have hne : c ≠ '\n' := fun h => hc (h ▸ rfl)
      have hbare := bareLines_cons c cs
      rw [if_neg hne, heq, List.modifyHead_cons,
        dropEndWhile_cons_of_not (Bool.eq_false_iff.mpr hc)] at hbare
      rw [List.dropWhile_cons_of_neg hc, shownLines_of_bareLines hbare (List.cons_ne_nil _ _),
        List.modifyHead_cons, List.dropWhile_cons_of_neg hc]

/-! ### The text as it is compared -/

theorem mem_bareLines_of_mem_shownLines {cs line : List Char} (h : line ∈ shownLines cs) :
    line ∈ bareLines cs := by
  have hkept : shownLines cs <+: (bareLines cs).dropWhile List.isEmpty :=
    dropEndWhile_prefix List.isEmpty _
  exact (List.dropWhile_sublist _).subset (hkept.subset h)

theorem trim_ofList_of_mem_shownLines {cs line : List Char} (h : line ∈ shownLines cs) :
    trim (String.ofList line) = String.ofList (line.dropWhile isBlank) := by
  have hline := mem_bareLines_of_mem_shownLines h
  rw [trim, String.toList_ofList, dropEndWhile_dropWhile, dropEndWhile_of_mem_bareLines hline]

/-- **Once its first line is trimmed as well, a text shows the lines of the trimmed text.** -/
theorem modifyHead_trim_textLines (text : String) :
    (textLines text).modifyHead trim = textLines (trim text) := by
  have hlines : shownLines (trim text).toList =
      (shownLines text.toList).modifyHead (List.dropWhile isBlank) := by
    rw [trim, String.toList_ofList, shownLines_dropEndWhile, shownLines_dropWhile]
  rw [textLines_eq, textLines_eq, hlines]
  cases hshown : shownLines text.toList with
  | nil => rfl
  | cons line lines =>
    have htrim := trim_ofList_of_mem_shownLines (hshown ▸ List.mem_cons_self)
    exact congrArg (· :: lines.map String.ofList) htrim

end Ambient.Text
