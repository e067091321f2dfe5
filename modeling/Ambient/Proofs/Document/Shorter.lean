import Ambient.Proofs.Document.Statements

/-!
# Documents that lack something

`Shorter` tells of a document that it was stopped before something was written that
takes a line. Its lines are then some, and not all, of the lines of the whole
document, so the two texts differ in length.
-/

namespace Ambient.TypeScript

open Code (Fragment Line fragmentLines writtenAt)

/-- Everything but a comment takes at least one line; a comment may be empty. -/
def Item.isComment : Item → Bool
  | .comment _ => true
  | _ => false

/-- `Shorter cut whole`: writing `whole` was stopped, and more than comments is missing. -/
inductive Shorter : Document → Document → Prop where
  | stop {item : Item} {whole : Document} : item ∈ whole → item.isComment = false →
      Shorter [] whole
  | item (item : Item) {cut whole : Document} : Shorter cut whole →
      Shorter (item :: cut) (item :: whole)
  | inside (keyword name : String) {cut body : Document} (rest : Document) : Shorter cut body →
      Shorter [.namespace keyword name cut] (.namespace keyword name body :: rest)

namespace Shorter

variable {cut whole : Document}

theorem append_left (before : Document) (h : Shorter cut whole) :
    Shorter (before ++ cut) (before ++ whole) := by
  induction before with
  | nil => exact h
  | cons item before ih => exact .item item ih

theorem append_right (h : Shorter cut whole) (after : Document) : Shorter cut (whole ++ after) := by
  induction h with
  | stop hmem hshown => exact .stop (List.mem_append_left _ hmem) hshown
  | item item _ ih => exact .item item ih
  | inside keyword name rest hbody _ => exact .inside keyword name _ hbody

end Shorter

/-! ## Lines -/

/-- The lines of a document, each as deep as it stands in it. -/
def Document.lines (document : Document) : List Line := fragmentLines (documentFragments document)

theorem Document.text_eq (document : Document) : document.text = writtenAt 0 document.lines := by
  unfold Document.text Document.writeTo
  rw [Code.Builder.applyAll_eq]
  exact String.empty_append

theorem Document.lines_cons (item : Item) (document : Document) :
    Document.lines (item :: document) = fragmentLines item.fragments ++ Document.lines document :=
  fragmentLines_append _ _

theorem fragmentLines_namespace (keyword name : String) (body : Document) :
    fragmentLines (Item.namespace keyword name body).fragments =
      .text 0 (keyword ++ " " ++ name ++ " \x7b") :: body.lines.map Line.deeper
        ++ [.text 0 "\x7d"] := by
  rw [Item.fragments, fragmentLines, fragmentLines, Fragment.lines, List.append_nil]
  rfl

/-- Documentation before the lines of a declaration. -/
theorem fragmentLines_ne_nil_of_append {before after : List Fragment}
    (h : fragmentLines after ≠ []) : fragmentLines (before ++ after) ≠ [] := by
  rw [fragmentLines_append]
  exact List.append_ne_nil_of_right_ne_nil _ h

theorem fragmentLines_ne_nil {item : Item} (h : item.isComment = false) :
    fragmentLines item.fragments ≠ [] := by
  match item, h with
  | .blank, _ => exact List.cons_ne_nil _ _
  | .alias a, _ => exact fragmentLines_ne_nil_of_append (List.cons_ne_nil _ _)
  | .interface i, _ =>
    refine fragmentLines_ne_nil_of_append ?_
    split
    · exact List.cons_ne_nil _ _
    · exact List.cons_ne_nil _ _
  | .namespace keyword name body, _ =>
    rw [fragmentLines_namespace]
    exact List.cons_ne_nil _ _

theorem Document.lines_ne_nil {item : Item} {document : Document} (hmem : item ∈ document)
    (h : item.isComment = false) : document.lines ≠ [] := by
  obtain ⟨before, after, rfl⟩ := List.append_of_mem hmem
  induction before with
  | nil =>
    rw [List.nil_append, Document.lines_cons]
    exact List.append_ne_nil_of_left_ne_nil (fragmentLines_ne_nil h) _
  | cons first before ih =>
    rw [List.cons_append, Document.lines_cons]
    exact List.append_ne_nil_of_right_ne_nil _ (ih (by simp))

/-- The lines of what was stopped are among those of the whole, and some are missing. -/
theorem Shorter.lines {cut whole : Document} (h : Shorter cut whole) :
    cut.lines.Sublist whole.lines ∧ cut.lines.length < whole.lines.length := by
  induction h with
  | stop hmem hshown =>
    exact ⟨List.nil_sublist _, List.length_pos_iff.mpr (Document.lines_ne_nil hmem hshown)⟩
  | @item item cut whole _ ih =>
    rw [Document.lines_cons, Document.lines_cons, List.length_append, List.length_append]
    exact ⟨ih.1.append_left _, Nat.add_lt_add_left ih.2 _⟩
  | @inside keyword name cut body rest _ ih =>
    have hown : (fragmentLines (Item.namespace keyword name cut).fragments).Sublist
        (fragmentLines (Item.namespace keyword name body).fragments) := by
      rw [fragmentLines_namespace, fragmentLines_namespace]
      exact ((ih.1.map Line.deeper).cons_cons _).append_right _
    rw [Document.lines_cons, Document.lines_cons]
    refine ⟨hown.append (List.nil_sublist _), ?_⟩
    rw [fragmentLines_namespace, fragmentLines_namespace]
    simp only [List.length_append, List.length_cons, List.length_map, List.length_nil]
    have hlines := ih.2
    show _ + 0 < _
    omega

/-! ## Texts -/

theorem length_writtenAt_pos (depth : Nat) (line : Line) : 0 < (line.writtenAt depth).length := by
  cases line with
  | blank =>
    show 0 < "\n".length
    decide
  | text below content =>
    show 0 < (_ ++ _ ++ "\n").length
    rw [String.length_append]
    exact Nat.lt_of_lt_of_le Nat.zero_lt_one (Nat.le_add_left _ _)

theorem length_writtenAt_le {first second : List Line} (depth : Nat) (h : first.Sublist second) :
    (writtenAt depth first).length ≤ (writtenAt depth second).length := by
  induction h with
  | slnil => exact Nat.le_refl _
  | cons line _ ih =>
    rw [writtenAt, String.length_append]
    exact Nat.le_trans ih (Nat.le_add_left _ _)
  | cons_cons line _ ih =>
    rw [writtenAt, writtenAt, String.length_append, String.length_append]
    exact Nat.add_le_add_left ih _

/-- Every line takes at least one character, its end. -/
theorem length_writtenAt_lt {first second : List Line} (depth : Nat) (h : first.Sublist second)
    (hlt : first.length < second.length) :
    (writtenAt depth first).length < (writtenAt depth second).length := by
  induction h with
  | slnil => exact absurd hlt (Nat.lt_irrefl _)
  | cons line hrest _ =>
    rw [writtenAt, String.length_append]
    have hpos := length_writtenAt_pos depth line
    have hle := length_writtenAt_le depth hrest
    omega
  | cons_cons line _ ih =>
    rw [writtenAt, writtenAt, String.length_append, String.length_append]
    exact Nat.add_lt_add_left (ih (Nat.lt_of_succ_lt_succ hlt)) _

/-- **A document that lacks something has a shorter text.** -/
theorem Shorter.length_text_lt {cut whole : Document} (h : Shorter cut whole) :
    cut.text.length < whole.text.length := by
  rw [Document.text_eq, Document.text_eq]
  exact length_writtenAt_lt 0 h.lines.1 h.lines.2

end Ambient.TypeScript
