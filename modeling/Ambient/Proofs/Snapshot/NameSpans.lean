import Ambient.Proofs.Snapshot.Accepted
import Ambient.Proofs.Snapshot.Spans

/-!
# Where a name is shown

An invalid name is shown in its source if it occurs there at all. Of its occurrences, one
that is the last part of a dotted header counts for more than one inside a header, and
that for more than one in quotes; among those that count the same, the first is shown.
So the place is told by two searches for a first one: for the marks around the name in
`Marks.inOrder`, and for the name with these marks in the source.
-/

namespace Ambient

namespace Text

/-- Where the pattern stands, it is found there or before. -/
theorem exists_occurrence?_le (pattern before after : List Char) :
    ∃ offset, occurrence? pattern (before ++ pattern ++ after) = some offset ∧
      offset ≤ byteLength before := by
  induction before with
  | nil =>
    refine ⟨0, ?_, Nat.le_refl 0⟩
    rw [List.nil_append]
    cases htext : pattern ++ after with
    | nil =>
      obtain ⟨rfl, -⟩ := List.append_eq_nil_iff.mp htext
      rfl
    | cons c cs =>
      have hprefix : pattern.isPrefixOf (c :: cs) = true := by
        rw [← htext]
        exact List.isPrefixOf_iff_prefix.mpr (List.prefix_append pattern after)
      rw [occurrence?, if_pos hprefix]
  | cons c before ih =>
    obtain ⟨offset, hfound, hle⟩ := ih
    rw [List.cons_append, List.cons_append, occurrence?]
    split
    · exact ⟨0, rfl, Nat.zero_le _⟩
    · refine ⟨offset + c.utf8Size, ?_, ?_⟩
      · rw [hfound, Option.map_some]
      · rw [byteLength_cons]
        omega

end Text

/-- The text is a part of the source. -/
def Occurs (source text : String) : Prop := ∃ before after, source = before ++ text ++ after

namespace Span

variable {source text name : String} {span : Span}

theorem Covers.occurs (h : span.Covers source text) : Occurs source text := by
  obtain ⟨before, after, hsource, -, -⟩ := h
  exact ⟨before, after, hsource⟩

/-- The bytes of the span are those of the text. -/
theorem Covers.extract_eq (h : span.Covers source text) :
    source.toByteArray.extract span.offset (span.offset + span.length) = text.toByteArray := by
  obtain ⟨before, after, rfl, hoffset, hlength⟩ := h
  have hbefore : before.toByteArray.size = span.offset := hoffset.symm
  have htext : text.toByteArray.size = span.length := hlength.symm
  rw [String.toByteArray_append, String.toByteArray_append, ByteArray.append_assoc,
    ByteArray.extract_append, hbefore, Nat.sub_self, Nat.add_sub_cancel_left,
    ByteArray.extract_append_eq_left htext.symm]
  have hnone : before.toByteArray.extract span.offset (span.offset + span.length) = .empty := by
    rw [ByteArray.extract_eq_empty_iff]
    omega
  rw [hnone, ByteArray.empty_append]

/-! ## First occurrences -/

/-- The span is that of the first occurrence of `text`. -/
def CoversFirst (span : Span) (source text : String) : Prop :=
  span.Covers source text ∧ ∀ other : Span, other.Covers source text → span.offset ≤ other.offset

theorem exists_occurrence?_le_of_covers (h : span.Covers source text) :
    ∃ offset, Text.occurrence? text.toList source.toList = some offset ∧ offset ≤ span.offset := by
  obtain ⟨before, after, rfl, hoffset, -⟩ := h
  rw [String.toList_append, String.toList_append, hoffset, ← Text.byteLength_toList]
  exact Text.exists_occurrence?_le text.toList before.toList after.toList

theorem occurrence?_eq_none_iff :
    Text.occurrence? text.toList source.toList = none ↔ ¬ Occurs source text := by
  constructor
  · rintro hnone ⟨before, after, hsource⟩
    have hcovers : Covers ⟨before.utf8ByteSize, text.utf8ByteSize⟩ source text :=
      ⟨before, after, hsource, rfl, rfl⟩
    obtain ⟨offset, hfound, -⟩ := exists_occurrence?_le_of_covers hcovers
    rw [hnone] at hfound
    exact nomatch hfound
  · intro hnot
    refine Option.eq_none_iff_forall_ne_some.mpr fun offset hfound => ?_
    exact hnot (finds_anywhere offset hfound).occurs

theorem coversFirst_of_occurrence? {offset : Nat}
    (h : Text.occurrence? text.toList source.toList = some offset) :
    CoversFirst ⟨offset, text.utf8ByteSize⟩ source text := by
  refine ⟨finds_anywhere offset h, fun other hother => ?_⟩
  obtain ⟨found, hfound, hle⟩ := exists_occurrence?_le_of_covers hother
  rw [h] at hfound
  obtain rfl := Option.some.inj hfound
  exact hle

end Span

/-! ## Marks -/

theorem findSome?_cons_eq_or {α β : Type} (find : α → Option β) (a : α) (as : List α) :
    (a :: as).findSome? find = (find a).or (as.findSome? find) := by
  rw [List.findSome?_cons]
  cases find a with
  | none => rfl
  | some b => rfl

/-- What stands right before and after a name. -/
structure Marks where
  opening : String
  closing : String

namespace Marks

def around (marks : Marks) (name : String) : String := marks.opening ++ name ++ marks.closing

/-- A name without marks around it. -/
theorem around_none (name : String) : (Marks.mk "" "").around name = name := by
  rw [around, String.empty_append, String.append_empty]

/-- The marks that are looked for: those of the last part of a header, of another part of it, of a
name in quotes, and none. -/
def inOrder : List Marks := [⟨".", "]"⟩, ⟨".", "."⟩, ⟨"\"", "\""⟩, ⟨"", ""⟩]

/-- The name where it first stands between the marks, without them. -/
def span? (marks : Marks) (source name : String) : Option Span :=
  (Text.occurrence? (marks.around name).toList source.toList).map fun offset =>
    ⟨offset + marks.opening.utf8ByteSize, name.utf8ByteSize⟩

theorem span?_eq_none_iff {marks : Marks} {source name : String} :
    marks.span? source name = none ↔ ¬ Occurs source (marks.around name) := by
  rw [span?, Option.map_eq_none_iff, Span.occurrence?_eq_none_iff]

end Marks

namespace Span

variable {source name : String} {span : Span}

/-- The span is that of the name in the first occurrence of the name between the marks. -/
def InFirst (span : Span) (source name : String) (marks : Marks) : Prop :=
  ∃ whole : Span, whole.CoversFirst source (marks.around name) ∧
    span.offset = whole.offset + marks.opening.utf8ByteSize ∧
    span.offset + span.length + marks.closing.utf8ByteSize = whole.offset + whole.length

theorem inFirst_of_span? {marks : Marks} (h : marks.span? source name = some span) :
    span.InFirst source name marks := by
  obtain ⟨offset, hfound, rfl⟩ := Option.map_eq_some_iff.mp h
  have hwhole : (marks.around name).utf8ByteSize =
      marks.opening.utf8ByteSize + name.utf8ByteSize + marks.closing.utf8ByteSize := by
    rw [Marks.around, String.utf8ByteSize_append, String.utf8ByteSize_append]
  refine ⟨_, coversFirst_of_occurrence? hfound, rfl, ?_⟩
  show offset + marks.opening.utf8ByteSize + name.utf8ByteSize + marks.closing.utf8ByteSize =
    offset + (marks.around name).utf8ByteSize
  omega

/-- The name is looked for between one pair of marks after the other. -/
theorem ofName_eq_findSome? :
    ofName source name = Marks.inOrder.findSome? (·.span? source name) := by
  have hanywhere : (Marks.mk "" "").span? source name =
      (Text.occurrence? name.toList source.toList).map fun offset =>
        ⟨offset, name.utf8ByteSize⟩ := by
    rw [Marks.span?, Marks.around_none]
    rfl
  have hmarked : ∀ marks : Marks, marks.opening.utf8ByteSize = 1 →
      marks.span? source name =
        ((Text.occurrence? (marks.around name).toList source.toList).map (· + 1)).map
          fun offset => ⟨offset, name.utf8ByteSize⟩ := by
    intro marks hone
    rw [Marks.span?, hone, Option.map_map]
    rfl
  have hall : Marks.inOrder.findSome? (·.span? source name) =
      (Marks.span? ⟨".", "]"⟩ source name).or ((Marks.span? ⟨".", "."⟩ source name).or
        ((Marks.span? ⟨"\"", "\""⟩ source name).or (Marks.span? ⟨"", ""⟩ source name))) := by
    simp only [Marks.inOrder, findSome?_cons_eq_or, List.findSome?_nil, Option.or_none]
  rw [hall, hmarked ⟨".", "]"⟩ rfl, hmarked ⟨".", "."⟩ rfl, hmarked ⟨"\"", "\""⟩ rfl, hanywhere,
    ← Option.map_or, ← Option.map_or, ← Option.map_or, ← Option.or_assoc, ← Option.or_assoc]
  rfl

theorem ofName_eq_none_iff : ofName source name = none ↔ ¬ Occurs source name := by
  rw [ofName_eq_findSome?, List.findSome?_eq_none_iff]
  constructor
  · intro hnone
    have hbare := Marks.span?_eq_none_iff.mp (hnone ⟨"", ""⟩ (by simp [Marks.inOrder]))
    rwa [Marks.around_none] at hbare
  · rintro hnot marks -
    refine Marks.span?_eq_none_iff.mpr ?_
    rintro ⟨before, after, rfl⟩
    refine hnot ⟨before ++ marks.opening, marks.closing ++ after, ?_⟩
    simp only [Marks.around, String.append_assoc]

/-- Where a name is shown: between the first marks that it stands between anywhere. -/
theorem inFirst_of_ofName (h : ofName source name = some span) :
    ∃ marks, IsFirst (fun marks => Occurs source (marks.around name)) Marks.inOrder marks ∧
      span.InFirst source name marks := by
  rw [ofName_eq_findSome?] at h
  obtain ⟨before, marks, after, hmarks, hspan, hbefore⟩ := List.findSome?_eq_some_iff.mp h
  obtain ⟨whole, hwhole, hplace⟩ := inFirst_of_span? hspan
  have hearlier : ∀ earlier ∈ before, ¬ Occurs source (earlier.around name) :=
    fun earlier hmem => Marks.span?_eq_none_iff.mp (hbefore earlier hmem)
  exact ⟨marks, ⟨before, after, hmarks, hwhole.1.occurs, hearlier⟩, whole, hwhole, hplace⟩

/-- **A name is shown exactly if it occurs in the source**, by a span whose bytes are those of the
name, in its first occurrence between the first marks that it stands between anywhere. -/
theorem ofName_points_at_name (source name : String) :
    ((∃ span, ofName source name = some span) ↔ Occurs source name) ∧
      ∀ span, ofName source name = some span →
        span.length = name.toByteArray.size ∧
        source.toByteArray.extract span.offset (span.offset + span.length) = name.toByteArray ∧
        ∃ marks, IsFirst (fun marks => Occurs source (marks.around name)) Marks.inOrder marks ∧
          span.InFirst source name marks := by
  constructor
  · rw [← Option.isSome_iff_exists, Option.isSome_iff_ne_none, ne_eq, ofName_eq_none_iff,
      Classical.not_not]
  · intro span hspan
    have hcovers := covers_ofName hspan
    have hbytes := hcovers.extract_eq
    obtain ⟨before, after, -, -, hlength⟩ := hcovers
    exact ⟨hlength, hbytes, inFirst_of_ofName hspan⟩

/-- The name stands in quotes first and then without marks, but is shown inside the header. -/
theorem ofName_points_at_name_header :
    let source := "\"é\" é [a.é.é.b]"
    let span : Span := ⟨11, 2⟩
    ofName source "é" = some span ∧ Occurs source "é" ∧
      span.length = "é".toByteArray.size ∧
      source.toByteArray.extract span.offset (span.offset + span.length) = "é".toByteArray ∧
      ∃ marks, IsFirst (fun marks => Occurs source (marks.around "é")) Marks.inOrder marks ∧
        span.InFirst source "é" marks := by
  intro source span
  have hspan : ofName source "é" = some span := by decide +kernel
  obtain ⟨hoccurs, hplace⟩ := ofName_points_at_name source "é"
  exact ⟨hspan, hoccurs.mp ⟨span, hspan⟩, hplace span hspan⟩

end Span

end Ambient
