import Ambient.Proofs.Inheritance.Acyclic
import Ambient.Render.TableDeclaration

/-!
# The shape of a field

Whether an element is written again is decided by comparing it with one further up,
what it is written as by a mapping of types. The two agree: elements of one shape
have one type wherever they are written.
-/

namespace Ambient

namespace Element

/-- Two elements declare the same field: type name up to surrounding blanks and ASCII case,
trimmed reference with a blank one as absent, length with an absent one as zero, array flag. -/
structure SameShape (a b : Element) : Prop where
  typeName : Text.asciiLower (Text.trim a.typeName) = Text.asciiLower (Text.trim b.typeName)
  reference : Text.present? a.reference = Text.present? b.reference
  maxLength : a.maxLength.getD 0 = b.maxLength.getD 0
  array : a.flags.array = b.flags.array

/-- The comparison that is made when a field is written decides `SameShape`. -/
theorem sameShape_iff {a b : Element} : a.sameShape b = true ↔ a.SameShape b := by
  unfold sameShape Text.sameIgnoringCase
  simp only [Bool.and_eq_true, beq_iff_eq]
  constructor
  · rintro ⟨⟨⟨htype, hreference⟩, hlength⟩, harray⟩
    exact ⟨htype, hreference, hlength, harray⟩
  · rintro ⟨htype, hreference, hlength, harray⟩
    exact ⟨⟨⟨htype, hreference⟩, hlength⟩, harray⟩

instance (a b : Element) : Decidable (a.SameShape b) := decidable_of_iff _ sameShape_iff

theorem SameShape.refl (a : Element) : a.SameShape a := ⟨rfl, rfl, rfl, rfl⟩

theorem SameShape.symm {a b : Element} (h : a.SameShape b) : b.SameShape a :=
  ⟨h.typeName.symm, h.reference.symm, h.maxLength.symm, h.array.symm⟩

theorem SameShape.trans {a b c : Element} (h : a.SameShape b) (h' : b.SameShape c) :
    a.SameShape c :=
  ⟨h.typeName.trans h'.typeName, h.reference.trans h'.reference, h.maxLength.trans h'.maxLength,
    h.array.trans h'.array⟩

end Element

namespace Site

variable {site : Site} {a b : Element}

/-- A blank name refers to no declaration, so trimming a reference and dropping a blank one is
all one. -/
theorem bind_reference_eq (hindex : site.index.contains "" = false) (within target : NamespaceKind)
    (name : Option String) :
    (name.map Text.trim).bind (site.reference within target) =
      (Text.present? name).bind (site.reference within target) := by
  have hempty : site.reference within target "" = none := by
    rw [TableIndex.contains, NameMap.contains_eq_isSome_get?, Option.isSome_eq_false_iff,
      Option.isNone_iff_eq_none] at hindex
    rw [reference, TableIndex.qualify, TableIndex.groupOf?, hindex]
    rfl
  unfold Text.present?
  cases name with
  | none => rfl
  | some name =>
    by_cases h : (Text.trim name).isEmpty = true
    · have htrim : Text.trim name = "" := String.isEmpty_iff.mp h
      rw [Option.map_some, Option.bind_some, htrim, hempty]
      rfl
    · rw [Option.map_some, Option.filter_some, Bool.eq_false_iff.mpr h]
      rfl

/-- **Elements of one shape have one type** at every place. -/
theorem fieldType_eq_of_sameShape (hindex : site.index.contains "" = false) (h : a.SameShape b) :
    site.fieldType a = site.fieldType b := by
  have hcategory : Scalar.category a.typeName = Scalar.category b.typeName := by
    unfold Scalar.category Scalar.canonicalName
    rw [h.typeName]
  unfold fieldType Group.scalarType
  rw [bind_reference_eq hindex, bind_reference_eq hindex, hcategory, h.reference]

end Site

theorem TableIndex.contains_empty_ofTables {r : Repository} {tables : List Table}
    (hs : r.Selects tables) (mode : RenderMode) : (ofTables mode tables).contains "" = false := by
  rw [Bool.eq_false_iff, Ne, contains_ofTables hs.rows]
  rintro ⟨table, ht, hname⟩
  exact hs.name_ne_empty ht hname

end Ambient
