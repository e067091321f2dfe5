import Ambient.Proofs.Document.Places
import Ambient.Proofs.Inheritance.Shape

/-!
# What an interface holds

The interface of a table holds a property for every element of the table that has no
element of its shape among those it inherits from. Which element it inherits from is
found on the chain above the table: the nearest one of its name, if the table that
owns it is among the declared ancestors.
-/

namespace Ambient

open TypeScript (Member Property propertyName)

/-! ## The properties of an interface -/

section Properties

variable {r : Repository} {site : Site} {table : Table} {element : Element} {property : Property}

/-- The element that decides what is written for an element of `table`. -/
def Repository.declaredCounterpart (r : Repository) (index : TableIndex) (table : Table)
    (element : Element) : Option Element :=
  Site.declaredCounterpart (index.declaredAncestors table)
    { element
      counterpart := FieldInheritance.nearest?
        ((r.chain table).map fun above => r.elementsOf above.name) element.name }

/-- No element of the same shape further up stands for it. -/
def Repository.Written (r : Repository) (index : TableIndex) (table : Table) (element : Element) :
    Prop :=
  ∀ counterpart, r.declaredCounterpart index table element = some counterpart →
    ¬ element.SameShape counterpart

/-- Comments stand before properties, which changes nothing about the properties. -/
theorem filterMap_property?_sorted (members : List Member) :
    (members.filter (·.isComment) ++ members.filter (! ·.isComment)).filterMap Member.property? =
      members.filterMap Member.property? := by
  have hcomments : (members.filter (·.isComment)).filterMap Member.property? = [] := by
    rw [List.filterMap_eq_nil_iff]
    intro member hmember
    cases member with
    | comment lines => rfl
    | property p => exact absurd (List.mem_filter.mp hmember).2 nofun
  rw [List.filterMap_append, hcomments, List.nil_append, List.filterMap_filter]
  congr 1
  funext member
  cases member <;> rfl

/-- The properties, in element order. -/
theorem properties_fieldsInterface (r : Repository) (site : Site) (table : Table) :
    (r.fieldsInterface site table).properties =
      (r.elementsOf table.name).filterMap fun element =>
        (site.member? element
          (element.disposition (r.declaredCounterpart site.index table element))
          (r.elementDoc element)).bind Member.property? := by
  show List.filterMap _ (_ ++ _) = _
  rw [filterMap_property?_sorted, Repository.members, List.filterMap_filterMap]
  show List.filterMap _ (List.map _ (r.elementsOf table.name)) = _
  rw [List.filterMap_map]
  rfl

theorem mem_properties_iff :
    property ∈ (r.fieldsInterface site table).properties ↔
      ∃ element ∈ r.elementsOf table.name,
        site.member? element
          (element.disposition (r.declaredCounterpart site.index table element))
          (r.elementDoc element) = some (.property property) := by
  have hproperty : ∀ member : Option Member,
      member.bind Member.property? = some property ↔ member = some (.property property) := by
    intro member
    rcases member with _ | ⟨lines⟩ | ⟨p⟩
    · simp
    · simp [Member.property?]
    · simp [Member.property?]
  rw [properties_fieldsInterface, List.mem_filterMap]
  simp only [hproperty]

/-- An entry that is written as a property has the element's name and type. -/
theorem member?_eq_property {disposition : Disposition} {doc : List String}
    (h : site.member? element disposition doc = some (.property property)) :
    property.name = propertyName element.name ∧ property.type = site.fieldType element ∧
      (disposition = .own ∨ disposition = .redeclared) := by
  obtain ⟨name, type, text, redeclared⟩ := property
  cases disposition with
  | inherited => simp [Site.member?] at h
  | redocumented => simp [Site.member?] at h
  | own =>
    simp only [Site.member?, Option.some.injEq, Member.property.injEq, Property.mk.injEq] at h
    exact ⟨h.1.symm, h.2.1.symm, .inl rfl⟩
  | redeclared =>
    simp only [Site.member?, Option.some.injEq, Member.property.injEq, Property.mk.injEq] at h
    exact ⟨h.1.symm, h.2.1.symm, .inr rfl⟩

theorem disposition_written_iff {counterpart : Option Element} :
    (element.disposition counterpart = .own ∨ element.disposition counterpart = .redeclared) ↔
      ∀ other, counterpart = some other → ¬ element.SameShape other := by
  -- only a counterpart of the same shape keeps an element from being written
  cases counterpart with
  | none =>
    constructor
    · intro _ _ h
      exact nomatch h
    · intro _
      exact .inl rfl
  | some other =>
    unfold Element.disposition
    by_cases hshape : element.sameShape other = true
    · have hleft : ¬ (! element.sameShape other) = true := by simp [hshape]
      simp only [if_neg hleft]
      constructor
      · intro h
        split at h
        · rcases h with h | h <;> exact nomatch h
        · rcases h with h | h <;> exact nomatch h
      · intro h
        exact absurd (Element.sameShape_iff.mp hshape) (h other rfl)
    · have hchanged : (! element.sameShape other) = true := by simp [hshape]
      simp only [if_pos hchanged]
      constructor
      · intro _ next hnext hnot
        rw [← Option.some.inj hnext] at hnot
        exact hshape (Element.sameShape_iff.mpr hnot)
      · intro _
        exact .inr trivial

theorem written_of_mem_properties (h : property ∈ (r.fieldsInterface site table).properties) :
    ∃ element ∈ r.elementsOf table.name, r.Written site.index table element ∧
      property.name = propertyName element.name ∧ property.type = site.fieldType element := by
  obtain ⟨element, helement, hmember⟩ := mem_properties_iff.mp h
  obtain ⟨hname, htype, hdisposition⟩ := member?_eq_property hmember
  exact ⟨element, helement, disposition_written_iff.mp hdisposition, hname, htype⟩

theorem exists_property_of_written (helement : element ∈ r.elementsOf table.name)
    (hwritten : r.Written site.index table element) :
    ∃ property ∈ (r.fieldsInterface site table).properties,
      property.name = propertyName element.name := by
  have hdisposition := disposition_written_iff.mpr hwritten
  have hmember : ∃ property : Property, property.name = propertyName element.name ∧
      site.member? element (element.disposition (r.declaredCounterpart site.index table element))
        (r.elementDoc element) = some (.property property) := by
    rcases hdisposition with h | h
    · rw [h]
      exact ⟨_, rfl, rfl⟩
    · rw [h]
      exact ⟨_, rfl, rfl⟩
  obtain ⟨property, hname, hmember⟩ := hmember
  exact ⟨property, mem_properties_iff.mpr ⟨element, helement, hmember⟩, hname⟩

end Properties

/-! ## Nearest elements -/

namespace Repository

variable {r : Repository} {table parent : Table} {element other : Element} {name : String}

theorem table_of_mem_elementsOf (h : element ∈ r.elementsOf name) : element.table = name := by
  unfold elementsOf at h
  cases hget : r.tables.get? name with
  | none =>
    rw [hget] at h
    exact absurd h List.not_mem_nil
  | some entry =>
    rw [hget] at h
    obtain ⟨_, -, rfl⟩ := List.mem_map.mp h
    rfl

/-- The elements of a table come in name order. -/
theorem pairwise_elementsOf (r : Repository) (owner : String) :
    (r.elementsOf owner).Pairwise fun a b => a.name < b.name := by
  unfold elementsOf
  cases r.tables.get? owner with
  | none => exact List.Pairwise.nil
  | some entry => exact List.pairwise_map.mpr (NameMap.sorted _)

/-- A table has one element of a name. -/
theorem elementsOf_unique {owner : String} (h : element ∈ r.elementsOf owner)
    (h' : other ∈ r.elementsOf owner) (hname : element.name = other.name) : element = other := by
  unfold elementsOf at h h'
  cases hget : r.tables.get? owner with
  | none =>
    rw [hget] at h
    exact absurd h List.not_mem_nil
  | some entry =>
    rw [hget] at h h'
    obtain ⟨⟨key, attributes⟩, hmem, rfl⟩ := List.mem_map.mp h
    obtain ⟨⟨key', attributes'⟩, hmem', rfl⟩ := List.mem_map.mp h'
    have hkey : key = key' := hname
    subst hkey
    have heq := (NameMap.mem_entries_iff.mp hmem).symm.trans (NameMap.mem_entries_iff.mp hmem')
    rw [Option.some.inj heq]

theorem find?_elementsOf_eq_some_iff {owner : String} :
    (r.elementsOf owner).find? (·.name == name) = some element ↔
      element ∈ r.elementsOf owner ∧ element.name = name := by
  constructor
  · intro h
    exact ⟨List.mem_of_find?_eq_some h, by simpa using List.find?_some h⟩
  · rintro ⟨hmem, rfl⟩
    refine find?_eq_some_of_unique hmem (beq_self_eq_true _) fun other hother hname => ?_
    exact elementsOf_unique hother hmem (beq_iff_eq.mp hname)

/-- The nearest element of a name, of `table` itself or of a table above it. -/
def nearest? (r : Repository) (table : Table) (name : String) : Option Element :=
  FieldInheritance.nearest? ((table :: r.chain table).map fun owner => r.elementsOf owner.name) name

/-- The nearest element of a name above `table`. -/
def nearestAbove? (r : Repository) (table : Table) (name : String) : Option Element :=
  FieldInheritance.nearest? ((r.chain table).map fun owner => r.elementsOf owner.name) name

theorem nearest?_eq (table : Table) (name : String) :
    r.nearest? table name =
      ((r.elementsOf table.name).find? (·.name == name)).or (r.nearestAbove? table name) := by
  unfold nearest? nearestAbove? FieldInheritance.nearest?
  rw [List.map_cons, List.findSome?_cons]
  cases (r.elementsOf table.name).find? (·.name == name) <;> rfl

theorem nearest?_of_mem (h : element ∈ r.elementsOf table.name) :
    r.nearest? table element.name = some element := by
  rw [nearest?_eq, find?_elementsOf_eq_some_iff.mpr ⟨h, rfl⟩]
  rfl

theorem nearestAbove?_of_super (hacyclic : r.Acyclic) (ht : table ∈ r.allTables)
    (h : r.superTable? table = some parent) (name : String) :
    r.nearestAbove? table name = r.nearest? parent name := by
  rw [nearestAbove?, chain_of_super hacyclic ht h, nearest?]

theorem mem_of_nearest? (h : r.nearest? table name = some element) :
    element.name = name ∧ element ∈ r.elementsOf element.table := by
  obtain ⟨owned, howned, hfind⟩ := List.exists_of_findSome?_eq_some h
  obtain ⟨owner, -, rfl⟩ := List.mem_map.mp howned
  obtain ⟨hmem, hname⟩ := find?_elementsOf_eq_some_iff.mp hfind
  exact ⟨hname, (table_of_mem_elementsOf hmem).symm ▸ hmem⟩

end Repository

end Ambient
