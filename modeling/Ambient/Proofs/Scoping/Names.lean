import Ambient.Proofs.Document.Resolve

/-!
# What is called how, and where

The members of the complete document's namespaces, told from the tables: types are
called by tables, namespaces by scopes and by the fixed names of a group's three. A
scope called like one of the three at the top level shares it with the global group.
-/

namespace Ambient

open TypeScript (Document Item itemsAt namesAt typeName typesAt)

/-- One of the three namespaces of the group is called `name`. -/
def Group.IsNamespace (group : Group) (name : String) : Prop :=
  ∃ kind, group.namespaceName kind = name

instance (group : Group) (name : String) : Decidable (group.IsNamespace name) :=
  decidable_of_iff (∃ kind ∈ [NamespaceKind.records, .elements, .fields],
      group.namespaceName kind = name)
    ⟨fun h => ⟨h.choose, h.choose_spec.2⟩, fun h => ⟨h.choose, by
      cases h.choose <;> decide, h.choose_spec⟩⟩

/-- The namespaces of a scope are called otherwise than those of the global group. -/
theorem Group.not_isNamespace_global (key : String) (kind : NamespaceKind) :
    ¬ (Group.scoped key).IsNamespace (Group.global.namespaceName kind) := by
  intro h
  obtain ⟨other, hother⟩ := h
  cases other <;> cases kind <;> simp [Group.namespaceName] at hother

section Tables

variable (mode : RenderMode) (tables : List Table)

/-- Some table belongs to the group. -/
def Rendered (group : Group) : Prop := ∃ table ∈ tables, mode.groupOf table = group

/-- A table of the group is declared under `name`. -/
def DeclaresType (group : Group) (name : String) : Prop :=
  ∃ table ∈ tables, mode.groupOf table = group ∧ typeName table.name = name

instance (group : Group) : Decidable (Rendered mode tables group) :=
  inferInstanceAs (Decidable (∃ table ∈ tables, _))

instance (group : Group) (name : String) : Decidable (DeclaresType mode tables group name) :=
  inferInstanceAs (Decidable (∃ table ∈ tables, _))

end Tables

namespace Repository

variable {r : Repository} {site : Site} {tables : List Table} {name outer inner : String}

/-! ## One group -/

theorem name?_declaration (kind : NamespaceKind) (table : Table) :
    (r.declaration site kind table).name? = some (typeName table.name) := by
  cases kind <;> rfl

theorem mem_names_declarations {kind : NamespaceKind} :
    name ∈ namesAt [] ((r.declarations site kind tables).intersperse .blank) ↔
      ∃ table ∈ tables, typeName table.name = name := by
  have hname : ∀ table, namesAt [] [r.declaration site kind table] = [typeName table.name] := by
    intro table
    rw [namesAt, itemsAt, List.filterMap_cons_some (name?_declaration kind table),
      List.filterMap_nil]
  rw [(TypeScript.gathers_namesAt []).intersperse, declarations, List.flatMap_map, funext hname,
    ← List.map_eq_flatMap, List.mem_map]

theorem mem_namesAt_passes :
    name ∈ namesAt [] (r.passesDocument site tables) ↔ site.group.IsNamespace name := by
  have hnames : namesAt [] (r.passesDocument site tables) =
      [site.group.namespaceName .records, site.group.namespaceName .elements,
        site.group.namespaceName .fields] := rfl
  rw [hnames]
  simp only [List.mem_cons, List.not_mem_nil, or_false]
  refine ⟨?_, ?_⟩
  · intro h
    rcases h with rfl | rfl | rfl
    · exact ⟨.records, rfl⟩
    · exact ⟨.elements, rfl⟩
    · exact ⟨.fields, rfl⟩
  · intro h
    obtain ⟨kind, rfl⟩ := h
    cases kind with
    | records => exact .inl rfl
    | elements => exact .inr (.inl rfl)
    | fields => exact .inr (.inr rfl)

theorem mem_namesAt_passes_outer :
    name ∈ namesAt [outer] (r.passesDocument site tables) ↔
      site.group.IsNamespace outer ∧ ∃ table ∈ tables, typeName table.name = name := by
  rw [namesAt, itemsAt_passes, List.filterMap_flatMap, List.mem_flatMap]
  refine ⟨?_, ?_⟩
  · intro h
    obtain ⟨kind, -, hname⟩ := h
    by_cases hkind : site.group.namespaceName kind = outer
    · rw [if_pos hkind] at hname
      exact ⟨⟨kind, hkind⟩, mem_names_declarations.mp hname⟩
    · rw [if_neg hkind] at hname
      exact absurd hname List.not_mem_nil
  · intro h
    obtain ⟨⟨kind, hkind⟩, htable⟩ := h
    refine ⟨kind, by cases kind <;> decide, ?_⟩
    rw [if_pos hkind]
    exact mem_names_declarations.mpr htable

/-- The global group has nothing further in than its three namespaces. -/
theorem itemsAt_globalDocument_inside (index : TableIndex) (place : List String) :
    itemsAt (outer :: inner :: place) (r.groupDocument ⟨.global, index⟩ tables) = [] :=
  itemsAt_passes_inside outer inner place

/-- A scope's group, seen from outside, is its namespace. -/
theorem itemsAt_scopedDocument (key : String) (index : TableIndex) (place : List String) :
    itemsAt (outer :: place) (r.groupDocument ⟨.scoped key, index⟩ tables) =
      if key = outer then itemsAt place (r.passesDocument ⟨.scoped key, index⟩ tables) else [] := by
  rw [gather_groupDocument (TypeScript.gathers_itemsAt outer place)]
  exact TypeScript.itemsAt_namespace _ outer key place _

theorem mem_namesAt_scopedDocument {key : String} {index : TableIndex} :
    name ∈ namesAt [] (r.groupDocument ⟨.scoped key, index⟩ tables) ↔ key = name := by
  rw [gather_groupDocument (TypeScript.gathers_namesAt [])]
  show name ∈ [key] ↔ key = name
  rw [List.mem_singleton, eq_comm]

end Repository

/-! ## The whole document -/

section Document

variable {r : Repository} {mode : RenderMode} {tables : List Table} {name outer inner : String}

/-- A name has its place in the document because of the tables of some group. -/
theorem mem_namesAt_document {place : List String} :
    name ∈ namesAt place (r.document mode tables) ↔
      ∃ group members, (group, members) ∈ partition mode tables ∧
        name ∈ namesAt place (r.groupDocument ⟨group, .ofTables mode tables⟩ members) := by
  rw [Repository.gather_document (TypeScript.gathers_namesAt place), List.mem_flatMap, Prod.exists]

theorem rendered_iff {group : Group} :
    Rendered mode tables group ↔ ∃ members, (group, members) ∈ partition mode tables := by
  refine ⟨?_, ?_⟩
  · intro h
    obtain ⟨table, ht, hgroup⟩ := h
    exact ⟨_, mem_partition.mpr ⟨List.mem_map.mpr ⟨table, ht, hgroup⟩, rfl⟩⟩
  · intro h
    obtain ⟨members, hpart⟩ := h
    exact List.mem_map.mp (mem_partition.mp hpart).1

theorem declaresType_iff (hrows : OneRowEach tables) {group : Group} :
    DeclaresType mode tables group name ↔
      ∃ members, (group, members) ∈ partition mode tables ∧
        ∃ table ∈ members, typeName table.name = name := by
  refine ⟨?_, ?_⟩
  · intro h
    obtain ⟨table, ht, rfl, hname⟩ := h
    obtain ⟨members, hpart, hmem⟩ := exists_members mode hrows ht
    exact ⟨members, hpart, table, hmem, hname⟩
  · intro h
    obtain ⟨members, hpart, table, hmem, hname⟩ := h
    obtain ⟨ht, hgroup⟩ := mem_of_mem_members hpart hmem
    exact ⟨table, ht, hgroup, hname⟩

/-- At the top level stand the three namespaces of the global group and those of the scopes. -/
theorem mem_namesAt_top :
    name ∈ namesAt [] (r.document mode tables) ↔
      (Rendered mode tables .global ∧ Group.global.IsNamespace name) ∨
        Rendered mode tables (.scoped name) := by
  rw [mem_namesAt_document, rendered_iff, rendered_iff]
  refine ⟨?_, ?_⟩
  · intro h
    obtain ⟨group, members, hpart, hname⟩ := h
    match group with
    | .global => exact .inl ⟨⟨members, hpart⟩, Repository.mem_namesAt_passes.mp hname⟩
    | .scoped key => exact .inr ⟨members, Repository.mem_namesAt_scopedDocument.mp hname ▸ hpart⟩
  · intro h
    rcases h with ⟨⟨members, hpart⟩, hname⟩ | ⟨members, hpart⟩
    · exact ⟨.global, members, hpart, Repository.mem_namesAt_passes.mpr hname⟩
    · exact ⟨.scoped name, members, hpart, Repository.mem_namesAt_scopedDocument.mpr rfl⟩

/-- In a namespace at the top level stand the types of the global group, or the three namespaces of
a scope, or both. -/
theorem mem_namesAt_outer (hrows : OneRowEach tables) :
    name ∈ namesAt [outer] (r.document mode tables) ↔
      (Group.global.IsNamespace outer ∧ DeclaresType mode tables .global name) ∨
        Rendered mode tables (.scoped outer) ∧ (Group.scoped outer).IsNamespace name := by
  rw [mem_namesAt_document, declaresType_iff hrows, rendered_iff]
  refine ⟨?_, ?_⟩
  · intro h
    obtain ⟨group, members, hpart, hname⟩ := h
    match group with
    | .global =>
      obtain ⟨houter, htable⟩ := Repository.mem_namesAt_passes_outer.mp hname
      exact .inl ⟨houter, members, hpart, htable⟩
    | .scoped key =>
      rw [namesAt, Repository.itemsAt_scopedDocument] at hname
      by_cases hkey : key = outer
      · rw [if_pos hkey] at hname
        subst hkey
        exact .inr ⟨⟨members, hpart⟩, Repository.mem_namesAt_passes.mp hname⟩
      · rw [if_neg hkey] at hname
        exact absurd hname List.not_mem_nil
  · intro h
    rcases h with ⟨houter, members, hpart, htable⟩ | ⟨⟨members, hpart⟩, hname⟩
    · exact ⟨.global, members, hpart, Repository.mem_namesAt_passes_outer.mpr ⟨houter, htable⟩⟩
    · refine ⟨.scoped outer, members, hpart, ?_⟩
      rw [namesAt, Repository.itemsAt_scopedDocument, if_pos rfl]
      exact Repository.mem_namesAt_passes.mpr hname

/-- One namespace further in stand the types of a scope's tables. -/
theorem mem_namesAt_inner (hrows : OneRowEach tables) :
    name ∈ namesAt [outer, inner] (r.document mode tables) ↔
      (Group.scoped outer).IsNamespace inner ∧ DeclaresType mode tables (.scoped outer) name := by
  rw [mem_namesAt_document, declaresType_iff hrows]
  refine ⟨?_, ?_⟩
  · intro h
    obtain ⟨group, members, hpart, hname⟩ := h
    match group with
    | .global =>
      rw [namesAt, Repository.itemsAt_globalDocument_inside] at hname
      exact absurd hname List.not_mem_nil
    | .scoped key =>
      rw [namesAt, Repository.itemsAt_scopedDocument] at hname
      by_cases hkey : key = outer
      · rw [if_pos hkey] at hname
        subst hkey
        obtain ⟨hinner, htable⟩ := Repository.mem_namesAt_passes_outer.mp hname
        exact ⟨hinner, members, hpart, htable⟩
      · rw [if_neg hkey] at hname
        exact absurd hname List.not_mem_nil
  · intro h
    obtain ⟨hinner, members, hpart, htable⟩ := h
    refine ⟨.scoped outer, members, hpart, ?_⟩
    rw [namesAt, Repository.itemsAt_scopedDocument, if_pos rfl]
    exact Repository.mem_namesAt_passes_outer.mpr ⟨hinner, htable⟩

/-! ## Places without types -/

theorem typesAt_deep (outer inner deep : String) (place : List String) :
    typesAt (outer :: inner :: deep :: place) (r.document mode tables) = [] := by
  rw [Repository.gather_document (TypeScript.gathers_typesAt _)]
  refine List.flatMap_eq_nil_iff.mpr fun entry _ => ?_
  obtain ⟨_ | key, members⟩ := entry
  · rw [typesAt, Repository.itemsAt_globalDocument_inside]
    rfl
  · rw [typesAt, Repository.itemsAt_scopedDocument]
    split
    · rw [Repository.itemsAt_passes_inside]
      rfl
    · rfl

theorem typesAt_of_not_isNamespace (h : ¬ (Group.scoped outer).IsNamespace inner) :
    typesAt [outer, inner] (r.document mode tables) = [] := by
  rw [Repository.gather_document (TypeScript.gathers_typesAt _)]
  refine List.flatMap_eq_nil_iff.mpr fun entry _ => ?_
  obtain ⟨_ | key, members⟩ := entry
  · rw [typesAt, Repository.itemsAt_globalDocument_inside]
    rfl
  · rw [typesAt, Repository.itemsAt_scopedDocument]
    by_cases hkey : key = outer
    · subst hkey
      rw [if_pos rfl, Repository.itemsAt_passes, List.flatMap_eq_nil_iff.mpr]
      · rfl
      · intro kind _
        exact if_neg fun heq => h ⟨kind, heq⟩
    · rw [if_neg hkey]
      rfl

/-- Below a namespace there is no way down by the place of a group's namespace. -/
theorem typesAt_below (outer : String) (inner : List String) (group : Group)
    (kind : NamespaceKind) :
    typesAt (outer :: inner ++ group.place kind) (r.document mode tables) = [] := by
  have hdeep : ∀ place : List String, 3 ≤ place.length →
      typesAt place (r.document mode tables) = [] := by
    intro place hlength
    match place, hlength with
    | outer :: inner :: deep :: place, _ => exact typesAt_deep outer inner deep place
  match group, inner with
  | .global, [] =>
    exact typesAt_of_not_isNamespace (Group.not_isNamespace_global outer kind)
  | .global, next :: inner =>
    refine hdeep _ ?_
    simp only [Group.place, List.length_cons, List.length_append, List.length_nil]
    omega
  | .scoped key, inner =>
    refine hdeep _ ?_
    simp [Group.place, Group.enclosing?, Group.key?]

end Document

end Ambient
