import Ambient.Proofs.Inheritance.Fields
import Ambient.Proofs.Scoping.Names
import Mathlib.Data.List.Basic

/-!
# What references are meant for

Every reference of the complete document is meant for the declaration of a table in
one of the namespaces of its group, or for a type of the platform. `meant` tells the
targets from the tables alone, in the order in which the references are written, and
`writtenIn_document` that these references are what is written.
-/

namespace Ambient

open TypeScript (Document Item Member Property Reference typeName writtenIn)

inductive Target where
  /-- What is declared for a table in a namespace of its group. -/
  | declared (kind : NamespaceKind) (table : Table)
  /-- A type of the platform. -/
  | platform (name : String)
  deriving DecidableEq

namespace Repository

variable (r : Repository) (mode : RenderMode) (tables : List Table)

/-- The table called `name`, if it is one of `tables`. -/
def among? (name : String) : Option Table := (r.table? name).filter (· ∈ tables)

/-- What is extended: the declaration of the super table, or else a type of the platform. -/
def superTarget (kind : NamespaceKind) (table : Table) (base : String) : Target :=
  match (r.superTable? table).filter (· ∈ tables) with
  | some parent => .declared kind parent
  | none => .platform base

/-- The type of a field: the element type of the table it refers to, or else the platform's type of
its category. -/
def fieldTarget (group : Group) (element : Element) : Target :=
  let referenced :=
    if Scalar.category element.typeName = .reference then
      (Text.present? element.reference).bind (r.among? tables)
    else none
  match referenced with
  | some table => .declared .elements table
  | none => .platform (group.platformTypes.scalar (Scalar.category element.typeName))

/-- The elements of `table` that its interface has a property for. -/
def writtenElements (index : TableIndex) (table : Table) : List Element :=
  (r.elementsOf table.name).filter fun element =>
    ! (r.declaredCounterpart index table element).any element.sameShape

/-- What the references in a declaration of `table` are meant for. -/
def targets (kind : NamespaceKind) (table : Table) : List Target :=
  let types := (mode.groupOf table).platformTypes
  match kind with
  | .records => [.declared .fields table, r.superTarget tables .records table types.record]
  | .elements => [.platform types.reference, .declared .fields table, .declared .records table]
  | .fields =>
    r.superTarget tables .fields table types.fields ::
      (r.writtenElements (.ofTables mode tables) table).map
        (r.fieldTarget tables (mode.groupOf table))

/-- What the references of the complete document are meant for, each with the namespace in which it
is written. -/
def meant : List (Group × NamespaceKind × Target) :=
  (partition mode tables).flatMap fun (group, members) =>
    [NamespaceKind.records, .elements, .fields].flatMap fun kind =>
      members.flatMap fun table => (r.targets mode tables kind table).map (group, kind, ·)

end Repository

/-- How a target is written in namespace `within` of the group `source`. -/
def Target.reference (mode : RenderMode) (source : Group) (within : NamespaceKind) :
    Target → Reference
  | .platform name => .named name
  | .declared kind table =>
    ⟨(if mode.groupOf table = source then if within = kind then [] else [source.namespaceName kind]
      else (mode.groupOf table).place kind) ++ [typeName table.name]⟩

/-- What the types of the platform are called. -/
def PlatformTypes.names (types : PlatformTypes) : List String :=
  [types.record, types.fields, types.reference] ++
    [ScalarCategory.journal, .dateTime, .reference, .generic].map types.scalar

theorem PlatformTypes.record_mem_names (types : PlatformTypes) : types.record ∈ types.names :=
  List.mem_cons_self

theorem PlatformTypes.fields_mem_names (types : PlatformTypes) : types.fields ∈ types.names :=
  List.mem_cons_of_mem _ List.mem_cons_self

theorem PlatformTypes.reference_mem_names (types : PlatformTypes) :
    types.reference ∈ types.names :=
  List.mem_cons_of_mem _ (List.mem_cons_of_mem _ List.mem_cons_self)

/-- A target is a table that is rendered, or a type of the platform. -/
inductive Target.Proper (tables : List Table) : Target → Prop where
  | declared {kind : NamespaceKind} {table : Table} : table ∈ tables →
      Proper tables (.declared kind table)
  | platform {group : Group} {name : String} : name ∈ group.platformTypes.names →
      Proper tables (.platform name)

section References

variable {r : Repository} {mode : RenderMode} {tables : List Table} {table : Table}
  {source : Group} {name : String}

theorem Repository.among?_eq_some_iff (hs : r.Selects tables) :
    r.among? tables name = some table ↔ table ∈ tables ∧ table.name = name := by
  rw [among?, Option.filter_eq_some_iff, decide_eq_true_eq]
  refine ⟨?_, ?_⟩
  · intro h
    exact ⟨h.2, table?_name h.1⟩
  · intro h
    obtain ⟨ht, rfl⟩ := h
    exact ⟨mem_allTables_iff.mp (hs.known ht), ht⟩

/-- A name refers to the table of that name among those that are rendered. -/
theorem Site.reference_eq (hs : r.Selects tables) (within target : NamespaceKind) (name : String) :
    Site.reference ⟨source, .ofTables mode tables⟩ within target name =
      (r.among? tables name).map fun table =>
        (Target.declared target table).reference mode source within := by
  cases hname : r.among? tables name with
  | some table =>
    obtain ⟨ht, rfl⟩ := (Repository.among?_eq_some_iff hs).mp hname
    exact TableIndex.qualify_ofTables hs.rows ht source within target
  | none =>
    have hcontains : (TableIndex.ofTables mode tables).contains name = false := by
      rw [Bool.eq_false_iff, Ne, TableIndex.contains_ofTables hs.rows]
      intro h
      have := (Repository.among?_eq_some_iff hs).mpr h.choose_spec
      rw [hname] at this
      exact nomatch this
    rw [TableIndex.contains, NameMap.contains_eq_isSome_get?, Option.isSome_eq_false_iff,
      Option.isNone_iff_eq_none] at hcontains
    rw [Site.reference, TableIndex.qualify, TableIndex.groupOf?, hcontains]
    rfl

theorem Site.ownReference_eq (hs : r.Selects tables) (ht : table ∈ tables)
    (within target : NamespaceKind) :
    Site.ownReference ⟨source, .ofTables mode tables⟩ within target table.name =
      (Target.declared target table).reference mode source within := by
  rw [Site.ownReference, Site.reference_eq hs, (Repository.among?_eq_some_iff hs).mpr ⟨ht, rfl⟩]
  rfl

theorem declaredSuper?_eq (hs : r.Selects tables) :
    (TableIndex.ofTables mode tables).declaredSuper? table =
      ((r.superTable? table).filter (· ∈ tables)).map (·.name) := by
  refine Option.ext fun name => ?_
  rw [TableIndex.declaredSuper?_eq_some_iff hs, Option.map_eq_some_iff]
  refine ⟨?_, ?_⟩
  · intro h
    obtain ⟨parent, hparent, hsuper, hname⟩ := h
    exact ⟨parent, Option.filter_eq_some_iff.mpr ⟨hsuper, decide_eq_true hparent⟩, hname⟩
  · intro h
    obtain ⟨parent, hfilter, hname⟩ := h
    obtain ⟨hsuper, hparent⟩ := Option.filter_eq_some_iff.mp hfilter
    exact ⟨parent, of_decide_eq_true hparent, hsuper, hname⟩

/-- The reference to the super table, or else to a type of the platform. -/
theorem superReference_eq (hs : r.Selects tables) (kind : NamespaceKind) (base : String) :
    (((TableIndex.ofTables mode tables).declaredSuper? table).bind
        (Site.reference ⟨source, .ofTables mode tables⟩ kind kind)).getD (.named base) =
      (r.superTarget tables kind table base).reference mode source kind := by
  rw [declaredSuper?_eq hs, Repository.superTarget]
  cases hsuper : (r.superTable? table).filter (· ∈ tables) with
  | none => rfl
  | some parent =>
    have hparent := of_decide_eq_true (Option.filter_eq_some_iff.mp hsuper).2
    rw [Option.map_some, Option.bind_some, Site.reference_eq hs,
      (Repository.among?_eq_some_iff hs).mpr ⟨hparent, rfl⟩]
    rfl

theorem fieldsBase_eq (hs : r.Selects tables) :
    Site.fieldsBase ⟨source, .ofTables mode tables⟩ table (r.superTable? table).isNone =
      (r.superTarget tables .fields table source.platformTypes.fields).reference mode source
        .fields := by
  rw [← superReference_eq hs, Site.fieldsBase]
  cases hsuper : r.superTable? table with
  | some parent =>
    -- with a super table known, a declared one is extended
    have hkeep : ∀ found : Option String, (found.filter fun _ => ! (some parent).isNone) = found :=
      fun found => by cases found <;> rfl
    rw [hkeep]
  | none =>
    -- a table that is not known is not declared either
    have hnone : (TableIndex.ofTables mode tables).declaredSuper? table = none := by
      rw [declaredSuper?_eq hs, hsuper]
      rfl
    rw [hnone]
    rfl

/-- What a record type is built on. -/
theorem value_recordAlias (hs : r.Selects tables) (ht : table ∈ tables) :
    (r.recordAlias ⟨source, .ofTables mode tables⟩ table).value =
      .intersection ((Target.declared .fields table).reference mode source .records)
        ((r.superTarget tables .records table source.platformTypes.record).reference mode source
          .records) := by
  show TypeScript.TypeExpr.intersection (Site.ownReference _ _ _ _) (Site.recordBase _ _) = _
  rw [Site.ownReference_eq hs ht, Site.recordBase, superReference_eq hs]

/-- What an interface extends. -/
theorem base_fieldsInterface (hs : r.Selects tables) :
    (r.fieldsInterface ⟨source, .ofTables mode tables⟩ table).base =
      some ((r.superTarget tables .fields table source.platformTypes.fields).reference mode source
        .fields) :=
  congrArg some (fieldsBase_eq hs)

theorem fieldType_eq (hs : r.Selects tables) (element : Element) :
    Site.fieldType ⟨source, .ofTables mode tables⟩ element =
      (r.fieldTarget tables source element).reference mode source .fields := by
  have hindex := TableIndex.contains_empty_ofTables hs mode
  have hbind : (element.reference.map Text.trim).bind
        (Site.reference ⟨source, .ofTables mode tables⟩ .fields .elements) =
      ((Text.present? element.reference).bind (r.among? tables)).map fun table =>
        (Target.declared .elements table).reference mode source .fields := by
    rw [@Site.bind_reference_eq ⟨source, .ofTables mode tables⟩ hindex, Option.map_bind]
    exact Option.bind_congr fun name _ => Site.reference_eq hs .fields .elements name
  unfold Site.fieldType Repository.fieldTarget Group.scalarType
  rw [hbind]
  by_cases hcategory : Scalar.category element.typeName = .reference
  · rw [if_pos hcategory, if_pos hcategory]
    cases (Text.present? element.reference).bind (r.among? tables) <;> rfl
  · rw [if_neg hcategory, if_neg hcategory]
    rfl

theorem proper_superTarget {kind : NamespaceKind} {group : Group} {base : String}
    (hbase : base ∈ group.platformTypes.names) :
    (r.superTarget tables kind table base).Proper tables := by
  unfold Repository.superTarget
  cases hsuper : (r.superTable? table).filter (· ∈ tables) with
  | none => exact .platform hbase
  | some parent =>
    exact .declared (of_decide_eq_true (Option.filter_eq_some_iff.mp hsuper).2)

theorem scalar_mem_names (types : PlatformTypes) (category : ScalarCategory) :
    types.scalar category ∈ types.names := by
  unfold PlatformTypes.names
  refine List.mem_append_right _ (List.mem_map_of_mem ?_)
  cases category <;> decide

theorem proper_fieldTarget (hs : r.Selects tables) (element : Element) :
    (r.fieldTarget tables source element).Proper tables := by
  unfold Repository.fieldTarget
  by_cases hcategory : Scalar.category element.typeName = .reference
  · rw [if_pos hcategory]
    cases hreferenced : (Text.present? element.reference).bind (r.among? tables) with
    | none => exact .platform (scalar_mem_names _ _)
    | some parent =>
      obtain ⟨name, -, hname⟩ := Option.bind_eq_some_iff.mp hreferenced
      exact .declared ((Repository.among?_eq_some_iff hs).mp hname).1
  · rw [if_neg hcategory]
    exact .platform (scalar_mem_names _ _)

theorem proper_of_mem_targets {kind : NamespaceKind} {target : Target} (hs : r.Selects tables)
    (ht : table ∈ tables) (h : target ∈ r.targets mode tables kind table) :
    target.Proper tables := by
  cases kind with
  | records =>
    simp only [Repository.targets, List.mem_cons, List.not_mem_nil, or_false] at h
    rcases h with rfl | rfl
    · exact .declared ht
    · exact proper_superTarget (PlatformTypes.record_mem_names _)
  | elements =>
    simp only [Repository.targets, List.mem_cons, List.not_mem_nil, or_false] at h
    rcases h with rfl | rfl | rfl
    · exact .platform (PlatformTypes.reference_mem_names _)
    · exact .declared ht
    · exact .declared ht
  | fields =>
    simp only [Repository.targets, List.mem_cons, List.mem_map] at h
    rcases h with h | ⟨element, helement, hfound⟩
    · rw [h]
      exact proper_superTarget (PlatformTypes.fields_mem_names _)
    · rw [← hfound]
      exact proper_fieldTarget hs element

theorem proper_of_mem_meant {group : Group} {kind : NamespaceKind} {target : Target}
    (hs : r.Selects tables)
    (h : (group, kind, target) ∈ r.meant mode tables) :
    Rendered mode tables group ∧ target.Proper tables := by
  obtain ⟨⟨own, members⟩, hpart, h⟩ := List.mem_flatMap.mp h
  obtain ⟨other, -, h⟩ := List.mem_flatMap.mp h
  obtain ⟨table, hmem, h⟩ := List.mem_flatMap.mp h
  obtain ⟨found, htarget, heq⟩ := List.mem_map.mp h
  obtain ⟨rfl, hrest⟩ := Prod.mk.inj heq
  obtain ⟨rfl, rfl⟩ := Prod.mk.inj hrest
  obtain ⟨ht, -⟩ := mem_of_mem_members hpart hmem
  exact ⟨rendered_iff.mpr ⟨members, hpart⟩, proper_of_mem_targets hs ht htarget⟩

end References

/-! ## Where names come from -/

/-- What gives rise to a name: a table, the scope of a table, one of the three namespaces of a group
or a type of the platform. -/
inductive Origin (mode : RenderMode) (tables : List Table) : String → Prop where
  | table {table : Table} : table ∈ tables → Origin mode tables (typeName table.name)
  | scope {table : Table} {key : String} : table ∈ tables → mode.groupOf table = .scoped key →
      Origin mode tables key
  | kind (group : Group) (kind : NamespaceKind) : Origin mode tables (group.namespaceName kind)
  | platform {group : Group} {name : String} : name ∈ group.platformTypes.names →
      Origin mode tables name

theorem Group.eq_scoped_of_enclosing? {group : Group} {name : String}
    (h : name ∈ group.enclosing?) : group = .scoped name := by
  match group with
  | .global => exact nomatch h
  | .scoped key => exact congrArg Group.scoped (Option.some.inj h)

theorem RenderMode.scopeKey?_of_groupOf {mode : RenderMode} {table : Table} {key : String}
    (h : mode.groupOf table = .scoped key) : table.scopeKey? = some key := by
  match mode with
  | .global => exact nomatch h
  | .scoped =>
    change Group.ofTable table = .scoped key at h
    unfold Group.ofTable at h
    cases hkey : table.scopeKey? with
    | none =>
      rw [hkey] at h
      exact nomatch h
    | some other =>
      rw [hkey] at h
      exact congrArg some (Group.scoped.inj h)

/-- A segment of a reference has its name from the target or from a namespace around it. -/
theorem origin_of_mem_segments {mode : RenderMode} {tables : List Table} {source : Group}
    {within : NamespaceKind} {target : Target} (h : target.Proper tables) {segment : String}
    (hsegment : segment ∈ (target.reference mode source within).segments) :
    Origin mode tables segment := by
  cases h with
  | platform hname =>
    rw [List.mem_singleton.mp hsegment]
    exact .platform hname
  | @declared kind other hother =>
    rcases List.mem_append.mp hsegment with hsegment | hsegment
    · split at hsegment
      · split at hsegment
        · exact absurd hsegment List.not_mem_nil
        · rw [List.mem_singleton.mp hsegment]
          exact .kind source kind
      · rcases List.mem_append.mp hsegment with hsegment | hsegment
        · exact .scope hother (Group.eq_scoped_of_enclosing? (Option.mem_toList.mp hsegment))
        · rw [List.mem_singleton.mp hsegment]
          exact .kind _ kind
    · rw [List.mem_singleton.mp hsegment]
      exact .table hother

/-! ## What is written -/

section Written

variable {r : Repository} {mode : RenderMode} {tables : List Table} {table : Table}
  {site : Site}

theorem filterMap_eq_map_filter {α β γ : Type} {f : α → Option β} {g : β → γ} {p : α → Bool}
    {h : α → γ} (heq : ∀ a, (f a).map g = if p a then some (h a) else none) (items : List α) :
    (items.filterMap f).map g = (items.filter p).map h := by
  induction items with
  | nil => rfl
  | cons a items ih =>
    have ha := heq a
    rw [List.filterMap_cons, List.filter_cons]
    cases hf : f a with
    | none =>
      cases hp : p a with
      | false => exact ih
      | true => rw [hf, hp] at ha; exact nomatch ha
    | some b =>
      cases hp : p a with
      | false => rw [hf, hp] at ha; exact nomatch ha
      | true =>
        rw [hf, hp] at ha
        rw [List.map_cons, ih, Option.some.inj ha]
        rfl

theorem map_type_member? (element : Element) (disposition : Disposition) (doc : List String) :
    ((site.member? element disposition doc).bind Member.property?).map (·.type) =
      if disposition = .own ∨ disposition = .redeclared then some (site.fieldType element)
      else none := by
  cases disposition <;> simp [Site.member?, Member.property?]

/-- The types of the properties are those of the elements they are written for. -/
theorem map_type_properties (r : Repository) (site : Site) (table : Table) :
    (r.fieldsInterface site table).properties.map (·.type) =
      (r.writtenElements site.index table).map site.fieldType := by
  rw [properties_fieldsInterface]
  refine filterMap_eq_map_filter (fun element => ?_) _
  have hwritten : (element.disposition (r.declaredCounterpart site.index table element) = .own ∨
      element.disposition (r.declaredCounterpart site.index table element) = .redeclared) ↔
      (! (r.declaredCounterpart site.index table element).any element.sameShape) = true := by
    rw [disposition_written_iff]
    cases r.declaredCounterpart site.index table element with
    | none => simp
    | some other => simp [← Element.sameShape_iff]
  rw [map_type_member?]
  by_cases h : (! (r.declaredCounterpart site.index table element).any element.sameShape) = true
  · rw [if_pos h, if_pos (hwritten.mpr h)]
  · rw [if_neg h, if_neg fun h' => h (hwritten.mp h')]

/-- The references of a declaration are those to its targets. -/
theorem written_declaration (mode : RenderMode) (hs : r.Selects tables) (ht : table ∈ tables)
    (kind : NamespaceKind) (place : List String) :
    (r.declaration ⟨mode.groupOf table, .ofTables mode tables⟩ kind table).written place =
      (r.targets mode tables kind table).map fun target =>
        (place, target.reference mode (mode.groupOf table) kind) := by
  cases kind with
  | records =>
    show List.map _ [Site.ownReference _ _ _ _, Site.recordBase _ _] = _
    rw [Site.ownReference_eq hs ht, Site.recordBase, superReference_eq hs]
    rfl
  | elements =>
    show List.map _ [_, Site.ownReference _ _ _ _, Site.ownReference _ _ _ _] = _
    rw [Site.ownReference_eq hs ht, Site.ownReference_eq hs ht]
    rfl
  | fields =>
    show List.map _ ([Site.fieldsBase _ _ _] ++ (r.fieldsInterface _ table).properties.map _) = _
    rw [map_type_properties, fieldsBase_eq hs, funext (fieldType_eq hs), List.singleton_append,
      Repository.targets, List.map_cons, List.map_cons, List.map_map, List.map_map]
    rfl

theorem writtenIn_kindNamespace (place : List String) (kind : NamespaceKind) :
    writtenIn place [r.kindNamespace site tables kind] =
      (r.declarations site kind tables).flatMap
        (Item.written (place ++ [site.group.namespaceName kind])) := by
  have hitem : ∀ place item, writtenIn place [item] = item.written place :=
    fun place item => List.append_nil (item.written place)
  rw [hitem]
  show writtenIn _ (List.intersperse _ _) = _
  rw [(TypeScript.gathers_writtenIn _).intersperse, funext (hitem _)]
  rfl

theorem writtenIn_passes (place : List String) :
    writtenIn place (r.passesDocument site tables) =
      [NamespaceKind.records, .elements, .fields].flatMap fun kind =>
        (r.declarations site kind tables).flatMap
          (Item.written (place ++ [site.group.namespaceName kind])) := by
  rw [Repository.gather_passesDocument (TypeScript.gathers_writtenIn place)]
  simp only [writtenIn_kindNamespace]

theorem writtenIn_groupDocument :
    writtenIn [] (r.groupDocument site tables) =
      [NamespaceKind.records, .elements, .fields].flatMap fun kind =>
        (r.declarations site kind tables).flatMap (Item.written (site.group.place kind)) := by
  rw [Repository.gather_groupDocument (TypeScript.gathers_writtenIn [])]
  obtain ⟨_ | key, index⟩ := site
  · exact writtenIn_passes []
  · show writtenIn [key] _ ++ [] = _
    rw [writtenIn_passes, List.append_nil]
    rfl

/-- **The references of the complete document are those that are meant**, in their order. -/
theorem writtenIn_document (hs : r.Selects tables) :
    writtenIn [] (r.document mode tables) =
      (r.meant mode tables).map fun (group, kind, target) =>
        (group.place kind, target.reference mode group kind) := by
  rw [Repository.gather_document (TypeScript.gathers_writtenIn []), Repository.meant,
    List.map_flatMap]
  refine List.flatMap_congr fun entry hentry => ?_
  obtain ⟨group, members⟩ := entry
  rw [writtenIn_groupDocument, List.map_flatMap]
  refine List.flatMap_congr fun kind _ => ?_
  rw [Repository.declarations, List.flatMap_map, List.map_flatMap]
  refine List.flatMap_congr fun table htable => ?_
  obtain ⟨ht, hgroup⟩ := mem_of_mem_members hentry htable
  have hwritten := written_declaration mode hs ht kind (group.place kind)
  rw [hgroup] at hwritten
  rw [List.map_map]
  exact hwritten

end Written

end Ambient
