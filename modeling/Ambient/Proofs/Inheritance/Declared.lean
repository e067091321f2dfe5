import Ambient.Proofs.Repository.Reached
import Ambient.Proofs.Scoping.Binding
import Mathlib.Data.List.TakeWhile

/-!
# Two chains of one table

Above a table there are two chains. The repository's is followed by lookups and ends
where a super table is not known; the index's is followed in memory and ends where one
is not declared. Both end before a table already met. They are one chain, cut at
different places: the declared ancestors are the beginning of the repository's chain,
up to the first table that is not rendered (`declaredAncestors_eq`).

The nearest element of a name is looked for on the whole chain, and given up if its
owner is not a declared ancestor. This is the same as looking on the beginning alone
(`declaredCounterpart_eq`), because an owner outside the beginning is the nearest one
only where none inside it has such an element.

In the output the super table is named twice, by the record type and by the interface. The
two names lead to declarations of one table where the way to it is clear
(`namesSuper_of_clear`).
-/

namespace Ambient

open TypeScript (Document Item Reference RefersTo home?)

namespace Repository

/-- The tables above `table`, nearest first, up to the first one that is not among `tables`. -/
def declaredChain (r : Repository) (tables : List Table) (table : Table) : List Table :=
  (r.chain table).takeWhile (· ∈ tables)

end Repository

/-! ## Ancestors -/

section Ancestors

variable {r : Repository} {mode : RenderMode} {tables : List Table} {current table : Table}
  {unmet known : List String}

theorem filter_some_of_mem (h : table ∈ tables) : (some table).filter (· ∈ tables) = some table :=
  Option.filter_some_pos (decide_eq_true h)

theorem filter_some_of_not_mem (h : table ∉ tables) : (some table).filter (· ∈ tables) = none :=
  Option.filter_some_neg (by simpa using h)

theorem takeWhile_cons_of_mem {rest : List Table} (h : table ∈ tables) :
    (table :: rest).takeWhile (· ∈ tables) = table :: rest.takeWhile (· ∈ tables) :=
  List.takeWhile_cons_of_pos (decide_eq_true h)

/-- A chain that begins with a table that is not rendered has no declared beginning. -/
theorem takeWhile_chainFrom_of_not_mem (h : current ∉ tables) :
    (r.chainFrom known current).takeWhile (· ∈ tables) = [] := by
  rw [Repository.chainFrom]
  split
  · cases r.superTable? current <;> simp [h]
  · rfl

/-- **The two chains step by step.** `unmet` is what the index has not met and `known` what the
repository has not; of the rendered tables they hold the same ones. -/
theorem TableIndex.ancestorsFrom_eq (hs : r.Selects tables) (hunmet : unmet.Nodup)
    (hknown : known.Nodup) (hsame : ∀ t ∈ tables, t.name ∈ unmet ↔ t.name ∈ known) :
    (ofTables mode tables).ancestorsFrom unmet
        (((some current).filter (· ∈ tables)).map (·.name)) =
      ((r.chainFrom known current).takeWhile (· ∈ tables)).map (·.name) := by
  by_cases hin : current ∈ tables
  · rw [filter_some_of_mem hin, Option.map_some]
    -- on the repository's chain, which the index's one follows as long as it is declared
    induction known, current using Repository.chainFrom.induct r generalizing unmet with
    | case1 known current hmet hsuper =>
      have hstep : (ofTables mode tables).recordedSuper? current.name = none := by
        rw [recordedSuper?_ofTables hs hin, declaredSuper?_eq hs, hsuper]
        rfl
      rw [Repository.chainFrom_of_top hmet hsuper,
        ancestorsFrom_of_unmet ((hsame current hin).mpr hmet), hstep, ancestorsFrom_none]
      simp [hin]
    | case2 known current hmet parent hsuper ih =>
      have hstep : (ofTables mode tables).recordedSuper? current.name =
          ((some parent).filter (· ∈ tables)).map (·.name) := by
        rw [recordedSuper?_ofTables hs hin, declaredSuper?_eq hs, hsuper]
      rw [Repository.chainFrom_of_super hmet hsuper,
        ancestorsFrom_of_unmet ((hsame current hin).mpr hmet), hstep,
        takeWhile_cons_of_mem hin, List.map_cons]
      refine congrArg (current.name :: ·) ?_
      by_cases hparent : parent ∈ tables
      · rw [filter_some_of_mem hparent, Option.map_some]
        refine ih (hunmet.erase _) (hknown.erase _) (fun t ht => ?_) hparent
        rw [hunmet.mem_erase_iff, hknown.mem_erase_iff, hsame t ht]
      · rw [filter_some_of_not_mem hparent, takeWhile_chainFrom_of_not_mem hparent]
        exact ancestorsFrom_none _
    | case3 known current hmet =>
      have hnot : current.name ∉ unmet := fun h => hmet ((hsame current hin).mp h)
      rw [Repository.chainFrom_of_met hmet, ancestorsFrom_of_met hnot]
      rfl
  · rw [filter_some_of_not_mem hin, takeWhile_chainFrom_of_not_mem hin]
    exact ancestorsFrom_none _

/-- **The declared ancestors are the beginning of the chain that is declared.** -/
theorem declaredAncestors_eq (hs : r.Selects tables) :
    (TableIndex.ofTables mode tables).declaredAncestors table =
      (r.declaredChain tables table).map (·.name) := by
  rw [TableIndex.declaredAncestors, declaredSuper?_eq hs, Repository.declaredChain,
    Repository.chain]
  cases hsuper : r.superTable? table with
  | none => exact TableIndex.ancestorsFrom_none _
  | some parent =>
    have hkeys := (TableIndex.ofTables mode tables).entries.nodup_keys
    refine TableIndex.ancestorsFrom_eq hs (hkeys.erase _) (r.nodup_keys.erase _) fun t ht => ?_
    have hindexed : t.name ∈ (TableIndex.ofTables mode tables).entries.keys :=
      NameMap.mem_keys_iff.mpr ⟨_, TableIndex.get?_ofTables hs.rows ht⟩
    have hknown := Repository.mem_keys_of_mem_allTables (hs.known ht)
    rw [hkeys.mem_erase_iff, r.nodup_keys.mem_erase_iff]
    exact ⟨fun h => ⟨h.1, hknown⟩, fun h => ⟨h.1, hindexed⟩⟩

end Ancestors

/-! ## Counterparts -/

section Counterparts

variable {r : Repository} {mode : RenderMode} {tables owners : List Table} {table : Table}
  {element : Element} {name : String}

theorem Repository.nodup_chain (r : Repository) (table : Table) :
    ((r.chain table).map (·.name)).Nodup := by
  unfold chain
  cases r.superTable? table with
  | none => exact List.nodup_nil
  | some parent => exact nodup_chainFrom (r.nodup_keys.erase table.name)

/-- The nearest element of a name is that of the first owner that has one. -/
theorem nearest?_eq_some_iff :
    FieldInheritance.nearest? (owners.map fun owner => r.elementsOf owner.name) name =
        some element ↔
      ∃ nearer owner farther, owners = nearer ++ owner :: farther ∧
        element ∈ r.elementsOf owner.name ∧ element.name = name ∧
        ∀ between ∈ nearer, ∀ other ∈ r.elementsOf between.name, other.name ≠ name := by
  have hnone : ∀ owner : Table, (r.elementsOf owner.name).find? (·.name == name) = none ↔
      ∀ other ∈ r.elementsOf owner.name, other.name ≠ name := by
    intro owner
    simp [List.find?_eq_none]
  rw [FieldInheritance.nearest?, List.findSome?_map, List.findSome?_eq_some_iff]
  simp only [Function.comp_apply, Repository.find?_elementsOf_eq_some_iff, hnone, and_assoc]

theorem owner_mem_of_nearest?
    (h : FieldInheritance.nearest? (owners.map fun owner => r.elementsOf owner.name) name =
      some element) : element.table ∈ owners.map (·.name) := by
  obtain ⟨nearer, owner, farther, rfl, hmem, -⟩ := nearest?_eq_some_iff.mp h
  rw [Repository.table_of_mem_elementsOf hmem]
  exact List.mem_map_of_mem (List.mem_append_right _ List.mem_cons_self)

theorem nearest?_eq_none_iff :
    FieldInheritance.nearest? (owners.map fun owner => r.elementsOf owner.name) name = none ↔
      ∀ owner ∈ owners, ∀ other ∈ r.elementsOf owner.name, other.name ≠ name := by
  rw [FieldInheritance.nearest?, List.findSome?_map, List.findSome?_eq_none_iff]
  simp [List.find?_eq_none]

/-- The nearest element of a name on the declared beginning of the chain above `table`. -/
def Repository.nearestDeclared? (r : Repository) (tables : List Table) (table : Table)
    (name : String) : Option Element :=
  FieldInheritance.nearest?
    ((r.declaredChain tables table).map fun owner => r.elementsOf owner.name) name

/-- **Looking on the whole chain and giving up an owner that is not declared is looking on the
declared beginning.** -/
theorem declaredCounterpart_eq (mode : RenderMode) (hs : r.Selects tables) (table : Table)
    (element : Element) :
    r.declaredCounterpart (.ofTables mode tables) table element =
      r.nearestDeclared? tables table element.name := by
  let rest := (r.chain table).dropWhile (· ∈ tables)
  have hsplit : r.chain table = r.declaredChain tables table ++ rest :=
    List.takeWhile_append_dropWhile.symm
  rw [Repository.declaredCounterpart, Site.declaredCounterpart, declaredAncestors_eq hs]
  show Option.filter _ (r.nearestAbove? table element.name) = _
  have hnearest : r.nearestAbove? table element.name =
      (r.nearestDeclared? tables table element.name).or
        (FieldInheritance.nearest? (rest.map fun owner => r.elementsOf owner.name)
          element.name) := by
    rw [Repository.nearestAbove?, hsplit, List.map_append, FieldInheritance.nearest?,
      List.findSome?_append]
    rfl
  rw [hnearest]
  cases hdeclared : r.nearestDeclared? tables table element.name with
  | some counterpart =>
    have hin := owner_mem_of_nearest? hdeclared
    exact Option.filter_some_pos (List.contains_iff_mem.mpr hin)
  | none =>
    rw [Option.none_or]
    cases hrest : FieldInheritance.nearest? (rest.map fun owner => r.elementsOf owner.name)
        element.name with
    | none => rfl
    | some counterpart =>
      -- an owner outside the beginning has a name of its own
      have hout : counterpart.table ∉ (r.declaredChain tables table).map (·.name) := by
        have hdistinct := r.nodup_chain table
        rw [hsplit, List.map_append] at hdistinct
        intro hin
        exact (List.nodup_append.mp hdistinct).2.2 _ hin _ (owner_mem_of_nearest? hrest) rfl
      exact Option.filter_some_neg (by simpa using hout)

theorem Repository.rendered_of_mem_declaredChain {upper : Table}
    (h : upper ∈ r.declaredChain tables table) : upper ∈ tables := by
  have hin := List.mem_takeWhile_imp h
  exact of_decide_eq_true hin

/-- No longer beginning of a chain is declared. -/
theorem prefix_declaredChain {shorter : List Table} (hbegins : shorter <+: r.chain table)
    (hin : ∀ upper ∈ shorter, upper ∈ tables) : shorter <+: r.declaredChain tables table := by
  obtain ⟨rest, hrest⟩ := hbegins
  rw [Repository.declaredChain, ← hrest,
    List.takeWhile_append_of_pos fun upper hupper => decide_eq_true (hin upper hupper)]
  exact List.prefix_append _ _

end Counterparts

/-! ## The super table -/

/-- The super table of a table, if it is rendered: the one called by the trimmed `extends`. -/
theorem superTable?_filter_eq_some_iff {r : Repository} {tables : List Table} {table upper : Table}
    (hs : r.Selects tables) :
    (r.superTable? table).filter (· ∈ tables) = some upper ↔
      upper ∈ tables ∧ table.superName.map Text.trim = some upper.name := by
  rw [Option.filter_eq_some_iff, decide_eq_true_eq, Repository.superTable?_eq_some_iff]
  constructor
  · rintro ⟨⟨hsuper, -⟩, hin⟩
    exact ⟨hin, (present?_eq_some_iff (hs.name_ne_empty hin)).mp hsuper⟩
  · rintro ⟨hin, hsuper⟩
    exact ⟨⟨(present?_eq_some_iff (hs.name_ne_empty hin)).mpr hsuper, hs.known hin⟩, hin⟩

/-- Written in namespace `kind` of the group `source`, the reference means what stands for `table`
in the namespace of that kind of its own group. -/
def RefersToTable (mode : RenderMode) (tables : List Table) (document : Document) (source : Group)
    (kind : NamespaceKind) (reference : Reference) (table : Table) : Prop :=
  ∃ item, Stands mode tables document kind table item ∧
    RefersTo document (source.place kind) reference ((mode.groupOf table).place kind) item

/-- What a record type is built on beside the fields of its `table`, and what the interface of these
fields extends, are declarations of one table. -/
structure NamesSuper (mode : RenderMode) (tables : List Table) (document : Document)
    (table : Table) (second base : Reference) : Prop where
  same : ∀ upper,
    RefersToTable mode tables document (mode.groupOf table) .records second upper ↔
      RefersToTable mode tables document (mode.groupOf table) .fields base upper
  /-- It is the rendered one that the trimmed `extends` names. -/
  named : ∀ upper,
    RefersToTable mode tables document (mode.groupOf table) .records second upper ↔
      upper ∈ tables ∧ table.superName.map Text.trim = some upper.name
  /-- Where there is none, both are the base types of the group, which the document does not
  declare. -/
  fallback : let types := (mode.groupOf table).platformTypes
    (∀ upper, ¬ RefersToTable mode tables document (mode.groupOf table) .records second upper) →
      (second = .named types.record ∧
        home? document ((mode.groupOf table).place .records) types.record = none) ∧
      (base = .named types.fields ∧
        home? document ((mode.groupOf table).place .fields) types.fields = none)

section Super

variable {r : Repository} {mode : RenderMode} {tables : List Table} {table : Table}

theorem mem_of_stands {document : Document} {kind : NamespaceKind} {item : Item}
    (h : Stands mode tables document kind table item) : table ∈ tables := by
  obtain ⟨members, hpart, hzip⟩ := h
  exact (mem_of_mem_members hpart (List.of_mem_zip hzip).1).1

/-- **What a reference to the super table means** where the way is clear: the declaration of the
super table, if it is rendered, and otherwise none. -/
theorem refersTo_superTarget_iff (hs : r.Selects tables) (ht : table ∈ tables)
    {kind : NamespaceKind} {base : String} (hbase : base ∈ (mode.groupOf table).platformTypes.names)
    (hclear : Clear mode tables (mode.groupOf table) kind (r.superTarget tables kind table base))
    {target : List String} {item : Item} :
    RefersTo (r.document mode tables) ((mode.groupOf table).place kind)
        ((r.superTarget tables kind table base).reference mode (mode.groupOf table) kind)
        target item ↔
      ∃ parent, (r.superTable? table).filter (· ∈ tables) = some parent ∧
        target = (mode.groupOf parent).place kind ∧
        item = r.declaration ⟨mode.groupOf parent, .ofTables mode tables⟩ kind parent := by
  have hsource : Rendered mode tables (mode.groupOf table) := rendered_groupOf ht
  unfold Repository.superTarget at hclear ⊢
  cases hsuper : (r.superTable? table).filter (· ∈ tables) with
  | none =>
    rw [hsuper] at hclear
    refine ⟨fun hrefers => absurd hrefers ?_, ?_⟩
    · exact not_refersTo_of_clear hs.rows hsource (not_isNamespace_platform hbase) hclear _ _
    · rintro ⟨parent, hparent, -⟩
      exact absurd hparent.symm (Option.some_ne_none _)
  | some parent =>
    rw [hsuper] at hclear
    have hparent := of_decide_eq_true (Option.filter_eq_some_iff.mp hsuper).2
    have hmeans := refersTo_of_clear hs hsource hparent hclear
    constructor
    · intro hrefers
      obtain ⟨hplace, hitem⟩ := hrefers.unique hmeans
      exact ⟨parent, rfl, hplace, hitem⟩
    · rintro ⟨other, hother, rfl, rfl⟩
      exact Option.some.inj hother ▸ hmeans

/-- Declarations that are the same stand for one table, if its name is its own. -/
theorem eq_of_declaration_eq {kind : NamespaceKind} {upper other : Table}
    (hdistinct : Distinct mode tables upper) (hin : other ∈ tables)
    (hplace : (mode.groupOf other).place kind = (mode.groupOf upper).place kind)
    (hitem : r.declaration ⟨mode.groupOf other, .ofTables mode tables⟩ kind other =
      r.declaration ⟨mode.groupOf upper, .ofTables mode tables⟩ kind upper) :
    other = upper := by
  have hname := congrArg Item.name? hitem
  rw [Repository.name?_declaration, Repository.name?_declaration] at hname
  exact hdistinct other hin (Group.place_injective hplace) (Option.some.inj hname)

/-- Where the way is clear, a reference to the super table means the one that is rendered. -/
theorem refersToTable_superTarget_iff (hs : r.Selects tables) (ht : table ∈ tables)
    {kind : NamespaceKind} {base : String} (hbase : base ∈ (mode.groupOf table).platformTypes.names)
    (hclear : Clear mode tables (mode.groupOf table) kind (r.superTarget tables kind table base))
    (upper : Table) :
    RefersToTable mode tables (r.document mode tables) (mode.groupOf table) kind
        ((r.superTarget tables kind table base).reference mode (mode.groupOf table) kind) upper ↔
      upper ∈ tables ∧ table.superName.map Text.trim = some upper.name := by
  rw [← superTable?_filter_eq_some_iff hs]
  constructor
  · rintro ⟨item, hstands, hrefers⟩
    obtain ⟨parent, hsuper, hplace, hitem⟩ :=
      (refersTo_superTarget_iff hs ht hbase hclear).mp hrefers
    have hin := mem_of_stands hstands
    rw [(stands_iff hs.rows hin).mp hstands] at hitem
    rw [Repository.superTarget, hsuper] at hclear
    rw [hsuper, eq_of_declaration_eq hclear.1 hin hplace hitem]
  · intro hsuper
    have hin := of_decide_eq_true (Option.filter_eq_some_iff.mp hsuper).2
    exact ⟨_, (stands_iff hs.rows hin).mpr rfl,
      (refersTo_superTarget_iff hs ht hbase hclear).mpr ⟨upper, hsuper, rfl, rfl⟩⟩

theorem namesSuper_of_clear (hs : r.Selects tables) (ht : table ∈ tables) :
    let group := mode.groupOf table
    let second := r.superTarget tables .records table group.platformTypes.record
    let base := r.superTarget tables .fields table group.platformTypes.fields
    Clear mode tables group .records second → Clear mode tables group .fields base →
      NamesSuper mode tables (r.document mode tables) table (second.reference mode group .records)
        (base.reference mode group .fields) := by
  intro group second base hsecond hbase
  have hrecord := group.platformTypes.record_mem_names
  have hfields := group.platformTypes.fields_mem_names
  have hnamed := refersToTable_superTarget_iff hs ht hrecord hsecond
  refine ⟨fun upper => (hnamed upper).trans
    (refersToTable_superTarget_iff hs ht hfields hbase upper).symm, hnamed, fun hnone => ?_⟩
  -- without a table that is meant there is no super table that is rendered
  have hsuper : (r.superTable? table).filter (· ∈ tables) = none := by
    refine Option.eq_none_iff_forall_ne_some.mpr fun parent hparent => ?_
    exact hnone parent ((hnamed parent).mpr ((superTable?_filter_eq_some_iff hs).mp hparent))
  have hplatform : ∀ kind name, r.superTarget tables kind table name = .platform name := by
    intro kind name
    rw [Repository.superTarget, hsuper]
  have hsource : Rendered mode tables (mode.groupOf table) := rendered_groupOf ht
  rw [show second = _ from hplatform _ _] at hsecond ⊢
  rw [show base = _ from hplatform _ _] at hbase ⊢
  exact ⟨(reaches_platform_iff hs.rows hsource .records (not_isNamespace_platform hrecord)).mpr
      hsecond,
    (reaches_platform_iff hs.rows hsource .fields (not_isNamespace_platform hfields)).mpr hbase⟩

end Super

/-- The repository's chain above `table` and the index's agree where `tables` are rendered. -/
structure ChainsAgree (r : Repository) (mode : RenderMode) (tables : List Table) (table : Table) :
    Prop where
  /-- The record type and the interface of the table are built on one super table, where the
  references to it find their way clear. -/
  super :
    let complete := (render mode tables { repository := r } {}).document
    let group := mode.groupOf table
    Clear mode tables group .records
        (r.superTarget tables .records table group.platformTypes.record) →
      Clear mode tables group .fields
        (r.superTarget tables .fields table group.platformTypes.fields) →
      ∃ record own second interface base,
        (Stands mode tables complete .records table (.alias record) ∧
          record.value = .intersection own second) ∧
        (Stands mode tables complete .fields table (.interface interface) ∧
          interface.base = some base) ∧
        NamesSuper mode tables complete table second base
  /-- The repository pairs the elements along its own chain. -/
  walked : (LookupM.fieldInheritance table { repository := r } {}).1 =
    .ok (r.fieldInheritance table)
  /-- The declared ancestors are the longest beginning of this chain that is all rendered. -/
  ancestors : (TableIndex.ofTables mode tables).declaredAncestors table =
    (r.declaredChain tables table).map (·.name)
  beginning : r.declaredChain tables table <+: r.chain table
  rendered : ∀ upper ∈ r.declaredChain tables table, upper ∈ tables
  longest : ∀ shorter, shorter <+: r.chain table → (∀ upper ∈ shorter, upper ∈ tables) →
    shorter <+: r.declaredChain tables table
  /-- What decides how an element is written is the element of its name of the first table of this
  beginning that owns one. -/
  counterpart : ∀ pair ∈ (r.fieldInheritance table).pairs, ∀ other,
    Site.declaredCounterpart ((TableIndex.ofTables mode tables).declaredAncestors table) pair =
        some other ↔
      ∃ nearer owner farther, r.declaredChain tables table = nearer ++ owner :: farther ∧
        other ∈ r.elementsOf owner.name ∧ other.name = pair.element.name ∧
        ∀ between ∈ nearer, ∀ passed ∈ r.elementsOf between.name, passed.name ≠ pair.element.name
  /-- There is none where none of them does. -/
  none : ∀ pair ∈ (r.fieldInheritance table).pairs,
    Site.declaredCounterpart ((TableIndex.ofTables mode tables).declaredAncestors table) pair =
        none ↔
      ∀ owner ∈ r.declaredChain tables table, ∀ other ∈ r.elementsOf owner.name,
        other.name ≠ pair.element.name

/-- **The repository's chain and the index's agree**, whatever cycles there are. -/
theorem chainsAgree_of_valid {snapshot : Snapshot} (hvalid : snapshot.violation? = none)
    (mode : RenderMode) {tables : List Table}
    (htables : ∀ table ∈ tables, table ∈ snapshot.repository.allTables) {table : Table}
    (ht : table ∈ tables) : ChainsAgree snapshot.repository mode tables table := by
  have hs := Snapshot.selects hvalid htables
  -- the counterpart of a pair is looked for on the declared beginning
  have hpair : ∀ pair ∈ (snapshot.repository.fieldInheritance table).pairs,
      Site.declaredCounterpart ((TableIndex.ofTables mode tables).declaredAncestors table) pair =
        snapshot.repository.nearestDeclared? tables table pair.element.name := by
    intro pair hmem
    obtain ⟨element, -, rfl⟩ := List.mem_map.mp hmem
    exact declaredCounterpart_eq mode hs table element
  constructor
  case super =>
    intro complete group hsecond hbase
    have hcomplete : complete = snapshot.repository.document mode tables :=
      document_render snapshot.repository mode tables
    rw [hcomplete]
    exact ⟨_, _, _, _, _, ⟨(stands_iff hs.rows ht).mpr rfl, value_recordAlias hs ht⟩,
      ⟨(stands_iff hs.rows ht).mpr rfl, base_fieldsInterface hs⟩,
      namesSuper_of_clear hs ht hsecond hbase⟩
  case walked =>
    obtain ⟨s', hrun, -⟩ := (LookupM.answers_fieldInheritance table).run
      (c := { repository := snapshot.repository }) (s := {}) trivial
      snapshot.repository.quiet rfl
    rw [hrun]
  case ancestors => exact declaredAncestors_eq hs
  case beginning => exact List.takeWhile_prefix _
  case rendered =>
    intro upper hupper
    exact Repository.rendered_of_mem_declaredChain hupper
  case longest =>
    intro shorter hbegins hin
    exact prefix_declaredChain hbegins hin
  case counterpart =>
    intro pair hmem other
    rw [hpair pair hmem]
    exact nearest?_eq_some_iff
  case none =>
    intro pair hmem
    rw [hpair pair hmem]
    exact nearest?_eq_none_iff

/-- A table below two that extend each other, of which only the nearer one may be rendered. -/
def Snapshot.mutualParents : Snapshot where
  tables := .ofList
    [("child",
      { attributes := { superName := some " middle " }
        elements := .ofList [("number", {}), ("state", { typeName := "integer" })] }),
     ("middle",
      { attributes := { superName := some "top", scope := some "x_app" }
        elements := .ofList [("number", {})] }),
     ("top",
      { attributes := { superName := some "middle" }
        elements := .ofList [("state", { typeName := "integer" })] })]

/-- The lowest one of them. -/
def Table.child : Table := { name := "child", superName := some " middle " }

/-- The nearer one of the two above it. -/
def Table.middle : Table := { name := "middle", superName := some "top", scope := some "x_app" }

theorem chainsAgree_of_valid_mutualParents :
    let r := Snapshot.mutualParents.repository
    let complete := (render .scoped [Table.child, .middle] { repository := r } {}).document
    (Snapshot.mutualParents.violation? = none ∧
        (∀ table ∈ [Table.child, .middle], table ∈ r.allTables) ∧
        Table.child ∈ [Table.child, .middle]) ∧
      ChainsAgree r .scoped [.child, .middle] .child ∧
      ∃ second base, NamesSuper .scoped [.child, .middle] complete .child second base := by
  intro r complete
  have hvalid : Snapshot.mutualParents.violation? = none := by decide +kernel
  have htables : ∀ table ∈ [Table.child, .middle], table ∈ r.allTables := by decide +kernel
  have hchild : Table.child ∈ [Table.child, .middle] := List.mem_cons_self
  have hagree := chainsAgree_of_valid hvalid .scoped htables hchild
  obtain ⟨_, _, second, _, base, -, -, hnames⟩ :=
    hagree.super (by decide +kernel) (by decide +kernel)
  exact ⟨⟨hvalid, htables, hchild⟩, hagree, second, base, hnames⟩

/-- A table that is called like a type of the platform, and another one without a super table. -/
def Snapshot.besidePlatformNamed : Snapshot where
  tables := .ofList [("GlideRecord", {}), ("task", {})]

/-- The record type of the other table is built on that of the first one, which its interface does
not extend. -/
theorem not_namesSuper_besidePlatformNamed :
    let r := Snapshot.besidePlatformNamed.repository
    let complete := (render .scoped r.allTables { repository := r } {}).document
    let task : Table := { name := "task" }
    Snapshot.besidePlatformNamed.violation? = none ∧ task ∈ r.allTables ∧
      ∃ record own second interface base,
        (Stands .scoped r.allTables complete .records task (.alias record) ∧
          record.value = .intersection own second) ∧
        (Stands .scoped r.allTables complete .fields task (.interface interface) ∧
          interface.base = some base) ∧
        RefersToTable .scoped r.allTables complete .global .records second
          { name := "GlideRecord" } ∧
        (∀ upper, ¬ RefersToTable .scoped r.allTables complete .global .fields base upper) ∧
        ¬ NamesSuper .scoped r.allTables complete task second base := by
  intro r complete task
  have hvalid : Snapshot.besidePlatformNamed.violation? = none := by decide +kernel
  have hs : r.Selects r.allTables := Snapshot.selects hvalid fun _ ht => ht
  have htask : task ∈ r.allTables := by decide +kernel
  have hcalled : ({ name := "GlideRecord" } : Table) ∈ r.allTables := by decide +kernel
  have hcomplete : complete = r.document .scoped r.allTables := document_render r .scoped _
  have hnosuper : (r.superTable? task).filter (· ∈ r.allTables) = none := by decide +kernel
  have hsecond : RefersToTable .scoped r.allTables complete .global .records
      ((r.superTarget r.allTables .records task globalTypes.record).reference .scoped .global
        .records) { name := "GlideRecord" } := by
    -- the name of the type is that of a declaration in the same namespace
    have hway : Clear .scoped r.allTables .global .records
        (.declared .records { name := "GlideRecord" }) := by decide +kernel
    rw [hcomplete, Repository.superTarget, hnosuper]
    exact ⟨_, (stands_iff hs.rows hcalled).mpr rfl,
      refersTo_of_clear hs (rendered_groupOf htask) hcalled hway⟩
  have hbase : ∀ upper, ¬ RefersToTable .scoped r.allTables complete .global .fields
      ((r.superTarget r.allTables .fields task globalTypes.fields).reference .scoped .global
        .fields) upper := by
    intro upper hupper
    have hway : Clear .scoped r.allTables .global .fields (.platform globalTypes.fields) := by
      decide +kernel
    rw [hcomplete, Repository.superTarget, hnosuper] at hupper
    obtain ⟨item, -, hrefers⟩ := hupper
    exact not_refersTo_of_clear hs.rows (rendered_groupOf htask)
      (not_isNamespace_platform Group.global.platformTypes.fields_mem_names) hway _ _ hrefers
  refine ⟨hvalid, htask, _, _, _, _, _,
    ⟨hcomplete ▸ (stands_iff hs.rows htask).mpr rfl, value_recordAlias hs htask⟩,
    ⟨hcomplete ▸ (stands_iff hs.rows htask).mpr rfl, base_fieldsInterface hs⟩, hsecond, hbase,
    fun h => ?_⟩
  exact hbase _ ((h.same _).mp hsecond)

end Ambient
