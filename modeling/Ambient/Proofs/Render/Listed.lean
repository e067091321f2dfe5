import Ambient.Command.List
import Ambient.Proofs.Document.Outline
import Ambient.Proofs.Scoping.Usable
import Ambient.Proofs.Selection.Faithful

/-!
# What is listed is what is rendered

The list of groups says what the text declares. `layout` is the outline that the list
promises, group by group and table by table, and it is the outline that the text of
the complete document has. Nothing is known of the text but that its names are names; that
its groups and tables are the listed ones comes from the document.
-/

namespace Ambient

open TypeScript (Item LegibleItems Mark isIdentifier legibleItems_iff marksOf marksOf_append outline
  typeName)

/-! ## The outline of a list -/

/-- Blocks of lines with a blank line between two of them. -/
def separated (blocks : List (List Mark)) : List Mark := [Mark.blank].intercalate blocks

/-- A namespace that declares one type for each table. -/
def namespaceMarks (keyword name : String) (declares : String → Mark) (tables : List String) :
    List Mark :=
  .opens keyword name :: separated (tables.map fun table => [declares (typeName table)])
    ++ [.closes]

/-- The outline of a listed group. -/
def GroupListing.marks (group : GroupListing) : List Mark :=
  if group.name = globalScope then
    separated
      [namespaceMarks "declare namespace" "$$GlideRecord" .type group.tables,
       namespaceMarks "declare namespace" "$$GlideElement" .type group.tables,
       namespaceMarks "declare namespace" "$$tableFields" .interface group.tables]
  else
    .opens "declare namespace" group.name ::
      separated
        [namespaceMarks "export namespace" "record" .type group.tables,
         namespaceMarks "export namespace" "element" .type group.tables,
         namespaceMarks "export namespace" "fields" .interface group.tables]
      ++ [.closes]

/-- The outline that a list promises. -/
def layout (groups : List GroupListing) : List Mark :=
  separated (groups.map GroupListing.marks)

example : layout [⟨"x_app", ["class", "task"]⟩] =
    [.opens "declare namespace" "x_app",
      .opens "export namespace" "record", .type "_class", .blank, .type "task", .closes, .blank,
      .opens "export namespace" "element", .type "_class", .blank, .type "task", .closes, .blank,
      .opens "export namespace" "fields",
        .interface "_class", .blank, .interface "task", .closes,
      .closes] := by decide

theorem separated_cons (block : List Mark) (blocks : List (List Mark)) :
    separated (block :: blocks) = block ++ blocks.flatMap (Mark.blank :: ·) := by
  unfold separated
  induction blocks generalizing block with
  | nil => simp
  | cons next blocks ih =>
    rw [List.intercalate_cons_cons, ih, List.flatMap_cons, List.append_assoc]
    rfl

theorem marksOf_singleton (item : Item) : marksOf [item] = item.marks := by
  rw [marksOf, marksOf, List.append_nil]

theorem marksOf_intersperse (items : List Item) :
    marksOf (items.intersperse .blank) = separated (items.map Item.marks) := by
  cases items with
  | nil => rfl
  | cons item items =>
    rw [PassM.intersperse_cons, marksOf, List.map_cons, separated_cons]
    congr 1
    induction items with
    | nil => rfl
    | cons next items ih =>
      rw [List.flatMap_cons, marksOf_append, ih, List.map_cons, List.flatMap_cons, marksOf,
        marksOf_singleton]
      rfl

/-! ## The outline of a document -/

section Document

variable {r : Repository} {site : Site} {tables : List Table}

/-- What declares a type in one of the three namespaces. -/
def NamespaceKind.declares : NamespaceKind → String → Mark
  | .records | .elements => .type
  | .fields => .interface

theorem marks_declaration (kind : NamespaceKind) (table : Table) :
    (r.declaration site kind table).marks = [kind.declares (typeName table.name)] := by
  cases kind <;> rfl

theorem marks_kindNamespace (kind : NamespaceKind) :
    (r.kindNamespace site tables kind).marks =
      namespaceMarks site.group.namespaceKeyword (site.group.namespaceName kind) kind.declares
        (tables.map (·.name)) := by
  rw [Repository.kindNamespace, Item.marks, marksOf_intersperse, List.map_map, namespaceMarks,
    List.map_map]
  congr 3
  exact List.map_congr_left fun table _ => marks_declaration kind table

theorem marksOf_passesDocument :
    marksOf (r.passesDocument site tables) =
      separated ([NamespaceKind.records, .elements, .fields].map fun kind =>
        namespaceMarks site.group.namespaceKeyword (site.group.namespaceName kind) kind.declares
          (tables.map (·.name))) := by
  have hpasses : r.passesDocument site tables =
      ([NamespaceKind.records, .elements, .fields].map
        (r.kindNamespace site tables)).intersperse .blank := rfl
  rw [hpasses, marksOf_intersperse, List.map_map]
  exact congrArg separated (List.map_congr_left fun kind _ => marks_kindNamespace kind)

/-- How a group is listed. -/
def listing (group : Group) (members : List Table) : GroupListing where
  name := group.listedName
  tables := members.map (·.name)

/-- The key of a scope is not the name that the global group is listed under. -/
theorem listedName_eq_globalScope {group : Group} (hkey : group ≠ .scoped globalScope) :
    group.listedName = globalScope ↔ group = .global := by
  match group with
  | .global => exact iff_of_true rfl rfl
  | .scoped key =>
    refine iff_of_false (fun heq => hkey ?_) nofun
    rw [show key = globalScope from heq]

theorem marksOf_groupDocument (hkey : site.group ≠ .scoped globalScope) :
    marksOf (r.groupDocument site tables) = (listing site.group tables).marks := by
  have hcomments : ∀ headers : List (List String), marksOf (headers.map .comment) = [] := by
    intro headers
    induction headers with
    | nil => rfl
    | cons header headers ih => exact ih
  have hpasses : marksOf (r.passesDocument site tables) = _ := marksOf_passesDocument
  have hglobal := listedName_eq_globalScope hkey
  unfold GroupListing.marks
  obtain ⟨_ | key, index⟩ := site
  · exact hpasses.trans (if_pos (hglobal.mpr rfl)).symm
  · refine Eq.trans ?_ (if_neg fun heq => nomatch hglobal.mp heq).symm
    show marksOf (List.map _ _ ++ [_]) = _
    rw [marksOf_append, hcomments, marksOf_singleton, Item.marks, hpasses]
    rfl

theorem marksOf_groupsDocument (index : TableIndex) (begun : Bool)
    {groups : List (Group × List Table)} (hkeys : ∀ entry ∈ groups, entry.1 ≠ .scoped globalScope) :
    marksOf (r.groupsDocument index begun groups) =
      let listings := groups.map fun entry => (listing entry.1 entry.2).marks
      if begun then listings.flatMap (Mark.blank :: ·) else separated listings := by
  induction groups generalizing begun with
  | nil => cases begun <;> rfl
  | cons entry rest ih =>
    obtain ⟨hkey, hrest⟩ := List.forall_mem_cons.mp hkeys
    have hgroup : marksOf (r.groupDocument ⟨entry.1, index⟩ entry.2) = _ :=
      marksOf_groupDocument hkey
    rw [Repository.groupsDocument, marksOf_append, marksOf_append, hgroup, ih true hrest]
    cases begun with
    | false => exact (separated_cons _ _).symm
    | true => rfl

end Document

/-! ## Names are names -/

section Selected

variable {r : Repository} {mode : RenderMode} {tables : List Table} {table : Table}

theorem legible_declaration (hs : r.Selects tables) (ht : table ∈ tables) (kind : NamespaceKind) :
    (r.declaration ⟨mode.groupOf table, .ofTables mode tables⟩ kind table).Legible := by
  let site : Site := ⟨mode.groupOf table, .ofTables mode tables⟩
  have hname : isIdentifier (typeName table.name) = true :=
    TypeScript.isIdentifier_typeName (hs.named.table (hs.known ht))
  -- every segment of a reference that is written is the name of something
  have hwritten : ∀ reference : TypeScript.Reference,
      ([], reference) ∈ (r.declaration site kind table).written [] → reference.Legible := by
    intro reference href segment hsegment
    rw [written_declaration mode hs ht, List.mem_map] at href
    obtain ⟨target, htarget, heq⟩ := href
    rw [← (Prod.mk.inj heq).2] at hsegment
    exact ((origin_of_mem_segments (proper_of_mem_targets hs ht htarget) hsegment).usable hs).1
  cases kind with
  | records => exact ⟨hname, fun reference href => hwritten reference (List.mem_map_of_mem href)⟩
  | elements => exact ⟨hname, fun reference href => hwritten reference (List.mem_map_of_mem href)⟩
  | fields =>
    let interface := r.fieldsInterface site table
    have hreference : ∀ reference ∈ interface.base.toList ++ interface.properties.map (·.type),
        reference.Legible :=
      fun reference href => hwritten reference (List.mem_map_of_mem href)
    refine ⟨hname, fun base hbase => hreference base ?_, fun p hp => ⟨?_, hreference p.type ?_⟩⟩
    · exact List.mem_append_left _ (Option.mem_toList.mpr hbase)
    · obtain ⟨element, -, -, hpname, -⟩ := written_of_mem_properties hp
      exact ⟨element.name, hpname⟩
    · exact List.mem_append_right _ (List.mem_map_of_mem hp)

theorem legible_intersperse {items : List Item} (h : ∀ item ∈ items, item.Legible) :
    LegibleItems (items.intersperse .blank) := by
  refine legibleItems_iff.mpr ?_
  cases items with
  | nil => exact nofun
  | cons first items =>
    obtain ⟨hfirst, hitems⟩ := List.forall_mem_cons.mp h
    rw [PassM.intersperse_cons]
    refine List.forall_mem_cons.mpr ⟨hfirst, fun item hitem => ?_⟩
    obtain ⟨next, hnext, hitem⟩ := List.mem_flatMap.mp hitem
    rcases List.mem_cons.mp hitem with rfl | hitem
    · exact trivial
    · exact List.mem_singleton.mp hitem ▸ hitems next hnext

theorem legible_groupDocument (hs : r.Selects tables) {group : Group} {members : List Table}
    (hpart : (group, members) ∈ partition mode tables) :
    LegibleItems (r.groupDocument ⟨group, .ofTables mode tables⟩ members) := by
  have hkeyword : group.namespaceKeyword ∈ ["declare namespace", "export namespace"] := by
    match group with
    | .global => exact List.mem_cons_self
    | .scoped key => exact List.mem_cons_of_mem _ List.mem_cons_self
  have hkind : ∀ kind,
      (r.kindNamespace ⟨group, .ofTables mode tables⟩ members kind).Legible := by
    intro kind
    refine ⟨hkeyword, (usable_namespaceName group kind).1, legible_intersperse fun item hitem => ?_⟩
    obtain ⟨table, hmem, rfl⟩ := List.mem_map.mp hitem
    obtain ⟨ht, rfl⟩ := mem_of_mem_members hpart hmem
    exact legible_declaration hs ht kind
  have hpasses : LegibleItems
      (r.passesDocument ⟨group, .ofTables mode tables⟩ members) :=
    ⟨hkind .records, trivial, hkind .elements, trivial, hkind .fields, trivial⟩
  match group with
  | .global => exact hpasses
  | .scoped key =>
    obtain ⟨table, ht, hgroup⟩ := rendered_iff.mpr ⟨members, hpart⟩
    have hkey := hs.named.scope (hs.known ht) (RenderMode.scopeKey?_of_groupOf hgroup)
    refine legibleItems_iff.mpr fun item hitem => ?_
    rcases List.mem_append.mp hitem with hitem | hitem
    · obtain ⟨header, -, rfl⟩ := List.mem_map.mp hitem
      exact trivial
    · rw [List.mem_singleton.mp hitem]
      exact ⟨List.mem_cons_self, hkey, hpasses⟩

theorem legible_document (hs : r.Selects tables) (mode : RenderMode) :
    LegibleItems (r.document mode tables) := by
  have hgroups : ∀ (groups : List (Group × List Table)) (begun : Bool),
      (∀ entry ∈ groups, entry ∈ partition mode tables) →
        LegibleItems (r.groupsDocument (.ofTables mode tables) begun groups) := by
    intro groups
    induction groups with
    | nil => exact fun _ _ => trivial
    | cons entry rest ih =>
      intro begun hentries
      obtain ⟨hentry, hrest⟩ := List.forall_mem_cons.mp hentries
      have hgroup := legibleItems_iff.mp (legible_groupDocument hs hentry)
      refine legibleItems_iff.mpr fun item hitem => ?_
      rcases List.mem_append.mp hitem with hitem | hitem
      · rcases List.mem_append.mp hitem with hitem | hitem
        · cases begun with
          | false => exact absurd hitem List.not_mem_nil
          | true => exact List.mem_singleton.mp hitem ▸ trivial
        · exact hgroup item hitem
      · exact legibleItems_iff.mp (ih true hrest) item hitem
  exact hgroups _ false fun _ hentry => hentry

end Selected

/-! ## The list and the text -/

/-- No table is in a scope that is listed as the global group is. -/
theorem ne_scoped_globalScope {mode : RenderMode} {tables members : List Table} {group : Group}
    (hpart : (group, members) ∈ partition mode tables) : group ≠ .scoped globalScope := by
  rintro rfl
  obtain ⟨table, -, hgroup⟩ := rendered_iff.mpr ⟨members, hpart⟩
  have hkey := RenderMode.scopeKey?_of_groupOf hgroup
  exact absurd rfl (of_decide_eq_true (Option.filter_eq_some_iff.mp hkey).2)

theorem listedName_injOn {a b : Group} (ha : a ≠ .scoped globalScope)
    (hb : b ≠ .scoped globalScope) (h : a.listedName = b.listedName) : a = b := by
  match a, b with
  | .global, _ => exact ((listedName_eq_globalScope hb).mp h.symm).symm
  | _, .global => exact (listedName_eq_globalScope ha).mp h
  | .scoped key, .scoped other => exact congrArg Group.scoped h

/-- **The list of groups and the text describe one layout.**

Whatever is selected from a valid snapshot, the outline of its complete text is the one that its
list of groups promises. The groups are listed under different names, and the tables of a group
are. -/
theorem outline_eq_layout {snapshot : Snapshot} (hvalid : snapshot.violation? = none)
    (mode : RenderMode) (names : List String) :
    let connection : Connection := { repository := snapshot.repository }
    ∀ tables session, selectTables names connection {} = (.ok tables, session) →
      ∃ groups summary, (listGroups mode names connection {}).1 = .ok groups ∧
        (render mode tables connection session).result = .ok summary ∧
        summary.cancelled = false ∧
        outline (render mode tables connection session).document.text = layout groups ∧
        (groups.map (·.name)).Nodup ∧ ∀ group ∈ groups, group.tables.Nodup := by
  intro connection tables session hselect
  have hquiet : connection.Quiet := snapshot.repository.quiet
  have hs : snapshot.repository.Selects tables :=
    Repository.selects_of_selectTables (c := connection) (Snapshot.wellNamed hvalid) hselect
  have hcalm : session.cancelled = false := by
    have hcalm : (selectTables names connection {}).2.cancelled = false :=
      calm_of_selectTables hquiet rfl
    rw [hselect] at hcalm
    exact hcalm
  have hkeys : ∀ entry ∈ partition mode tables, entry.1 ≠ .scoped globalScope :=
    fun entry hentry => ne_scoped_globalScope hentry
  obtain ⟨hdocument, hresult⟩ := render_of_quiet mode tables hquiet hcalm
  refine ⟨(partition mode tables).map fun entry => listing entry.1 entry.2, _, ?_, hresult, rfl,
    ?_, ?_, fun group hgroup => ?_⟩
  · rw [listGroups, Task.bind_of_ok hselect]
    rfl
  · rw [hdocument, TypeScript.outline_text (legible_document hs mode), layout, List.map_map]
    exact marksOf_groupsDocument _ false hkeys
  · rw [List.map_map]
    have hgroups := Repository.nodup_partition mode tables
    refine List.pairwise_map.mpr ((List.pairwise_map.mp hgroups).imp_of_mem ?_)
    exact fun ha hb hne heq => hne (listedName_injOn (hkeys _ ha) (hkeys _ hb) heq)
  · obtain ⟨entry, hentry, rfl⟩ := List.mem_map.mp hgroup
    obtain ⟨group, -, heq⟩ := List.mem_map.mp hentry
    rw [← heq]
    exact nodup_names_firstRows _

/-- Two tables without a scope of their own, and one with a scope. -/
def Snapshot.sideBySide : Snapshot where
  tables := .ofList
    [("incident", { attributes := { superName := some "task", scope := some "  " } }),
     ("task", { attributes := { scope := some " global" } }),
     ("x_item", { attributes := { scope := some " x_app " } })]

theorem outline_eq_layout_sideBySide :
    let connection : Connection := { repository := Snapshot.sideBySide.repository }
    let tables := Snapshot.sideBySide.repository.allTables
    Snapshot.sideBySide.violation? = none ∧ selectTables [] connection {} = (.ok tables, {}) ∧
      outline (render .scoped tables connection {}).document.text =
        layout [⟨"global", ["incident", "task"]⟩, ⟨"x_app", ["x_item"]⟩] := by
  intro connection tables
  have hvalid : Snapshot.sideBySide.violation? = none := by decide +kernel
  have hlisted : (listGroups .scoped [] connection {}).1 =
      .ok [⟨"global", ["incident", "task"]⟩, ⟨"x_app", ["x_item"]⟩] := by rfl
  obtain ⟨groups, summary, hlist, -, -, houtline, -⟩ :=
    outline_eq_layout hvalid .scoped [] tables {} rfl
  rw [hlisted] at hlist
  rw [Except.ok.inj hlist]
  exact ⟨hvalid, rfl, houtline⟩

end Ambient
