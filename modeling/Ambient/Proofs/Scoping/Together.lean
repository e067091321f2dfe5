import Ambient.Proofs.Layout.Recorded
import Ambient.Proofs.Scoping.Names
import Mathlib.Data.List.Infix

/-!
# The declarations of a table together

The record type of a table is built on the interface of its fields, and its element
type on both. All three stand in the group of the table, and so the references
between them should stay there. They do unless a later group has a table of the same
name: the index is keyed by the name alone and knows the last group only.
-/

namespace Ambient

open TypeScript (Alias Document Item Reference itemsAt typeName)

/-! ## Where references lead -/

namespace TypeScript

def Item.namespaceName? : Item → Option String
  | .namespace _ name _ => some name
  | _ => none

/-- The names of the namespaces that stand at a place. -/
def namespacesAt (place : List String) (document : Document) : List String :=
  (itemsAt place document).filterMap Item.namespaceName?

/-- The innermost of the places around `place`, that one included, where a namespace is called
`name`. -/
def namespaceHome? (document : Document) (place : List String) (name : String) :
    Option (List String) :=
  place.inits.reverse.find? fun outer => name ∈ namespacesAt outer document

/-- The namespace in which the last name of a reference is meant that is written at `place`. The
names before it are those of namespaces, so types that are called like them do not matter. -/
def leadsTo? (document : Document) (place : List String) (reference : Reference) :
    Option (List String) :=
  match reference.segments.dropLast with
  | [] => none
  | first :: path => (namespaceHome? document place first).map (· ++ first :: path)

theorem gathers_namespacesAt (place : List String) : Gathers (namespacesAt place) :=
  gathers_filterMap_itemsAt rfl (fun _ => rfl) place

theorem namespaceHome?_outer (document : Document) (outer name : String) :
    namespaceHome? document [outer] name =
      if name ∈ namespacesAt [outer] document then some [outer]
      else if name ∈ namespacesAt [] document then some [] else none := by
  show List.find? _ [[outer], []] = _
  by_cases h : name ∈ namespacesAt [outer] document
  · simp [h]
  · by_cases htop : name ∈ namespacesAt [] document <;> simp [h, htop]

theorem namespaceHome?_inner (document : Document) (outer inner name : String) :
    namespaceHome? document [outer, inner] name =
      if name ∈ namespacesAt [outer, inner] document then some [outer, inner]
      else namespaceHome? document [outer] name := by
  show List.find? _ [[outer, inner], [outer], []] = _
  rw [List.find?_cons]
  by_cases h : name ∈ namespacesAt [outer, inner] document
  · rw [decide_eq_true h, if_pos h]
  · rw [decide_eq_false h, if_neg h]
    rfl

/-- A reference whose path begins in a known home. -/
theorem leadsTo?_of_home {document : Document} {place home : List String} {first last : String}
    (path : List String) (h : namespaceHome? document place first = some home) :
    leadsTo? document place ⟨first :: path ++ [last]⟩ = some (home ++ first :: path) := by
  simp only [leadsTo?, List.dropLast_concat, h, Option.map_some]

/-- Wherever a path leads, it ends with its own names. -/
theorem suffix_of_leadsTo? {document : Document} {place path target : List String} {last : String}
    (h : leadsTo? document place ⟨path ++ [last]⟩ = some target) : path <:+ target := by
  simp only [leadsTo?, List.dropLast_concat] at h
  cases path with
  | nil => exact nomatch h
  | cons first path =>
    obtain ⟨home, -, rfl⟩ := Option.map_eq_some_iff.mp h
    exact List.suffix_append home (first :: path)

end TypeScript

open TypeScript (leadsTo? namespaceHome? namespacesAt)

/-! ## The namespaces of a complete document -/

section Namespaces

variable {r : Repository} {mode : RenderMode} {tables : List Table} {group : Group}

theorem namespacesAt_declarations {site : Site} {kind : NamespaceKind} (place : List String) :
    namespacesAt place ((r.declarations site kind tables).intersperse .blank) = [] := by
  rw [(TypeScript.gathers_namespacesAt place).intersperse]
  refine List.flatMap_eq_nil_iff.mpr fun item hitem => ?_
  obtain ⟨table, -, rfl⟩ := List.mem_map.mp hitem
  cases place with
  | nil => cases kind <;> rfl
  | cons name place =>
    rw [namespacesAt, itemsAt, List.flatMap_singleton, Repository.bodyOf_declaration,
      TypeScript.itemsAt_nil, List.filterMap_nil]

/-- The three namespaces of a group hold no further ones. -/
theorem namespacesAt_passes_inside {site : Site} (name : String) (place : List String) :
    namespacesAt (name :: place) (r.passesDocument site tables) = [] := by
  rw [namespacesAt, Repository.itemsAt_passes, List.filterMap_flatMap]
  refine List.flatMap_eq_nil_iff.mpr fun kind _ => ?_
  split
  · exact namespacesAt_declarations place
  · rfl

theorem mem_namespacesAt_passes {site : Site} {name : String} :
    name ∈ namespacesAt [] (r.passesDocument site tables) ↔ site.group.IsNamespace name := by
  have hnames : namespacesAt [] (r.passesDocument site tables) =
      TypeScript.namesAt [] (r.passesDocument site tables) := rfl
  rw [hnames, Repository.mem_namesAt_passes]

theorem mem_namespacesAt_top {name : String} (h : Rendered mode tables .global)
    (hname : Group.global.IsNamespace name) :
    name ∈ namespacesAt [] (r.document mode tables) := by
  obtain ⟨members, hpart⟩ := rendered_iff.mp h
  rw [Repository.gather_document (TypeScript.gathers_namespacesAt [])]
  exact List.mem_flatMap.mpr ⟨_, hpart, mem_namespacesAt_passes.mpr hname⟩

/-- In a namespace at the top level stand the three namespaces of a scope, or none. -/
theorem mem_namespacesAt_outer {outer name : String} :
    name ∈ namespacesAt [outer] (r.document mode tables) ↔
      Rendered mode tables (.scoped outer) ∧ (Group.scoped outer).IsNamespace name := by
  rw [Repository.gather_document (TypeScript.gathers_namespacesAt [outer]), List.mem_flatMap,
    rendered_iff]
  constructor
  · rintro ⟨⟨_ | key, members⟩, hpart, hname⟩
    · have hnone : namespacesAt [outer]
          (r.passesDocument ⟨.global, .ofTables mode tables⟩ members) = [] :=
        namespacesAt_passes_inside outer []
      exact absurd (hnone ▸ hname) List.not_mem_nil
    · rw [namespacesAt, Repository.itemsAt_scopedDocument] at hname
      by_cases hkey : key = outer
      · subst hkey
        rw [if_pos rfl] at hname
        exact ⟨⟨members, hpart⟩, mem_namespacesAt_passes.mp hname⟩
      · rw [if_neg hkey] at hname
        exact absurd hname List.not_mem_nil
  · rintro ⟨⟨members, hpart⟩, hname⟩
    refine ⟨_, hpart, ?_⟩
    rw [namespacesAt, Repository.itemsAt_scopedDocument, if_pos rfl]
    exact mem_namespacesAt_passes.mpr hname

theorem namespacesAt_inner (outer inner : String) :
    namespacesAt [outer, inner] (r.document mode tables) = [] := by
  rw [Repository.gather_document (TypeScript.gathers_namespacesAt [outer, inner])]
  refine List.flatMap_eq_nil_iff.mpr fun entry _ => ?_
  obtain ⟨_ | key, members⟩ := entry
  · exact namespacesAt_passes_inside outer [inner]
  · rw [namespacesAt, Repository.itemsAt_scopedDocument]
    split
    · exact namespacesAt_passes_inside inner []
    · rfl

/-! ## References within a group -/

/-- From one namespace of a group to another one leads the name of the other one. -/
theorem leadsTo?_beside (hrendered : Rendered mode tables group) (within kind : NamespaceKind)
    (last : String) :
    leadsTo? (r.document mode tables) (group.place within) ⟨[group.namespaceName kind] ++ [last]⟩ =
      some (group.place kind) := by
  match group with
  | .global =>
    have houter : Group.global.namespaceName kind ∉
        namespacesAt [Group.global.namespaceName within] (r.document mode tables) := fun h =>
      Group.not_isNamespace_global _ kind (mem_namespacesAt_outer.mp h).2
    have hhome := TypeScript.namespaceHome?_outer (r.document mode tables)
      (Group.global.namespaceName within) (Group.global.namespaceName kind)
    rw [if_neg houter, if_pos (mem_namespacesAt_top hrendered ⟨kind, rfl⟩)] at hhome
    exact TypeScript.leadsTo?_of_home [] hhome
  | .scoped key =>
    have hinner : (Group.scoped key).namespaceName kind ∉
        namespacesAt [key, (Group.scoped key).namespaceName within] (r.document mode tables) := by
      rw [namespacesAt_inner]
      exact List.not_mem_nil
    have houter : (Group.scoped key).namespaceName kind ∈
        namespacesAt [key] (r.document mode tables) :=
      mem_namespacesAt_outer.mpr ⟨hrendered, kind, rfl⟩
    have hhome := TypeScript.namespaceHome?_inner (r.document mode tables) key
      ((Group.scoped key).namespaceName within) ((Group.scoped key).namespaceName kind)
    rw [if_neg hinner, TypeScript.namespaceHome?_outer, if_pos houter] at hhome
    exact TypeScript.leadsTo?_of_home [] hhome

/-- What ends with the place of a scope's namespace is no place of a group before the scope. -/
theorem Group.eq_of_place_suffix {a b : Group} {kind : NamespaceKind} (hab : ¬ a < b)
    (h : a.place kind <:+ b.place kind) : a = b := by
  match a, b with
  | .global, .global => rfl
  | .global, .scoped key => exact absurd trivial hab
  | .scoped key, .global =>
    have hlength : 2 ≤ 1 := h.length_le
    exact absurd hlength (by decide)
  | .scoped key, .scoped other =>
    have heq := h.eq_of_length rfl
    exact congrArg Group.scoped (List.cons.inj heq).1

/-- How the declarations of a table refer to each other: as to those of the last group that has a
table of that name. -/
theorem ownReference_eq_of_last {last : Group} {name : String}
    (hlast : (TableIndex.ofTables mode tables).groupOf? name = some last)
    {within kind : NamespaceKind} (hkind : within ≠ kind) :
    Site.ownReference ⟨group, .ofTables mode tables⟩ within kind name =
      ⟨(if last = group then [group.namespaceName kind] else last.place kind)
        ++ [typeName name]⟩ := by
  rw [Site.ownReference, Site.reference, TableIndex.qualify, hlast, Option.map_some]
  by_cases h : last = group
  · subst h
    rw [if_pos rfl, if_neg hkind, if_pos rfl]
    rfl
  · rw [if_neg h, if_neg h, Group.place, List.append_assoc]
    rfl

/-- Such a reference stays in the group just if no later group has a table of that name. -/
theorem leadsTo?_ownReference_iff {last : Group} {name : String}
    (hrendered : Rendered mode tables group)
    (hlast : (TableIndex.ofTables mode tables).groupOf? name = some last) (hlt : ¬ last < group)
    {within kind : NamespaceKind} (hkind : within ≠ kind) :
    leadsTo? (r.document mode tables) (group.place within)
        (Site.ownReference ⟨group, .ofTables mode tables⟩ within kind name) =
      some (group.place kind) ↔ last = group := by
  rw [ownReference_eq_of_last hlast hkind]
  constructor
  · intro h
    by_contra hne
    rw [if_neg hne] at h
    exact hne (Group.eq_of_place_suffix hlt (TypeScript.suffix_of_leadsTo? h))
  · rintro rfl
    rw [if_pos rfl]
    exact leadsTo?_beside hrendered within kind _

end Namespaces

/-! ## Tables -/

section Tables

variable (mode : RenderMode) (tables : List Table) (document : Document) (table : Table)

/-- Written in namespace `within` of the group of `table`, the reference is one to what stands for
`table` in namespace `kind` of that group. -/
def RefersToOwn (within kind : NamespaceKind) (reference : Reference) : Prop :=
  leadsTo? document ((mode.groupOf table).place within) reference =
      some ((mode.groupOf table).place kind) ∧
    ∃ item, Stands mode tables document kind table item ∧
      item.name? = reference.segments.getLast?

/-- The declarations of a table refer to each other. -/
structure Together : Prop where
  record : ∃ a fields base, Stands mode tables document .records table (.alias a) ∧
    a.value = .intersection fields base ∧
    RefersToOwn mode tables document table .records .fields fields
  element : ∃ a head fields record, Stands mode tables document .elements table (.alias a) ∧
    a.value = .applied head fields record ∧
    RefersToOwn mode tables document table .elements .fields fields ∧
    RefersToOwn mode tables document table .elements .records record

end Tables

section Rendered

variable {r : Repository} {mode : RenderMode} {tables members : List Table} {table : Table}

theorem refersToOwn_iff (hpart : (mode.groupOf table, members) ∈ partition mode tables)
    (hmem : table ∈ members) (within kind : NamespaceKind) (hkind : within ≠ kind) :
    RefersToOwn mode tables (r.document mode tables) table within kind
        (Site.ownReference ⟨mode.groupOf table, .ofTables mode tables⟩ within kind table.name) ↔
      ∀ row ∈ tables, row.name = table.name → ¬ mode.groupOf table < mode.groupOf row := by
  obtain ⟨ht, -⟩ := mem_of_mem_members hpart hmem
  obtain ⟨last, hlast, ⟨row, hrow, hname, hgroup⟩, hlatest⟩ :=
    TableIndex.groupOf?_ofTables_last mode ht
  have hleads := leadsTo?_ownReference_iff (r := r) (rendered_iff.mpr ⟨members, hpart⟩) hlast
    (hlatest table ht rfl) hkind
  rw [RefersToOwn, hleads]
  constructor
  · rintro ⟨rfl, -⟩
    exact hlatest
  · intro h
    refine ⟨?_, _, (stands_iff_of_mem hpart hmem).mpr rfl, ?_⟩
    · by_contra hne
      rcases Group.lt_or_gt_of_ne hne with hlt | hlt
      · exact hlatest table ht rfl hlt
      · exact h row hrow hname (hgroup ▸ hlt)
    · rw [Repository.name?_declaration, ownReference_eq_of_last hlast hkind]
      exact List.getLast?_concat.symm

/-- The declarations of a table are together just if no later group has a table of its name. -/
theorem together_iff (hpart : (mode.groupOf table, members) ∈ partition mode tables)
    (hmem : table ∈ members) :
    Together mode tables (r.document mode tables) table ↔
      ∀ row ∈ tables, row.name = table.name → ¬ mode.groupOf table < mode.groupOf row := by
  have hstands : ∀ kind item, Stands mode tables (r.document mode tables) kind table item ↔
      item = r.declaration ⟨mode.groupOf table, .ofTables mode tables⟩ kind table :=
    fun _ _ => stands_iff_of_mem hpart hmem
  have hrecord := refersToOwn_iff (r := r) hpart hmem .records .fields (by decide)
  have helement := refersToOwn_iff (r := r) hpart hmem .elements .fields (by decide)
  have helement' := refersToOwn_iff (r := r) hpart hmem .elements .records (by decide)
  constructor
  · rintro ⟨⟨a, fields, base, halias, hvalue, hrefers⟩, -⟩
    -- the alias that stands there is the one that is declared
    obtain rfl := Item.alias.inj ((hstands .records _).mp halias)
    obtain ⟨rfl, rfl⟩ := TypeScript.TypeExpr.intersection.inj hvalue
    exact hrecord.mp hrefers
  · intro h
    exact {
      record := ⟨_, _, _, (hstands .records _).mpr rfl, rfl, hrecord.mpr h⟩
      element := ⟨_, _, _, _, (hstands .elements _).mpr rfl, rfl, helement.mpr h,
        helement'.mpr h⟩ }

theorem all_together_iff :
    (∀ group members, (group, members) ∈ partition mode tables → ∀ table ∈ members,
        Together mode tables (r.document mode tables) table) ↔
      ∀ a ∈ tables, ∀ b ∈ tables, a.name = b.name → mode.groupOf a = mode.groupOf b := by
  constructor
  · intro h
    -- of two groups with a row of that name the earlier one is the one that is left
    have hnever : ∀ a ∈ tables, ∀ b ∈ tables, a.name = b.name →
        ¬ mode.groupOf a < mode.groupOf b := by
      intro a ha b hb hname
      obtain ⟨members, hpart⟩ := rendered_iff.mp ⟨a, ha, rfl⟩
      have hnamed := (mem_map_name_members hpart).mpr ⟨a, ha, rfl, rfl⟩
      obtain ⟨row, hrow, hsame⟩ := List.mem_map.mp hnamed
      obtain ⟨-, hgroup⟩ := mem_of_mem_members hpart hrow
      have htogether := h _ _ hpart row hrow
      rw [← hgroup] at hpart ⊢
      exact (together_iff hpart hrow).mp htogether b hb (hname.symm.trans hsame.symm)
    intro a ha b hb hname
    by_contra hne
    rcases Group.lt_or_gt_of_ne hne with hlt | hlt
    · exact hnever a ha b hb hname hlt
    · exact hnever b hb a ha hname.symm hlt
  · intro h group members hpart table hmem
    obtain ⟨ht, rfl⟩ := mem_of_mem_members hpart hmem
    refine (together_iff hpart hmem).mpr fun row hrow hname => ?_
    rw [h row hrow table ht hname]
    exact Group.lt_irrefl _

end Rendered

/-- **The declarations of a table belong together** in the last group that has a table of that name,
and in no group before it.

So they belong together throughout exactly if no name has rows in two groups: in global mode, and
wherever every name has one row. -/
theorem together_iff_no_later_group (r : Repository) (mode : RenderMode) (tables : List Table) :
    let complete := (render mode tables { repository := r } {}).document
    (∀ group members, (group, members) ∈ partition mode tables → ∀ table ∈ members,
        (Together mode tables complete table ↔
          ∀ row ∈ tables, row.name = table.name → ¬ group < mode.groupOf row)) ∧
      ((∀ group members, (group, members) ∈ partition mode tables → ∀ table ∈ members,
          Together mode tables complete table) ↔
        ∀ a ∈ tables, ∀ b ∈ tables, a.name = b.name → mode.groupOf a = mode.groupOf b) := by
  intro complete
  have hcomplete : complete = r.document mode tables := document_render r mode tables
  rw [hcomplete]
  refine ⟨fun group members hpart table hmem => ?_, all_together_iff⟩
  obtain ⟨-, rfl⟩ := mem_of_mem_members hpart hmem
  exact together_iff hpart hmem

/-- A row in scope `x_a`. -/
def Table.itemOfA : Table := { name := "item", scope := some "x_a" }

/-- A row of the same name in scope `x_b`. -/
def Table.itemOfB : Table := { name := "item", scope := some "x_b" }

/-- The declarations of the second row are together. -/
theorem together_iff_no_later_group_sameName :
    let tables := [Table.itemOfA, Table.itemOfB]
    let r := Snapshot.repository {}
    Together .scoped tables (render .scoped tables { repository := r } {}).document
      Table.itemOfB := by
  intro tables r
  have hpart : (Group.scoped "x_b", [Table.itemOfB]) ∈ partition .scoped tables := by
    decide +kernel
  have htogether := (together_iff_no_later_group r .scoped tables).1 _ _ hpart
  exact (htogether Table.itemOfB List.mem_cons_self).mpr (by decide +kernel)

/-- Those of the first row are built on the declarations of the second one. -/
theorem not_together_sameName :
    let tables := [Table.itemOfA, Table.itemOfB]
    let r := Snapshot.repository {}
    let complete := (render .scoped tables { repository := r } {}).document
    (∃ a, Stands .scoped tables complete .records Table.itemOfA (.alias a) ∧
        a.value = .intersection ⟨["x_b", "fields", "item"]⟩ (.named "ScopedGlideRecord")) ∧
      (∃ a, Stands .scoped tables complete .elements Table.itemOfA (.alias a) ∧
        a.value = .applied (.named "ScopedGlideReferenceElement")
          ⟨["x_b", "fields", "item"]⟩ ⟨["x_b", "record", "item"]⟩) ∧
      ¬ Together .scoped tables complete Table.itemOfA := by
  intro tables r complete
  have hcomplete : complete = r.document .scoped tables := document_render r .scoped tables
  have hpart : (Group.scoped "x_a", [Table.itemOfA]) ∈ partition .scoped tables := by
    decide +kernel
  have hmem : Table.itemOfA ∈ [Table.itemOfA] := List.mem_cons_self
  have hlater : Table.itemOfB ∈ tables ∧ Table.itemOfB.name = Table.itemOfA.name ∧
      Group.scoped "x_a" < RenderMode.scoped.groupOf Table.itemOfB := by decide +kernel
  rw [hcomplete]
  refine ⟨⟨_, (stands_iff_of_mem hpart hmem).mpr rfl, by decide +kernel⟩,
    ⟨_, (stands_iff_of_mem hpart hmem).mpr rfl, by decide +kernel⟩, fun h => ?_⟩
  exact (together_iff hpart hmem).mp h _ hlater.1 hlater.2.1 hlater.2.2

end Ambient
