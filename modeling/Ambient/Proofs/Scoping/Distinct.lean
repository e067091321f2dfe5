import Ambient.Proofs.Scoping.Names
import Ambient.Proofs.TypeScript.Names
import Mathlib.Data.List.Nodup

/-!
# Types of one name

Tables have different names, and escaping keeps them apart with one exception: what a
reserved word is escaped to may be the name of another table. Two tables of a group are
declared under one name exactly if they are called like that.
-/

namespace Ambient

open TypeScript (Document EscapesTo Item itemsAt typeName typesAt)

namespace TypeScript

theorem nodup_map_typeName_iff {names : List String} (hnames : names.Nodup) :
    (names.map typeName).Nodup ↔
      ¬ ∃ word ∈ names, ∃ escaped ∈ names, EscapesTo word escaped := by
  rw [List.nodup_map_iff_inj_on hnames]
  constructor
  · rintro h ⟨word, hword, escaped, hescaped, hescapes⟩
    exact hescapes.ne (h word hword escaped hescaped hescapes.typeName_eq)
  · intro h a ha b hb heq
    rcases typeName_eq_iff.mp heq with rfl | hescapes | hescapes
    · rfl
    · exact absurd ⟨a, ha, b, hb, hescapes⟩ h
    · exact absurd ⟨b, hb, a, ha, hescapes⟩ h

/-- The names of the types that are declared at a place. -/
def typeNamesAt (place : List String) (document : Document) : List String :=
  (typesAt place document).filterMap Item.name?

end TypeScript

open TypeScript (typeNamesAt)

/-! ## Places with types -/

section Document

variable {r : Repository} {mode : RenderMode} {tables : List Table} {group : Group}

/-- A table of the group is called by a reserved word, and another one by what that is escaped
to. -/
def Collides (mode : RenderMode) (tables : List Table) (group : Group) : Prop :=
  ∃ a ∈ tables, ∃ b ∈ tables, mode.groupOf a = group ∧ mode.groupOf b = group ∧
    EscapesTo a.name b.name

theorem typesAt_of_not_rendered (h : ¬ Rendered mode tables group) (kind : NamespaceKind) :
    typesAt (group.place kind) (r.document mode tables) = [] := by
  rw [Repository.gather_document (TypeScript.gathers_typesAt _)]
  refine List.flatMap_eq_nil_iff.mpr fun entry hentry => ?_
  have hne : entry.1 ≠ group := fun heq => h (rendered_iff.mpr ⟨entry.2, heq ▸ hentry⟩)
  rw [Repository.typesAt_groupDocument, if_neg hne]

theorem typesAt_nil : typesAt [] (r.document mode tables) = [] := by
  rw [Repository.gather_document (TypeScript.gathers_typesAt _)]
  refine List.flatMap_eq_nil_iff.mpr fun entry _ => ?_
  rw [Repository.gather_groupDocument (TypeScript.gathers_typesAt _)]
  obtain ⟨_ | key, members⟩ := entry <;> rfl

theorem typesAt_of_not_isNamespace_global {outer : String} (h : ¬ Group.global.IsNamespace outer) :
    typesAt [outer] (r.document mode tables) = [] := by
  rw [Repository.gather_document (TypeScript.gathers_typesAt _)]
  refine List.flatMap_eq_nil_iff.mpr fun entry _ => ?_
  obtain ⟨_ | key, members⟩ := entry
  · show List.filter _ (itemsAt [outer] (r.passesDocument _ members)) = []
    rw [Repository.itemsAt_passes, List.flatMap_eq_nil_iff.mpr fun kind _ =>
      if_neg fun heq => h ⟨kind, heq⟩]
    rfl
  · rw [typesAt, Repository.itemsAt_scopedDocument]
    split <;> rfl

/-- Types stand in the namespaces of groups only. -/
theorem exists_place_of_typesAt_ne_nil {place : List String}
    (h : typesAt place (r.document mode tables) ≠ []) :
    ∃ group kind, place = Group.place group kind := by
  match place with
  | [] => exact absurd typesAt_nil h
  | [outer] =>
    by_cases houter : Group.global.IsNamespace outer
    · obtain ⟨kind, rfl⟩ := houter
      exact ⟨.global, kind, rfl⟩
    · exact absurd (typesAt_of_not_isNamespace_global houter) h
  | [outer, inner] =>
    by_cases hinner : (Group.scoped outer).IsNamespace inner
    · obtain ⟨kind, rfl⟩ := hinner
      exact ⟨.scoped outer, kind, rfl⟩
    · exact absurd (typesAt_of_not_isNamespace hinner) h
  | outer :: inner :: deep :: place => exact absurd (typesAt_deep outer inner deep place) h

/-! ## One group -/

theorem typeNamesAt_document {members : List Table}
    (h : (group, members) ∈ partition mode tables) (kind : NamespaceKind) :
    typeNamesAt (group.place kind) (r.document mode tables) =
      (members.map (·.name)).map typeName := by
  rw [typeNamesAt, Repository.typesAt_document h, Repository.declarations, List.map_map,
    List.filterMap_map]
  have hname : Item.name? ∘ r.declaration ⟨group, .ofTables mode tables⟩ kind =
      some ∘ typeName ∘ Table.name := funext (Repository.name?_declaration kind)
  rw [hname, List.filterMap_eq_map]

theorem nodup_typeNamesAt_iff (group : Group) (kind : NamespaceKind) :
    (typeNamesAt (group.place kind) (r.document mode tables)).Nodup ↔
      ¬ Collides mode tables group := by
  by_cases hrendered : Rendered mode tables group
  · obtain ⟨members, hpart⟩ := rendered_iff.mp hrendered
    have hnames : (members.map (·.name)).Nodup := by
      rw [(mem_partition.mp hpart).2]
      exact nodup_names_firstRows _
    rw [typeNamesAt_document hpart, TypeScript.nodup_map_typeName_iff hnames]
    simp only [mem_map_name_members hpart]
    refine not_congr ⟨?_, ?_⟩
    · rintro ⟨_, ⟨a, ha, hgroup, rfl⟩, _, ⟨b, hb, hgroup', rfl⟩, hescapes⟩
      exact ⟨a, ha, b, hb, hgroup, hgroup', hescapes⟩
    · rintro ⟨a, ha, b, hb, hgroup, hgroup', hescapes⟩
      exact ⟨_, ⟨a, ha, hgroup, rfl⟩, _, ⟨b, hb, hgroup', rfl⟩, hescapes⟩
  · rw [typeNamesAt, typesAt_of_not_rendered hrendered]
    refine iff_of_true List.nodup_nil ?_
    rintro ⟨a, ha, -, -, hgroup, -, -⟩
    exact hrendered ⟨a, ha, hgroup⟩

end Document

/-- **The types of a namespace have different names** unless a table of its group is called by a
reserved word and another one by what that word is escaped to.

So the names are different at every place if and only if no group has two such tables. -/
theorem nodup_typeNames_iff_not_collides (r : Repository) (mode : RenderMode)
    (tables : List Table) :
    let complete := (render mode tables { repository := r } {}).document
    (∀ group kind, (typeNamesAt (group.place kind) complete).Nodup ↔
        ¬ Collides mode tables group) ∧
      ((∀ place, (typeNamesAt place complete).Nodup) ↔ ∀ group, ¬ Collides mode tables group) := by
  intro complete
  have hcomplete : complete = r.document mode tables := document_render r mode tables
  rw [hcomplete]
  refine ⟨nodup_typeNamesAt_iff, ?_, ?_⟩
  · intro h group
    exact (nodup_typeNamesAt_iff group .records).mp (h (group.place .records))
  · intro h place
    by_cases htypes : typesAt place (r.document mode tables) = []
    · rw [typeNamesAt, htypes]
      exact List.nodup_nil
    · obtain ⟨group, kind, rfl⟩ := exists_place_of_typesAt_ne_nil htypes
      exact (nodup_typeNamesAt_iff group kind).mpr (h group)

/-- One table is called by a reserved word, the other by what that is escaped to. -/
def Snapshot.wordAndEscaped : Snapshot where
  tables := .ofList [("_string", {}), ("string", {})]

/-- Both tables of such a snapshot are declared under one name. -/
theorem not_nodup_wordAndEscaped :
    let r := Snapshot.wordAndEscaped.repository
    let complete := (render .scoped r.allTables { repository := r } {}).document
    Snapshot.wordAndEscaped.violation? = none ∧ r.allTables.length = 2 ∧
      ∀ kind, typeNamesAt (Group.global.place kind) complete = ["_string", "_string"] ∧
        ¬ (typeNamesAt (Group.global.place kind) complete).Nodup := by
  intro r complete
  have hcomplete : complete = r.document .scoped r.allTables := document_render r .scoped _
  have hpart : (Group.global, r.allTables) ∈ partition .scoped r.allTables := by decide +kernel
  have hnames : r.allTables.map (·.name) = ["_string", "string"] := by decide +kernel
  have hescaped : ["_string", "string"].map typeName = ["_string", "_string"] := by decide +kernel
  refine ⟨by decide +kernel, by decide +kernel, fun kind => ?_⟩
  rw [hcomplete, typeNamesAt_document hpart, hnames, hescaped]
  exact ⟨rfl, by decide⟩

end Ambient
