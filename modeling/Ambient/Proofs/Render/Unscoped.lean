import Ambient.Proofs.Layout.Canonical
import Ambient.Proofs.Render.Mirrored

/-!
# Scopes erased

The scope of a table decides where the table is declared, and nothing else is told from
it. In global mode its place is not told from it either, so there a repository without
scopes is rendered as the repository itself. And where no table has a scope, the two
modes are one: all tables share the global group.
-/

namespace Ambient

def TableAttributes.unscoped (attributes : TableAttributes) : TableAttributes :=
  { attributes with scope := none }

abbrev Table.unscoped : Table → Table := Table.rewrite TableAttributes.unscoped

/-- The snapshot whose tables have lost their scopes. -/
def Snapshot.unscoped (snapshot : Snapshot) : Snapshot :=
  { snapshot with
    tables := snapshot.tables.mapValues (TableEntry.rewrite TableAttributes.unscoped id) }

/-! ## What scopes are not looked at for -/

theorem Table.keepsLineage_unscoped : Table.KeepsLineage Table.unscoped where
  name _ := rfl
  superName? _ := rfl

theorem Table.rewrites_unscoped : Table.Rewrites .global Table.unscoped where
  toKeepsLineage := Table.keepsLineage_unscoped
  groupOf _ := rfl

theorem keepsDeclarations_unscoped : KeepsDeclarations TableAttributes.unscoped id where
  lineage := Table.keepsLineage_unscoped
  labelOrName _ := rfl
  package _ := rfl
  recordDoc _ _ := rfl
  typeName _ := rfl
  elementPackage _ := rfl
  elementDoc _ _ _ _ := rfl
  isExplicit _ := rfl
  disposition element counterpart := by
    have hid : Element.rewrite id = id := rfl
    rw [hid, Option.map_id_fun, id_eq, id_eq]
  fieldType _ _ _ := rfl

/-! ## The two modes -/

theorem partition_eq_of_groupOf {mode mode' : RenderMode} {tables : List Table}
    (h : ∀ table ∈ tables, mode'.groupOf table = mode.groupOf table) :
    partition mode' tables = partition mode tables := by
  unfold partition
  rw [List.map_congr_left h]
  refine List.map_congr_left fun group _ => ?_
  have hfilter : tables.filter (mode'.groupOf · = group) = tables.filter (mode.groupOf · = group) :=
    List.filter_congr fun table ht => by rw [h table ht]
  rw [hfilter]

/-- Without scopes, the place of a table is the same in every mode. -/
theorem partition_unscoped (tables : List Table) :
    partition .scoped (tables.map Table.unscoped) =
      partition .global (tables.map Table.unscoped) := by
  refine partition_eq_of_groupOf fun table ht => ?_
  obtain ⟨before, -, rfl⟩ := List.mem_map.mp ht
  rfl

/-! ## Validation -/

theorem TableEntry.violation?_unscoped {entry : TableEntry} {name : String}
    (h : entry.violation? name = none) :
    (entry.rewrite TableAttributes.unscoped id).violation? name = none := by
  have helements : (entry.rewrite TableAttributes.unscoped id).elementViolation? name =
      entry.elementViolation? name := by
    unfold elementViolation?
    show List.findSome? _ (NameMap.keys (NameMap.mapValues _ _)) = _
    rw [NameMap.keys_mapValues]
  unfold violation? at h ⊢
  simp only [Option.or_eq_none_iff] at h ⊢
  obtain ⟨⟨⟨hname, -⟩, hextends⟩, helement⟩ := h
  exact ⟨⟨⟨hname, rfl⟩, hextends⟩, helements.trans helement⟩

/-- A snapshot does not become invalid by losing scopes. -/
theorem Snapshot.violation?_unscoped {snapshot : Snapshot} (h : snapshot.violation? = none) :
    snapshot.unscoped.violation? = none := by
  unfold violation? at h ⊢
  obtain ⟨hscopes, htables⟩ := Option.or_eq_none_iff.mp h
  refine Option.or_eq_none_iff.mpr ⟨hscopes, ?_⟩
  show List.findSome? _ (List.map _ _) = _
  rw [List.findSome?_map]
  refine List.findSome?_eq_none_iff.mpr fun entry hentry => ?_
  exact TableEntry.violation?_unscoped (List.findSome?_eq_none_iff.mp htables entry hentry)

/-! ## Rendering -/

/-- **Global mode is scoped mode with the scopes erased.**

A valid snapshot stays valid without the scopes of its tables. On every connection, whatever it
cancels or fails, the same tables are selected from it, or the same error is met; and rendering
them in scoped mode comes to what rendering the tables themselves comes to in global mode: to the
same document and the same summary or failure, by as many lookups. -/
theorem global_eq_scoped_unscoped {snapshot : Snapshot} (hvalid : snapshot.violation? = none) :
    snapshot.unscoped.violation? = none ∧
      ∀ (c : Connection) (names : List String) (session : Session),
        let itself : Connection := { c with repository := snapshot.repository }
        let erased : Connection := { c with repository := snapshot.unscoped.repository }
        (∀ error left, selectTables names itself session = (.error error, left) →
          selectTables names erased session = (.error error, left)) ∧
        ∀ tables left, selectTables names itself session = (.ok tables, left) →
          ∃ unscoped, selectTables names erased session = (.ok unscoped, left) ∧
            render .scoped unscoped erased left = render .global tables itself left := by
  refine ⟨Snapshot.violation?_unscoped hvalid, ?_⟩
  intro c names session itself erased
  have hselect : selectTables names erased session =
      ((selectTables names itself session).1.map (List.map Table.unscoped),
        (selectTables names itself session).2) :=
    mirrors_selectTables_rewrite (g := id) Table.keepsLineage_unscoped names itself session
  refine ⟨fun error left herror => ?_, fun tables left htables => ?_⟩
  · rw [herror] at hselect
    exact hselect
  · rw [htables] at hselect
    have hselects := Repository.selects_of_selectTables (Snapshot.wellNamed hvalid) htables
    refine ⟨_, hselect, ?_⟩
    calc render .scoped (tables.map Table.unscoped) erased left
      _ = render .global (tables.map Table.unscoped) erased left :=
        render_eq_of_partition (partition_unscoped tables) erased left
      _ = render .global tables itself left :=
        render_rewritten keepsDeclarations_unscoped Table.rewrites_unscoped hselects itself left

/-- Tables of two scopes and of none, which extend one another and refer to one another. -/
def Snapshot.scattered : Snapshot where
  tables := .ofList
    [("incident",
      { attributes := { superName := some "task", scope := some "x_app", package := some "core" }
        elements := .ofList [("caller", { typeName := "reference", reference := some "user" })] }),
     ("task", { elements := .ofList [("number", { typeName := "string" })] }),
     ("user", { attributes := { superName := some "incident", scope := some "x_people" } })]

/-- The fifth lookup fails. -/
theorem global_eq_scoped_unscoped_scattered :
    let failure? : Nat → Lookup → Option LookupFailure := fun attempts _ =>
      if attempts = 4 then some ⟨"gone"⟩ else none
    Snapshot.scattered.violation? = none ∧ Snapshot.scattered.unscoped ≠ Snapshot.scattered ∧
      render .scoped Snapshot.scattered.unscoped.repository.allTables
          { repository := Snapshot.scattered.unscoped.repository, failure? } {} =
        render .global Snapshot.scattered.repository.allTables
          { repository := Snapshot.scattered.repository, failure? } {} := by
  intro failure?
  have hvalid : Snapshot.scattered.violation? = none := by decide +kernel
  obtain ⟨unscoped, hselect, hrender⟩ := ((global_eq_scoped_unscoped hvalid).2
    { repository := Snapshot.scattered.repository, failure? } [] {}).2
    Snapshot.scattered.repository.allTables {} rfl
  have hall : unscoped = Snapshot.scattered.unscoped.repository.allTables :=
    (Except.ok.inj (congrArg Prod.fst hselect)).symm
  rw [hall] at hrender
  exact ⟨hvalid, by decide +kernel, hrender⟩

end Ambient
