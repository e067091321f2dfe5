import Ambient.Command.List
import Ambient.Proofs.Repository.Mirrored
import Ambient.Proofs.Selection.Selected
import Ambient.Proofs.Snapshot.Trimmed

/-!
# Selecting from a rewritten repository

Walking up from a table leads through its rewritten super table, so the same tables are
selected from a rewritten repository, by the same lookups. From a trimmed one they are
listed in the same groups as well.
-/

namespace Ambient

open Ambient.Task (Mirrors mirrors_bind mirrors_map mirrors_pure mirrors_read mirrors_throw
  mirrors_within)

section Rewritten

variable {f : TableAttributes → TableAttributes} {g : ElementAttributes → ElementAttributes}
  (hf : Table.KeepsLineage (Table.rewrite f))

include hf

theorem SelectM.mirrors_chains (unmet names : List String) :
    Mirrors f g (List.map (Table.rewrite f)) (chains unmet names) (chains unmet names) := by
  induction names generalizing unmet with
  | nil => exact mirrors_pure (List.map (Table.rewrite f)) []
  | cons name names ih =>
    unfold chains
    refine mirrors_bind (mirrors_within (LookupM.mirrors_table name)) fun found => ?_
    cases found with
    | none => exact mirrors_throw _ (SelectError.unknownTable name)
    | some table =>
      have hclimb := LookupM.mirrors_climb (g := g) hf (mirrors_pure (Table.rewrite f)) unmet table
      exact mirrors_bind (mirrors_within hclimb) fun climbed =>
        mirrors_map (ih climbed.2) fun rest => List.map_append.symm

theorem byName_rewrite (tables : List Table) :
    byName (tables.map (Table.rewrite f)) = (byName tables).map (Table.rewrite f) := by
  unfold byName
  rw [map_named_rewritten hf, NameMap.ofList_map, NameMap.values_mapValues]

theorem mirrors_selectTables_rewrite (names : List String) :
    Mirrors f g (List.map (Table.rewrite f)) (selectTables names) (selectTables names) := by
  unfold selectTables
  by_cases hnames : names.isEmpty = true
  · rw [if_pos hnames]
    exact mirrors_within LookupM.mirrors_tables
  · rw [if_neg hnames]
    refine mirrors_read fun c => ?_
    have hkeys : (c.rewrite f g).repository.tables.keys = c.repository.tables.keys :=
      NameMap.keys_mapValues _ _
    rw [hkeys]
    exact mirrors_map (SelectM.mirrors_chains hf _ names) (byName_rewrite hf)

end Rewritten

/-! ## Trimmed repositories -/

theorem mirrors_selectTables (names : List String) :
    Mirrors TableAttributes.trimmed ElementAttributes.trimmed (List.map Table.trimmed)
      (selectTables names) (selectTables names) :=
  mirrors_selectTables_rewrite Table.keepsLineage_trimmed names

theorem mirrors_listGroups (mode : RenderMode) (names : List String) :
    Mirrors TableAttributes.trimmed ElementAttributes.trimmed id (listGroups mode names)
      (listGroups mode names) := by
  refine mirrors_map (mirrors_selectTables names) fun tables => ?_
  have hnames : ∀ members : List Table,
      (members.map Table.trimmed).map (·.name) = members.map (·.name) := fun members =>
    List.map_map
  rw [partition_rewritten (Table.rewrites_trimmed mode), List.map_map]
  exact List.map_congr_left fun entry _ => congrArg (GroupListing.mk _) (hnames entry.2)

end Ambient
