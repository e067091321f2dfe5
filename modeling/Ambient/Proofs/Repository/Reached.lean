import Ambient.Proofs.Inheritance.Acyclic

/-!
# What is reached on a chain

The chain from a table goes up until it comes to a table already met. Nothing is lost
by that as long as what is met is closed: where a table is met, so is its super table
(`MetClosed`). A chain keeps it so, and then visits exactly the tables that are
reached from its start and were not met before, whatever cycles there are.
-/

namespace Ambient

open LookupM (leftUnmet)
open Relation (ReflTransGen)

namespace Repository

/-- `upper` is reached from `lower` by zero or more steps to a super table that is known. -/
def Reaches (r : Repository) : Table → Table → Prop :=
  ReflTransGen fun lower upper => r.superTable? lower = some upper

/-- Where a known table is met, so is its super table. -/
def MetClosed (r : Repository) (unmet : List String) : Prop :=
  ∀ table ∈ r.allTables, ∀ parent, r.superTable? table = some parent →
    table.name ∉ unmet → parent.name ∉ unmet

variable {r : Repository} {unmet : List String} {current table : Table} {name : String}

theorem known_of_reaches (hcurrent : current ∈ r.allTables) (h : r.Reaches current table) :
    table ∈ r.allTables := by
  induction h with
  | refl => exact hcurrent
  | tail _ hstep _ => exact (superTable?_eq_some_iff.mp hstep).2

/-- What is reached from a table that is met is met. -/
theorem MetClosed.reaches (hclosed : r.MetClosed unmet) (hcurrent : current ∈ r.allTables)
    (hmet : current.name ∉ unmet) (h : r.Reaches current table) : table.name ∉ unmet := by
  induction h with
  | refl => exact hmet
  | tail hreached hstep ih => exact hclosed _ (known_of_reaches hcurrent hreached) _ hstep ih

/-- Where nothing is met, what is met is closed. -/
theorem metClosed_keys (r : Repository) : r.MetClosed r.tables.keys :=
  fun _ htable _ _ hmet => absurd (mem_keys_of_mem_allTables htable) hmet

theorem nodup_keys (r : Repository) : r.tables.keys.Nodup :=
  r.tables.nodup_keys

/-! ## Along a chain -/

theorem mem_leftUnmet {visited : List Table} (hnodup : unmet.Nodup) :
    name ∈ leftUnmet unmet visited ↔ name ∈ unmet ∧ ∀ table ∈ visited, table.name ≠ name := by
  induction visited generalizing unmet with
  | nil => simp [leftUnmet]
  | cons first visited ih =>
    have hleft : leftUnmet unmet (first :: visited) =
        leftUnmet (unmet.erase first.name) visited := rfl
    rw [hleft, ih (hnodup.erase _), hnodup.mem_erase_iff, List.forall_mem_cons, ne_comm]
    constructor
    · rintro ⟨⟨hne, hmem⟩, hrest⟩
      exact ⟨hmem, hne, hrest⟩
    · rintro ⟨hmem, hne, hrest⟩
      exact ⟨⟨hne, hmem⟩, hrest⟩

theorem nodup_leftUnmet {visited : List Table} (hnodup : unmet.Nodup) :
    (leftUnmet unmet visited).Nodup := by
  induction visited generalizing unmet with
  | nil => exact hnodup
  | cons first visited ih => exact ih (hnodup.erase first.name)

/-- On a chain are tables that were not met before and are reached from its start. -/
theorem reaches_of_mem_chainFrom (h : table ∈ r.chainFrom unmet current) :
    table.name ∈ unmet ∧ r.Reaches current table := by
  induction unmet, current using Repository.chainFrom.induct r with
  | case1 unmet current hmet hsuper =>
    rw [chainFrom_of_top hmet hsuper, List.mem_singleton] at h
    rw [h]
    exact ⟨hmet, .refl⟩
  | case2 unmet current hmet parent hsuper ih =>
    rw [chainFrom_of_super hmet hsuper] at h
    rcases List.mem_cons.mp h with rfl | h
    · exact ⟨hmet, .refl⟩
    · obtain ⟨hmem, hreached⟩ := ih h
      exact ⟨List.mem_of_mem_erase hmem, .head hsuper hreached⟩
  | case3 unmet current hmet =>
    rw [chainFrom_of_met hmet] at h
    exact absurd h List.not_mem_nil

/-- No name comes twice on a chain. -/
theorem nodup_chainFrom (hnodup : unmet.Nodup) :
    ((r.chainFrom unmet current).map (·.name)).Nodup := by
  induction unmet, current using Repository.chainFrom.induct r with
  | case1 unmet current hmet hsuper =>
    rw [chainFrom_of_top hmet hsuper]
    exact List.pairwise_singleton _ _
  | case2 unmet current hmet parent hsuper ih =>
    rw [chainFrom_of_super hmet hsuper, List.map_cons, List.nodup_cons]
    refine ⟨fun hmem => ?_, ih (hnodup.erase _)⟩
    obtain ⟨above, habove, hname⟩ := List.mem_map.mp hmem
    have hunmet := (reaches_of_mem_chainFrom habove).1
    rw [hname] at hunmet
    exact hnodup.not_mem_erase hunmet
  | case3 unmet current hmet =>
    rw [chainFrom_of_met hmet]
    exact List.nodup_nil

/-- After a chain its start is met, and so is the super table of every table on it. -/
theorem met_after_chainFrom (hnodup : unmet.Nodup) :
    current.name ∉ leftUnmet unmet (r.chainFrom unmet current) ∧
      ∀ table ∈ r.chainFrom unmet current, ∀ parent, r.superTable? table = some parent →
        parent.name ∉ leftUnmet unmet (r.chainFrom unmet current) := by
  induction unmet, current using Repository.chainFrom.induct r with
  | case1 unmet current hmet hsuper =>
    rw [chainFrom_of_top hmet hsuper]
    refine ⟨hnodup.not_mem_erase, fun table htable parent hparent => ?_⟩
    rw [List.mem_singleton.mp htable, hsuper] at hparent
    exact absurd hparent.symm (Option.some_ne_none parent)
  | case2 unmet current hmet above hsuper ih =>
    have hrest := ih (hnodup.erase _)
    rw [chainFrom_of_super hmet hsuper]
    have hleft : leftUnmet unmet (current :: r.chainFrom (unmet.erase current.name) above) =
        leftUnmet (unmet.erase current.name) (r.chainFrom (unmet.erase current.name) above) := rfl
    rw [hleft]
    constructor
    · intro hmem
      exact hnodup.not_mem_erase ((mem_leftUnmet (hnodup.erase _)).mp hmem).1
    · intro table htable parent hparent
      rcases List.mem_cons.mp htable with rfl | htable
      · rw [hsuper] at hparent
        exact Option.some.inj hparent ▸ hrest.1
      · exact hrest.2 table htable parent hparent
  | case3 unmet current hmet =>
    rw [chainFrom_of_met hmet]
    exact ⟨hmet, fun table htable => absurd htable List.not_mem_nil⟩

/-- What is met after a chain and was not before stands on the chain. -/
theorem mem_chainFrom_of_met (hnodup : unmet.Nodup) (hcurrent : current ∈ r.allTables)
    (htable : table ∈ r.allTables) (hbefore : table.name ∈ unmet)
    (hafter : table.name ∉ leftUnmet unmet (r.chainFrom unmet current)) :
    table ∈ r.chainFrom unmet current := by
  by_cases hon : table ∈ r.chainFrom unmet current
  · exact hon
  · refine absurd ((mem_leftUnmet hnodup).mpr ⟨hbefore, fun other hother hname => ?_⟩) hafter
    have hknown := (reached_of_mem_chainFrom hcurrent hother).1
    have heq : other = table := oneRowEach_of_subset (fun _ h => h) hknown htable hname
    exact hon (heq ▸ hother)

/-- **A chain keeps closed what is met.** -/
theorem MetClosed.leftUnmet (hclosed : r.MetClosed unmet) (hnodup : unmet.Nodup)
    (hcurrent : current ∈ r.allTables) :
    r.MetClosed (leftUnmet unmet (r.chainFrom unmet current)) := by
  intro table htable parent hparent hmet hleft
  by_cases hbefore : table.name ∈ unmet
  · have hon := mem_chainFrom_of_met hnodup hcurrent htable hbefore hmet
    exact (met_after_chainFrom hnodup).2 table hon parent hparent hleft
  · have hunmet := ((mem_leftUnmet hnodup).mp hleft).1
    exact hclosed table htable parent hparent hbefore hunmet

/-- **On a chain stands exactly what is reached from its start and was not met before.** -/
theorem mem_chainFrom_iff (hclosed : r.MetClosed unmet) (hnodup : unmet.Nodup)
    (hcurrent : current ∈ r.allTables) :
    table ∈ r.chainFrom unmet current ↔ table.name ∈ unmet ∧ r.Reaches current table := by
  constructor
  · exact reaches_of_mem_chainFrom
  · rintro ⟨hunmet, hreached⟩
    have hmet := (hclosed.leftUnmet hnodup hcurrent).reaches hcurrent
      (met_after_chainFrom hnodup).1 hreached
    exact mem_chainFrom_of_met hnodup hcurrent (known_of_reaches hcurrent hreached) hunmet hmet

end Repository

end Ambient
