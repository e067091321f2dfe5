import Ambient.Proofs.Layout.Partition

/-!
# The row that the index holds

Rows of one name may belong to different groups, and each of these groups declares
one of them. The index is keyed by the name alone. Groups are recorded in their
order, so what it holds of a name is the row of the last group that has one.
-/

namespace Ambient

/-! ## The order of the groups -/

namespace Group

theorem lt_irrefl (group : Group) : ¬ group < group :=
  match group with
  | .global => id
  | .scoped key => String.lt_irrefl key

theorem ne_of_lt {a b : Group} (h : a < b) : a ≠ b := fun heq => lt_irrefl b (heq ▸ h)

theorem lt_asymm {a b : Group} (h : a < b) : ¬ b < a :=
  match a, b, h with
  | .global, .scoped _, _ => id
  | .scoped _, .scoped _, h => String.lt_asymm h

theorem lt_or_gt_of_ne {a b : Group} (h : a ≠ b) : a < b ∨ b < a := by
  match a, b with
  | .global, .global => exact absurd rfl h
  | .global, .scoped _ => exact .inl trivial
  | .scoped _, .global => exact .inr trivial
  | .scoped key, .scoped other =>
    by_cases hlt : key < other
    · exact .inl hlt
    · refine .inr (Classical.byContradiction fun hgt => h (congrArg Group.scoped ?_))
      exact String.le_antisymm (String.not_lt.mp hgt) (String.not_lt.mp hlt)

end Group

theorem pairwise_sortGroups (groups : List Group) :
    (sortGroups groups).Pairwise fun a b : Group => a < b := by
  unfold sortGroups
  refine List.pairwise_append.mpr ⟨?_, ?_, ?_⟩
  · split
    · exact List.pairwise_singleton _ _
    · exact List.Pairwise.nil
  · exact List.pairwise_map.mpr (pairwise_sortNames _)
  · intro a ha b hb
    obtain ⟨key, -, rfl⟩ := List.mem_map.mp hb
    split at ha
    · rw [List.mem_singleton.mp ha]
      trivial
    · exact absurd ha List.not_mem_nil

theorem pairwise_fst_partition (mode : RenderMode) (tables : List Table) :
    (partition mode tables).Pairwise fun a b => a.1 < b.1 := by
  rw [← List.pairwise_map (R := fun a b : Group => a < b), map_fst_partition]
  exact pairwise_sortGroups _

/-! ## What is recorded last -/

namespace TableIndex

variable {tables : List Table}

/-- The rows are recorded group by group. -/
theorem pairwise_groupedRows (mode : RenderMode) (tables : List Table) :
    (groupedRows (partition mode tables)).Pairwise fun a b => ¬ b.2 < a.2 := by
  refine List.pairwise_flatMap.mpr ⟨?_, ?_⟩
  · intro entry _
    refine List.pairwise_map.mpr (List.pairwise_of_forall fun a b => Group.lt_irrefl _)
  · refine (pairwise_fst_partition mode tables).imp fun hlt a ha b hb => ?_
    obtain ⟨_, -, rfl⟩ := List.mem_map.mp ha
    obtain ⟨_, -, rfl⟩ := List.mem_map.mp hb
    exact Group.lt_asymm hlt

/-- Each group records a row for each name among its tables. -/
theorem exists_groupedRow (mode : RenderMode) {table : Table} (ht : table ∈ tables) :
    ∃ row ∈ groupedRows (partition mode tables),
      row.1.name = table.name ∧ row.2 = mode.groupOf table := by
  obtain ⟨members, hpart⟩ : ∃ members, (mode.groupOf table, members) ∈ partition mode tables :=
    ⟨_, mem_partition.mpr ⟨List.mem_map_of_mem ht, rfl⟩⟩
  have hname := (mem_map_name_members hpart).mpr ⟨table, ht, rfl, rfl⟩
  obtain ⟨row, hrow, hname⟩ := List.mem_map.mp hname
  exact ⟨(row, mode.groupOf table), List.mem_flatMap.mpr ⟨_, hpart, List.mem_map_of_mem hrow⟩,
    hname, rfl⟩

/-- The first one of a list in order is before all others that are looked for. -/
theorem not_lt_of_find? {α : Type} {r : α → α → Prop} {p : α → Bool} {items : List α} {first : α}
    (horder : items.Pairwise fun a b => ¬ r a b) (hirrefl : ∀ a, ¬ r a a)
    (hfind : items.find? p = some first) {item : α} (hitem : item ∈ items) (hp : p item) :
    ¬ r first item := by
  obtain ⟨-, before, after, rfl, hbefore⟩ := List.find?_eq_some_iff_append.mp hfind
  rcases List.mem_append.mp hitem with hmem | hmem
  · have hnot := hbefore item hmem
    rw [hp] at hnot
    exact absurd hnot nofun
  · rcases List.mem_cons.mp hmem with rfl | hmem
    · exact hirrefl item
    · exact (List.pairwise_cons.mp (List.pairwise_append.mp horder).2.1).1 item hmem

/-- **The index holds the last group of a name**: no row of that name belongs to a later one. -/
theorem groupOf?_ofTables_last (mode : RenderMode) {table : Table} (ht : table ∈ tables) :
    ∃ last, (ofTables mode tables).groupOf? table.name = some last ∧
      (∃ row ∈ tables, row.name = table.name ∧ mode.groupOf row = last) ∧
      ∀ row ∈ tables, row.name = table.name → ¬ last < mode.groupOf row := by
  let recorded := (groupedRows (partition mode tables)).reverse
  have horder : recorded.Pairwise fun a b => ¬ a.2 < b.2 :=
    List.pairwise_reverse.mpr (pairwise_groupedRows mode tables)
  have hrecorded : ∀ row ∈ tables, row.name = table.name →
      ∃ other ∈ recorded, (other.1.name == table.name) = true ∧ other.2 = mode.groupOf row := by
    intro row hrow hname
    obtain ⟨other, hother, hsame, hgroup⟩ := exists_groupedRow mode hrow
    exact ⟨other, List.mem_reverse.mpr hother, beq_iff_eq.mpr (hsame.trans hname), hgroup⟩
  obtain ⟨own, hown, hsame, -⟩ := hrecorded table ht rfl
  have hsome : (recorded.find? (·.1.name == table.name)).isSome :=
    List.find?_isSome.mpr ⟨own, hown, hsame⟩
  obtain ⟨found, hfind⟩ := Option.isSome_iff_exists.mp hsome
  have hget : (ofTables mode tables).entries.get? table.name =
      some { group := found.2, superName := found.1.superName? } := by
    rw [ofTables, ofGroups_eq_foldl, get?_foldl_insert, hfind]
    rfl
  obtain ⟨row, hrow, hname, hentry⟩ := exists_of_get? hget
  refine ⟨found.2, by rw [groupOf?, hget]; rfl,
    ⟨row, hrow, hname, (congrArg IndexEntry.group hentry).symm⟩, ?_⟩
  intro other hother hothername
  obtain ⟨later, hlater, hp, hgroup⟩ := hrecorded other hother hothername
  rw [← hgroup]
  exact not_lt_of_find? horder (fun row => Group.lt_irrefl row.2) hfind hlater hp

end TableIndex

end Ambient
