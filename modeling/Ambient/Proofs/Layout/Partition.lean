import Ambient.Proofs.Layout.Bindings
import Ambient.Render.Partition
import Ambient.Repository.Basic

/-!
# Groups and the index of what they declare

Where every name has one row, the partition puts each table into the group of its
scope and nowhere else, and the index knows of each table just that group and the
super table that the table names.
-/

namespace Ambient

/-- No two different rows are called by one name. -/
def OneRowEach (tables : List Table) : Prop :=
  ∀ {a b : Table}, a ∈ tables → b ∈ tables → a.name = b.name → a = b

/-! ## The partition -/

theorem mem_sortGroups {groups : List Group} {group : Group} :
    group ∈ sortGroups groups ↔ group ∈ groups := by
  unfold sortGroups
  rw [List.mem_append, List.mem_map]
  match group with
  | .global =>
    constructor
    · rintro (h | ⟨key, -, h⟩)
      · by_cases hglobal : Group.global ∈ groups
        · exact hglobal
        · rw [if_neg hglobal] at h
          exact absurd h List.not_mem_nil
      · exact nomatch h
    · intro h
      rw [if_pos h]
      exact .inl List.mem_cons_self
  | .scoped key =>
    have hkey : key ∈ sortNames (groups.filterMap Group.key?) ↔ Group.scoped key ∈ groups := by
      rw [mem_sortNames, List.mem_filterMap]
      constructor
      · rintro ⟨group, hmem, hgroup⟩
        match group, hgroup with
        | .scoped other, hgroup => exact Option.some.inj hgroup ▸ hmem
      · exact fun h => ⟨.scoped key, h, rfl⟩
    constructor
    · rintro (h | ⟨other, hmem, h⟩)
      · split at h
        · exact absurd (List.mem_singleton.mp h) nofun
        · exact absurd h List.not_mem_nil
      · exact hkey.mp (Group.scoped.inj h ▸ hmem)
    · exact fun h => .inr ⟨key, hkey.mpr h, rfl⟩

theorem nodup_sortGroups (groups : List Group) : (sortGroups groups).Nodup := by
  unfold sortGroups
  refine List.nodup_append.mpr ⟨?_, ?_, ?_⟩
  · split
    · exact List.nodup_cons.mpr ⟨List.not_mem_nil, List.nodup_nil⟩
    · exact List.nodup_nil
  · exact List.pairwise_map.mpr ((nodup_sortNames _).imp fun hne heq => hne (Group.scoped.inj heq))
  · intro a ha b hb
    obtain ⟨key, -, rfl⟩ := List.mem_map.mp hb
    split at ha
    · rw [List.mem_singleton.mp ha]
      exact nofun
    · exact absurd ha List.not_mem_nil

theorem mem_firstRows {rows : List Table} {table : Table} :
    table ∈ firstRows rows ↔ rows.find? (·.name == table.name) = some table := by
  have hget : ∀ name, (NameMap.ofListFirst (rows.map fun row => (row.name, row))).get? name =
      rows.find? (·.name == name) := by
    intro name
    rw [NameMap.get?_ofListFirst, List.find?_map, Option.map_map]
    exact Option.map_id'
  rw [firstRows, NameMap.mem_values_iff]
  simp only [hget]
  constructor
  · rintro ⟨name, h⟩
    have hname : table.name = name := by simpa using List.find?_some h
    rw [hname]
    exact h
  · exact fun h => ⟨table.name, h⟩

theorem exists_mem_firstRows {rows : List Table} {table : Table} (h : table ∈ rows) :
    ∃ row ∈ firstRows rows, row.name = table.name := by
  have hfound := (List.find?_isSome (p := fun row : Table => row.name == table.name)).mpr
    ⟨table, h, beq_self_eq_true table.name⟩
  obtain ⟨row, hrow⟩ := Option.isSome_iff_exists.mp hfound
  have hname : row.name = table.name :=
    beq_iff_eq.mp (List.find?_some (p := fun row : Table => row.name == table.name) hrow)
  exact ⟨row, mem_firstRows.mpr (hname ▸ hrow), hname⟩

/-- The rows that are kept come in strict name order. -/
theorem pairwise_name_firstRows (rows : List Table) :
    (firstRows rows).Pairwise fun a b => a.name < b.name := by
  have hkeys : ∀ entry ∈ (NameMap.ofListFirst (rows.map fun row => (row.name, row))).entries,
      entry.2.name = entry.1 := by
    intro entry hentry
    have hget := NameMap.mem_entries_iff.mp hentry
    rw [NameMap.get?_ofListFirst, List.find?_map, Option.map_map] at hget
    obtain ⟨row, hrow, hvalue⟩ := Option.map_eq_some_iff.mp hget
    rw [← hvalue]
    simpa using List.find?_some hrow
  -- the entries are sorted by name, and a row is entered under its own
  refine List.pairwise_map.mpr ((NameMap.sorted _).imp_of_mem fun ha hb hlt => ?_)
  rw [hkeys _ ha, hkeys _ hb]
  exact hlt

theorem nodup_names_firstRows (rows : List Table) : ((firstRows rows).map (·.name)).Nodup :=
  List.pairwise_map.mpr ((pairwise_name_firstRows rows).imp String.ne_of_lt)

theorem nodup_firstRows (rows : List Table) : (firstRows rows).Nodup :=
  (List.pairwise_map.mp (nodup_names_firstRows rows)).imp fun hne heq =>
    hne (congrArg Table.name heq)

section Partition

variable {mode : RenderMode} {tables : List Table} {group : Group} {members : List Table}
  {table : Table}

theorem mem_partition :
    (group, members) ∈ partition mode tables ↔
      group ∈ tables.map mode.groupOf ∧
        members = firstRows (tables.filter (mode.groupOf · = group)) := by
  unfold partition
  rw [List.mem_map]
  constructor
  · rintro ⟨other, hmem, h⟩
    obtain ⟨rfl, rfl⟩ := Prod.mk.inj h
    exact ⟨mem_sortGroups.mp hmem, rfl⟩
  · rintro ⟨hmem, rfl⟩
    exact ⟨group, mem_sortGroups.mpr hmem, rfl⟩

/-- A group has one entry in the partition. -/
theorem members_unique {members' : List Table} (h : (group, members) ∈ partition mode tables)
    (h' : (group, members') ∈ partition mode tables) : members = members' :=
  (mem_partition.mp h).2.trans (mem_partition.mp h').2.symm

theorem nodup_members (h : (group, members) ∈ partition mode tables) : members.Nodup := by
  rw [(mem_partition.mp h).2]
  exact nodup_firstRows _

/-- A group is there because of a table in it. -/
theorem members_ne_nil (h : (group, members) ∈ partition mode tables) : members ≠ [] := by
  obtain ⟨hgroup, rfl⟩ := mem_partition.mp h
  obtain ⟨table, ht, hgroupOf⟩ := List.mem_map.mp hgroup
  have hmem : table ∈ tables.filter (mode.groupOf · = group) :=
    List.mem_filter.mpr ⟨ht, decide_eq_true hgroupOf⟩
  obtain ⟨row, hrow, -⟩ := exists_mem_firstRows hmem
  exact List.ne_nil_of_mem hrow

/-- A group holds one row for each name among its tables. -/
theorem mem_map_name_members (h : (group, members) ∈ partition mode tables) {name : String} :
    name ∈ members.map (·.name) ↔ ∃ table ∈ tables, mode.groupOf table = group ∧
      table.name = name := by
  rw [(mem_partition.mp h).2, List.mem_map]
  constructor
  · rintro ⟨row, hrow, rfl⟩
    obtain ⟨ht, hgroup⟩ := List.mem_filter.mp (List.mem_of_find?_eq_some (mem_firstRows.mp hrow))
    exact ⟨row, ht, of_decide_eq_true hgroup, rfl⟩
  · rintro ⟨table, ht, hgroup, rfl⟩
    exact exists_mem_firstRows (List.mem_filter.mpr ⟨ht, decide_eq_true hgroup⟩)

theorem map_fst_partition (mode : RenderMode) (tables : List Table) :
    (partition mode tables).map Prod.fst = sortGroups (tables.map mode.groupOf) := by
  unfold partition
  rw [List.map_map]
  exact List.map_id _

/-- What a group holds are tables of the group. -/
theorem mem_of_mem_members (h : (group, members) ∈ partition mode tables) (ht : table ∈ members) :
    table ∈ tables ∧ mode.groupOf table = group := by
  rw [(mem_partition.mp h).2, mem_firstRows] at ht
  have := List.mem_filter.mp (List.mem_of_find?_eq_some ht)
  exact ⟨this.1, of_decide_eq_true this.2⟩

/-- A table stands in its group. -/
theorem exists_members (mode : RenderMode) (hrows : OneRowEach tables) (ht : table ∈ tables) :
    ∃ members, (mode.groupOf table, members) ∈ partition mode tables ∧ table ∈ members := by
  refine ⟨_, mem_partition.mpr ⟨List.mem_map_of_mem ht, rfl⟩, mem_firstRows.mpr ?_⟩
  have hmem : table ∈ tables.filter (mode.groupOf · = mode.groupOf table) :=
    List.mem_filter.mpr ⟨ht, decide_eq_true rfl⟩
  refine find?_eq_some_of_unique hmem (beq_self_eq_true _) fun other hother hname => ?_
  exact hrows (List.mem_filter.mp hother).1 ht (beq_iff_eq.mp hname)

theorem mem_members_iff (hrows : OneRowEach tables)
    (h : (group, members) ∈ partition mode tables) :
    table ∈ members ↔ table ∈ tables ∧ mode.groupOf table = group := by
  constructor
  · exact mem_of_mem_members h
  · rintro ⟨ht, rfl⟩
    obtain ⟨members', h', ht'⟩ := exists_members mode hrows ht
    exact members_unique h h' ▸ ht'

end Partition

/-! ## The index -/

namespace TableIndex

/-- The index of what the groups of a partition declare. -/
def ofTables (mode : RenderMode) (tables : List Table) : TableIndex :=
  ofGroups (partition mode tables)

/-- The rows of all groups, each with its group, in the order in which they are recorded. -/
def groupedRows (groups : List (Group × List Table)) : List (Table × Group) :=
  groups.flatMap fun (group, members) => members.map (·, group)

theorem ofGroups_eq_foldl (groups : List (Group × List Table)) :
    ofGroups groups =
      (groupedRows groups).foldl (fun index row => index.insert row.1 row.2) {} := by
  unfold ofGroups groupedRows
  rw [List.foldl_flatMap]
  simp only [List.foldl_map]

/-- Of several rows of one name the last one recorded counts. -/
theorem get?_foldl_insert (rows : List (Table × Group)) (index : TableIndex) (name : String) :
    (rows.foldl (fun index row => index.insert row.1 row.2) index).entries.get? name =
      ((rows.reverse.find? (·.1.name == name)).map fun row =>
        { group := row.2, superName := row.1.superName? }).or (index.entries.get? name) := by
  induction rows generalizing index with
  | nil => rfl
  | cons row rest ih =>
    rw [List.foldl_cons, ih, insert, NameMap.get?_insert, List.reverse_cons, List.find?_append]
    by_cases h : row.1.name = name
    · cases rest.reverse.find? (·.1.name == name) <;> simp [h]
    · cases rest.reverse.find? (·.1.name == name) <;> simp [h]

section OfTables

variable {mode : RenderMode} {tables : List Table} {table : Table} {name : String}
  {entry : IndexEntry}

/-- What the index knows, it knows of a table. -/
theorem exists_of_get? (h : (ofTables mode tables).entries.get? name = some entry) :
    ∃ table ∈ tables, table.name = name ∧
      entry = { group := mode.groupOf table, superName := table.superName? } := by
  rw [ofTables, ofGroups_eq_foldl, get?_foldl_insert] at h
  rcases Option.or_eq_some_iff.mp h with h | ⟨-, h⟩
  · obtain ⟨⟨table, group⟩, hfind, rfl⟩ := Option.map_eq_some_iff.mp h
    have hmem := List.mem_reverse.mp (List.mem_of_find?_eq_some hfind)
    obtain ⟨⟨group', members⟩, hpart, hrow⟩ := List.mem_flatMap.mp hmem
    obtain ⟨table', ht', heq⟩ := List.mem_map.mp hrow
    obtain ⟨rfl, rfl⟩ := Prod.mk.inj heq
    obtain ⟨ht, rfl⟩ := mem_of_mem_members hpart ht'
    exact ⟨table', ht, by simpa using List.find?_some hfind, rfl⟩
  · exact nomatch h

theorem get?_ofTables (hrows : OneRowEach tables) (ht : table ∈ tables) :
    (ofTables mode tables).entries.get? table.name =
      some { group := mode.groupOf table, superName := table.superName? } := by
  obtain ⟨members, hpart, hmem⟩ := exists_members mode hrows ht
  have hrow : (table, mode.groupOf table) ∈ groupedRows (partition mode tables) :=
    List.mem_flatMap.mpr ⟨_, hpart, List.mem_map_of_mem hmem⟩
  have hsome : ((groupedRows (partition mode tables)).reverse.find?
      (·.1.name == table.name)).isSome :=
    List.find?_isSome.mpr ⟨_, List.mem_reverse.mpr hrow, beq_self_eq_true _⟩
  obtain ⟨row, hfind⟩ := Option.isSome_iff_exists.mp hsome
  have hget : (ofTables mode tables).entries.get? table.name =
      some { group := row.2, superName := row.1.superName? } := by
    rw [ofTables, ofGroups_eq_foldl, get?_foldl_insert, hfind]
    rfl
  -- the row that is found may be another one, but not of another table
  obtain ⟨table', ht', hname, hentry⟩ := exists_of_get? hget
  rw [hget, hentry, hrows ht' ht hname]

theorem contains_ofTables (hrows : OneRowEach tables) :
    (ofTables mode tables).contains name = true ↔ ∃ table ∈ tables, table.name = name := by
  rw [contains, NameMap.contains_eq_isSome_get?, Option.isSome_iff_exists]
  constructor
  · rintro ⟨entry, h⟩
    obtain ⟨table, ht, hname, -⟩ := exists_of_get? h
    exact ⟨table, ht, hname⟩
  · rintro ⟨table, ht, rfl⟩
    exact ⟨_, get?_ofTables hrows ht⟩

theorem groupOf?_ofTables (hrows : OneRowEach tables) (ht : table ∈ tables) :
    (ofTables mode tables).groupOf? table.name = some (mode.groupOf table) := by
  rw [groupOf?, get?_ofTables hrows ht]
  rfl

/-- How a place refers to a declaration of a table: by the name alone in the same namespace, from
the group's own namespace in the same group, and from the top level elsewhere. -/
theorem qualify_ofTables (hrows : OneRowEach tables) (ht : table ∈ tables) (source : Group)
    (within target : NamespaceKind) :
    (ofTables mode tables).qualify source within target table.name =
      some ⟨(if mode.groupOf table = source then
          if within = target then [] else [source.namespaceName target]
        else (mode.groupOf table).enclosing?.toList ++ [(mode.groupOf table).namespaceName target])
        ++ [TypeScript.typeName table.name]⟩ := by
  rw [qualify, groupOf?_ofTables hrows ht, Option.map_some]
  by_cases hgroup : mode.groupOf table = source
  · by_cases hwithin : within = target
    · simp [hgroup, hwithin]
    · simp [hgroup, hwithin]
  · simp [hgroup]

end OfTables

end TableIndex

end Ambient
