import Ambient.Proofs.Layout.Recorded
import Ambient.Proofs.Selection.Selected
import Ambient.Render.Generator

/-!
# The partition is canonical

Of a list of rows the partition keeps the first one of each group and name, and gives
them in strict order: the groups, and in each group the names. A list in strict order
is known by its members, so these facts leave no choice (`Partitions.unique`).

How the rows are ordered, or how often one of them is repeated, shows in the first rows
only. Where rows of one group and one name are equal there is nothing to be first among,
and a rendering, which sees the rows through their partition, is the same too.
-/

namespace Ambient

/-- The row that counts for a group and a name. -/
def firstRow? (mode : RenderMode) (rows : List Table) (group : Group) (name : String) :
    Option Table :=
  rows.find? fun row => mode.groupOf row = group ∧ row.name = name

/-- The groups are what the rows come to. -/
structure Partitions (mode : RenderMode) (rows : List Table)
    (groups : List (Group × List Table)) : Prop where
  /-- The global group comes first, the others follow by key. -/
  ordered : groups.Pairwise fun a b => a.1 < b.1
  inhabited : ∀ entry ∈ groups, entry.2 ≠ []
  sorted : ∀ entry ∈ groups, entry.2.Pairwise fun a b => a.name < b.name
  /-- Nothing is kept but the first row of a group and a name, and that one always is. -/
  kept : ∀ group row, (∃ members, (group, members) ∈ groups ∧ row ∈ members) ↔
    firstRow? mode rows group row.name = some row

/-- Rows of one group and one name are equal. -/
def OneRowInGroup (mode : RenderMode) (rows : List Table) : Prop :=
  ∀ {a b : Table}, a ∈ rows → b ∈ rows → mode.groupOf a = mode.groupOf b → a.name = b.name → a = b

section FirstRow

variable {mode : RenderMode} {rows rows' : List Table} {group : Group} {name : String} {row : Table}

theorem mem_of_firstRow? (h : firstRow? mode rows group name = some row) :
    row ∈ rows ∧ mode.groupOf row = group ∧ row.name = name := by
  exact ⟨List.mem_of_find?_eq_some h, by simpa using List.find?_some h⟩

theorem firstRow?_eq_some_iff (hrows : OneRowInGroup mode rows) :
    firstRow? mode rows group name = some row ↔
      row ∈ rows ∧ mode.groupOf row = group ∧ row.name = name := by
  refine ⟨mem_of_firstRow?, ?_⟩
  rintro ⟨hrow, rfl, rfl⟩
  refine find?_eq_some_of_unique hrow (by simp) fun other hother hsame => ?_
  have hagree := of_decide_eq_true hsame
  exact hrows hother hrow hagree.1 hagree.2

/-- Neither order nor repetition matters to what is first among equals. -/
theorem firstRow?_eq_of_mem_iff (hrows : OneRowInGroup mode rows)
    (hmem : ∀ row, row ∈ rows' ↔ row ∈ rows) (group : Group) (name : String) :
    firstRow? mode rows' group name = firstRow? mode rows group name := by
  have hrows' : OneRowInGroup mode rows' := fun ha hb =>
    hrows ((hmem _).mp ha) ((hmem _).mp hb)
  refine Option.ext fun row => ?_
  rw [firstRow?_eq_some_iff hrows', firstRow?_eq_some_iff hrows, hmem]

end FirstRow

/-! ## What the partition is known by -/

theorem partitions_partition (mode : RenderMode) (rows : List Table) :
    Partitions mode rows (partition mode rows) where
  ordered := pairwise_fst_partition mode rows
  inhabited _ hentry := members_ne_nil hentry
  sorted entry hentry := by
    rw [(mem_partition.mp hentry).2]
    exact pairwise_name_firstRows _
  kept group row := by
    have hfirst : row ∈ firstRows (rows.filter (mode.groupOf · = group)) ↔
        firstRow? mode rows group row.name = some row := by
      rw [mem_firstRows, List.find?_filter, firstRow?]
      simp only [decide_eq_true_eq, beq_iff_eq]
    constructor
    · rintro ⟨members, hpart, hrow⟩
      rw [(mem_partition.mp hpart).2] at hrow
      exact hfirst.mp hrow
    · intro h
      obtain ⟨hrow, hgroup, -⟩ := mem_of_firstRow? h
      exact ⟨_, mem_partition.mpr ⟨List.mem_map.mpr ⟨row, hrow, hgroup⟩, rfl⟩, hfirst.mpr h⟩

namespace Partitions

variable {mode : RenderMode} {rows rows' : List Table} {groups groups' : List (Group × List Table)}
  {group : Group} {members members' : List Table}

theorem congr (h : Partitions mode rows groups)
    (hfirst : ∀ group name, firstRow? mode rows' group name = firstRow? mode rows group name) :
    Partitions mode rows' groups where
  ordered := h.ordered
  inhabited := h.inhabited
  sorted := h.sorted
  kept group row := by rw [hfirst, h.kept]

/-- A group is given once. -/
theorem members_eq (h : Partitions mode rows groups) (hgroup : (group, members) ∈ groups)
    (hgroup' : (group, members') ∈ groups) : members = members' := by
  have hnodup : (groups.map Prod.fst).Nodup :=
    List.pairwise_map.mpr (h.ordered.imp Group.ne_of_lt)
  exact (Prod.mk.inj (List.inj_on_of_nodup_map hnodup hgroup hgroup' rfl)).2

theorem mem_members_iff (h : Partitions mode rows groups) (hgroup : (group, members) ∈ groups)
    {row : Table} : row ∈ members ↔ firstRow? mode rows group row.name = some row := by
  rw [← h.kept]
  refine ⟨fun hrow => ⟨members, hgroup, hrow⟩, ?_⟩
  rintro ⟨members', hgroup', hrow⟩
  rwa [h.members_eq hgroup hgroup']

/-- A group that is inhabited by first rows is in every list of groups that has them. -/
theorem mem_of_mem (h : Partitions mode rows groups) (h' : Partitions mode rows groups')
    (hgroup : (group, members) ∈ groups) : (group, members) ∈ groups' := by
  obtain ⟨row, hrow⟩ := List.exists_mem_of_ne_nil members (h.inhabited _ hgroup)
  obtain ⟨members', hgroup', -⟩ := (h'.kept group row).mpr ((h.mem_members_iff hgroup).mp hrow)
  have hmembers : members = members' :=
    eq_of_pairwise_name (h.sorted _ hgroup) (h'.sorted _ hgroup') fun row => by
      rw [h.mem_members_iff hgroup, h'.mem_members_iff hgroup']
  rwa [hmembers]

theorem unique (h : Partitions mode rows groups) (h' : Partitions mode rows groups') :
    groups = groups' := by
  have hirrefl : Std.Irrefl fun a b : Group × List Table => a.1 < b.1 :=
    ⟨fun a => Group.lt_irrefl a.1⟩
  have hantisymm : Std.Antisymm fun a b : Group × List Table => a.1 < b.1 :=
    ⟨fun a b hab hba => absurd hba (Group.lt_asymm hab)⟩
  exact h.ordered.eq_of_mem_iff h'.ordered fun _ => ⟨h.mem_of_mem h', h'.mem_of_mem h⟩

end Partitions

/-! ## Rows in another order -/

theorem partition_eq_of_firstRow? {mode : RenderMode} {rows rows' : List Table}
    (hfirst : ∀ group name, firstRow? mode rows' group name = firstRow? mode rows group name) :
    partition mode rows' = partition mode rows :=
  (partitions_partition mode rows').unique ((partitions_partition mode rows).congr hfirst)

/-- Rendering looks at the rows, and at the mode, through the partition. -/
theorem render_eq_of_partition {mode mode' : RenderMode} {rows rows' : List Table}
    (h : partition mode' rows' = partition mode rows) (c : Connection) (session : Session) :
    render mode' rows' c session = render mode rows c session := by
  unfold render
  rw [h]

/-- **The partition is canonical**: it is the one list of inhabited groups in strict order, with
their rows in strict name order, that keeps the first row of every group and name and no other.

So rows that are permuted or repeated come to the same partition, and to the same rendering on
every connection, as long as no two of them differ and still agree in group and name. -/
theorem partitions_iff_eq_partition (mode : RenderMode) (rows : List Table) :
    (∀ groups, Partitions mode rows groups ↔ groups = partition mode rows) ∧
      ∀ rows', OneRowInGroup mode rows → (∀ row, row ∈ rows' ↔ row ∈ rows) →
        partition mode rows' = partition mode rows ∧
          ∀ c session, render mode rows' c session = render mode rows c session := by
  refine ⟨fun groups => ⟨fun h => h.unique (partitions_partition mode rows), ?_⟩, ?_⟩
  · rintro rfl
    exact partitions_partition mode rows
  · intro rows' hrows hmem
    have hpartition : partition mode rows' = partition mode rows :=
      partition_eq_of_firstRow? (firstRow?_eq_of_mem_iff hrows hmem)
    exact ⟨hpartition, render_eq_of_partition hpartition⟩

/-- Rows of two scopes, one name in both of them, given in two ways. -/
theorem partitions_iff_eq_partition_shuffled :
    let task : Table := { name := "task", label := "Task" }
    let own : Table := { name := "item", scope := some "x_b" }
    let other : Table := { name := "item", scope := some " x_a ", superName := some "task" }
    let rows := [own, task, other]
    let rows' := [other, own, other, task, own]
    (OneRowInGroup .scoped rows ∧ ∀ row, row ∈ rows' ↔ row ∈ rows) ∧
      partition .scoped rows' =
          [(.global, [task]), (.scoped "x_a", [other]), (.scoped "x_b", [own])] ∧
        partition .scoped rows' = partition .scoped rows := by
  intro task own other rows rows'
  have hrows : OneRowInGroup .scoped rows := by
    have hall : ∀ a ∈ rows, ∀ b ∈ rows, RenderMode.scoped.groupOf a = RenderMode.scoped.groupOf b →
        a.name = b.name → a = b := by decide +kernel
    exact fun {a b} ha hb => hall a ha b hb
  have hmem : ∀ row, row ∈ rows' ↔ row ∈ rows := by
    intro row
    simp only [rows, rows', List.mem_cons, List.not_mem_nil, or_false]
    tauto
  exact ⟨⟨hrows, hmem⟩, by decide +kernel,
    ((partitions_iff_eq_partition .scoped rows).2 rows' hrows hmem).1⟩

end Ambient
