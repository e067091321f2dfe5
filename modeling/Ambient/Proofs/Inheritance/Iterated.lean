import Ambient.Proofs.Inheritance.Acyclic
import Ambient.Proofs.Layout.Rewritten
import Mathlib.Data.List.Chain

/-!
# Asking for the super table over and over

An index is made by recording rows, each in place of an earlier one of its name. It keeps of
a row the super table that the row names, trimmed, and the chain of a table is read off what
is kept; only the first step is taken from the table itself. No step differs for that from
asking the index for the declared super table of the row that was recorded last
(`recordedSuper?_ofRows`), as long as no row has the empty name. So the chain is what this
question comes to when it is asked over and over, on indexes with cycles too: a walk that
never meets a name twice, and that stops only where it cannot go on without doing so.
-/

namespace Ambient

namespace TableIndex

/-- The index after the rows are recorded, one after the other. -/
def ofRows (rows : List (Table × Group)) : TableIndex :=
  rows.foldl (fun index row => index.insert row.1 row.2) {}

/-- The row that was recorded last under a name. -/
def lastRow? (rows : List (Table × Group)) (name : String) : Option Table :=
  (rows.reverse.find? (·.1.name == name)).map (·.1)

variable {rows : List (Table × Group)} {table row : Table} {name : String}
  {above other : List Table}

/-! ## What the index knows of rows -/

theorem exists_mem_of_lastRow? (h : lastRow? rows name = some row) :
    ∃ group, (row, group) ∈ rows ∧ row.name = name := by
  obtain ⟨⟨found, group⟩, hfind, rfl⟩ := Option.map_eq_some_iff.mp h
  have hname : found.name = name := by simpa using List.find?_some hfind
  exact ⟨group, List.mem_reverse.mp (List.mem_of_find?_eq_some hfind), hname⟩

theorem map_superName_get?_ofRows (rows : List (Table × Group)) (name : String) :
    ((ofRows rows).entries.get? name).map (·.superName) =
      (lastRow? rows name).map (·.superName?) := by
  rw [ofRows, get?_foldl_insert, NameMap.get?_empty, Option.or_none, lastRow?, Option.map_map,
    Option.map_map]
  rfl

theorem contains_ofRows :
    (ofRows rows).contains name = true ↔ ∃ row, lastRow? rows name = some row := by
  rw [contains, NameMap.contains_eq_isSome_get?, ← Option.isSome_map (f := (·.superName)),
    map_superName_get?_ofRows, Option.isSome_map, Option.isSome_iff_exists]

/-- A super table that is declared was recorded. -/
theorem exists_lastRow? (h : (ofRows rows).declaredSuper? table = some name) :
    ∃ upper, lastRow? rows name = some upper :=
  contains_ofRows.mp (Option.filter_eq_some_iff.mp h).2

theorem contains_ofRows_empty (hnames : ∀ row ∈ rows, row.1.name ≠ "") :
    (ofRows rows).contains "" = false := by
  refine Bool.eq_false_iff.mpr fun hcontains => ?_
  obtain ⟨row, hrow⟩ := contains_ofRows.mp hcontains
  obtain ⟨group, hmem, hname⟩ := exists_mem_of_lastRow? hrow
  exact hnames _ hmem hname

/-- **What is kept of a row answers as the row does.** -/
theorem recordedSuper?_ofRows (hnames : ∀ row ∈ rows, row.1.name ≠ "")
    (h : lastRow? rows name = some row) :
    (ofRows rows).recordedSuper? name = (ofRows rows).declaredSuper? row := by
  have hkept : ((ofRows rows).entries.get? name).map (·.superName) = some row.superName? := by
    rw [map_superName_get?_ofRows, h, Option.map_some]
  obtain ⟨entry, hentry, hsuper⟩ := Option.map_eq_some_iff.mp hkept
  rw [recordedSuper?, hentry, Option.bind_some, hsuper,
    declaredSuper?_eq_filter (contains_ofRows_empty hnames)]

/-! ## Walking up -/

/-- `above` is met on the way up from `table`: every step asks for the declared super table, and
goes to the row that was recorded last under that name. -/
structure DeclaredWalk (rows : List (Table × Group)) (table : Table) (above : List Table) :
    Prop where
  /-- Each row is the one recorded last under its name. -/
  recorded : ∀ upper ∈ above, lastRow? rows upper.name = some upper
  /-- Each is the declared super table of the row before, the first one that of the table itself. -/
  linked : List.IsChain (fun lower upper => (ofRows rows).declaredSuper? lower = some upper.name)
    (table :: above)
  /-- No name comes twice, and none is that of the table. -/
  nodup : ((table :: above).map (·.name)).Nodup

/-- A walk that is at its end: no super table is declared there, or one that was met. -/
structure CompleteWalk (rows : List (Table × Group)) (table : Table) (above : List Table) : Prop
    extends DeclaredWalk rows table above where
  ended : ∀ name, (ofRows rows).declaredSuper? (above.getLastD table) = some name →
    name ∈ (table :: above).map (·.name)

theorem declaredWalk_nil (rows : List (Table × Group)) (table : Table) :
    DeclaredWalk rows table [] where
  recorded _ h := absurd h List.not_mem_nil
  linked := List.isChain_singleton table
  nodup := List.nodup_cons.mpr ⟨List.not_mem_nil, List.nodup_nil⟩

theorem getLast?_cons_eq_getLastD {α : Type} (a : α) (as : List α) :
    (a :: as).getLast? = some (as.getLastD a) := by
  rw [List.getLast?_cons, List.getLastD_eq_getLast?]

/-- **One step further.** -/
theorem DeclaredWalk.concat {upper : Table} (h : DeclaredWalk rows table above)
    (hsuper : (ofRows rows).declaredSuper? (above.getLastD table) = some upper.name)
    (hrow : lastRow? rows upper.name = some upper)
    (hunmet : upper.name ∉ (table :: above).map (·.name)) :
    DeclaredWalk rows table (above ++ [upper]) where
  recorded next hnext := by
    rcases List.mem_append.mp hnext with hmem | hmem
    · exact h.recorded next hmem
    · rw [List.mem_singleton.mp hmem]
      exact hrow
  linked := by
    rw [← List.cons_append, List.isChain_append]
    refine ⟨h.linked, List.isChain_singleton upper, fun last hlast next hnext => ?_⟩
    rw [getLast?_cons_eq_getLastD] at hlast
    rw [← Option.some.inj hnext, ← Option.some.inj hlast]
    exact hsuper
  nodup := by
    rw [← List.cons_append, List.map_append, List.map_singleton]
    have hsingle : [upper.name].Nodup := List.nodup_cons.mpr ⟨List.not_mem_nil, List.nodup_nil⟩
    refine List.nodup_append.mpr ⟨h.nodup, hsingle, fun name hname next hnext heq => ?_⟩
    exact hunmet (List.mem_singleton.mp hnext ▸ heq ▸ hname)

/-- **The chain completes a walk**, where it may meet the names that were not met. -/
theorem exists_completeWalk (hnames : ∀ row ∈ rows, row.1.name ≠ "") {unmet : List String}
    {current : Option String} (h : DeclaredWalk rows table above) (hnodup : unmet.Nodup)
    (hunmet : ∀ name, name ∈ unmet ↔
      (ofRows rows).contains name = true ∧ name ∉ (table :: above).map (·.name))
    (hcurrent : (ofRows rows).declaredSuper? (above.getLastD table) = current) :
    ∃ further, (ofRows rows).ancestorsFrom unmet current = further.map (·.name) ∧
      CompleteWalk rows table (above ++ further) := by
  -- on the recursion of the chain: the names it may meet are those of the index that the walk so
  -- far has not met, and each step makes the walk longer by the name that is struck off
  induction unmet, current using ancestorsFrom.induct (ofRows rows) generalizing above with
  | case1 unmet =>
    refine ⟨[], ancestorsFrom_none _, ?_⟩
    rw [List.append_nil]
    refine ⟨h, fun name hname => ?_⟩
    rw [hcurrent] at hname
    exact absurd hname.symm (Option.some_ne_none name)
  | case2 unmet name hmem ih =>
    obtain ⟨upper, hrow⟩ := exists_lastRow? hcurrent
    obtain ⟨-, -, rfl⟩ := exists_mem_of_lastRow? hrow
    have hlonger := h.concat hcurrent hrow ((hunmet _).mp hmem).2
    have hunmet' : ∀ name, name ∈ unmet.erase upper.name ↔ (ofRows rows).contains name = true ∧
        name ∉ (table :: (above ++ [upper])).map (·.name) := by
      intro name
      rw [hnodup.mem_erase_iff, hunmet, ← List.cons_append, List.map_append, List.mem_append,
        not_or, List.map_singleton, List.mem_singleton]
      exact ⟨fun h => ⟨h.2.1, h.2.2, h.1⟩, fun h => ⟨h.2.2, h.1, h.2.1⟩⟩
    have hnext : (ofRows rows).declaredSuper? ((above ++ [upper]).getLastD table) =
        (ofRows rows).recordedSuper? upper.name := by
      rw [List.getLastD_concat, recordedSuper?_ofRows hnames hrow]
    obtain ⟨further, hchain, hcomplete⟩ := ih hlonger (hnodup.erase _) hunmet' hnext
    refine ⟨upper :: further, ?_, ?_⟩
    · rw [ancestorsFrom_of_unmet hmem, hchain, List.map_cons]
    · rw [List.append_cons]
      exact hcomplete
  | case3 unmet name hnot =>
    refine ⟨[], ancestorsFrom_of_met hnot, ?_⟩
    rw [List.append_nil]
    refine ⟨h, fun other hother => ?_⟩
    obtain rfl := Option.some.inj (hcurrent.symm.trans hother)
    -- the name is in the index, so what keeps the chain from it is that it was met
    have hcontains := contains_ofRows.mpr (exists_lastRow? hcurrent)
    exact Classical.not_not.mp fun hnew => hnot ((hunmet _).mpr ⟨hcontains, hnew⟩)

/-! ## There is one walk -/

theorem DeclaredWalk.tail {upper : Table} (h : DeclaredWalk rows table (upper :: above)) :
    DeclaredWalk rows upper above where
  recorded next hnext := h.recorded next (List.mem_cons_of_mem _ hnext)
  linked := h.linked.tail
  nodup := (List.nodup_cons.mp h.nodup).2

/-- Of two walks from one table, one is a beginning of the other. -/
theorem DeclaredWalk.comparable (h : DeclaredWalk rows table above)
    (h' : DeclaredWalk rows table other) : above <+: other ∨ other <+: above := by
  induction above generalizing table other with
  | nil => exact .inl List.nil_prefix
  | cons upper above ih =>
    cases other with
    | nil => exact .inr List.nil_prefix
    | cons upper' other =>
      have hname := (List.isChain_cons_cons.mp h.linked).1
      have hname' := (List.isChain_cons_cons.mp h'.linked).1
      have hrow := h.recorded upper List.mem_cons_self
      have hrow' := h'.recorded upper' List.mem_cons_self
      rw [Option.some.inj (hname.symm.trans hname'), hrow'] at hrow
      obtain rfl := Option.some.inj hrow
      rw [List.cons_prefix_cons, List.cons_prefix_cons]
      exact (ih h.tail h'.tail).imp (⟨rfl, ·⟩) (⟨rfl, ·⟩)

/-- A walk that is at its end cannot be gone on with. -/
theorem CompleteWalk.eq_of_prefix (h : CompleteWalk rows table above)
    (h' : DeclaredWalk rows table other) (hbegins : above <+: other) : other = above := by
  obtain ⟨further, rfl⟩ := hbegins
  cases further with
  | nil => exact List.append_nil above
  | cons next further =>
    have hlinked := h'.linked
    rw [← List.cons_append, List.isChain_append] at hlinked
    have hsuper := hlinked.2.2 _ (getLast?_cons_eq_getLastD table above) next rfl
    have hnodup := h'.nodup
    rw [← List.cons_append, List.map_append, List.nodup_append] at hnodup
    exact absurd rfl (hnodup.2.2 _ (h.ended _ hsuper) _ List.mem_cons_self)

theorem CompleteWalk.unique (h : CompleteWalk rows table above)
    (h' : CompleteWalk rows table other) : other = above := by
  rcases h.comparable h'.toDeclaredWalk with hbegins | hbegins
  · exact h.eq_of_prefix h'.toDeclaredWalk hbegins
  · exact (h'.eq_of_prefix h.toDeclaredWalk hbegins).symm

/-! ## The chain -/

/-- **The declared ancestors are what asking for the declared super table comes to.**

There is one complete walk up from a table, whatever was recorded, in whatever order and how often.
Its names are the ancestors, all of them are in the index, and there are no more than the index has
names. -/
theorem declaredAncestors_iterated (hnames : ∀ row ∈ rows, row.1.name ≠ "") (table : Table) :
    ∃ above, (∀ other, CompleteWalk rows table other ↔ other = above) ∧
      (ofRows rows).declaredAncestors table = above.map (·.name) ∧
      (∀ name ∈ (ofRows rows).declaredAncestors table, (ofRows rows).contains name = true) ∧
      ((ofRows rows).declaredAncestors table).length ≤ (ofRows rows).entries.keys.length := by
  have hkeys := (ofRows rows).entries.nodup_keys
  have hunmet : ∀ name, name ∈ (ofRows rows).entries.keys.erase table.name ↔
      (ofRows rows).contains name = true ∧ name ∉ [table].map (·.name) := by
    intro name
    rw [hkeys.mem_erase_iff, contains, NameMap.contains, List.contains_iff_mem, and_comm,
      List.map_singleton, List.mem_singleton]
  obtain ⟨above, hchain, hwalk⟩ := exists_completeWalk hnames (declaredWalk_nil rows table)
    (hkeys.erase table.name) hunmet rfl
  rw [List.nil_append] at hwalk
  have hcontained : ∀ name ∈ above.map (·.name), (ofRows rows).contains name = true := by
    intro name hname
    obtain ⟨upper, hupper, rfl⟩ := List.mem_map.mp hname
    exact contains_ofRows.mpr ⟨upper, hwalk.recorded upper hupper⟩
  have hancestors : (ofRows rows).declaredAncestors table = above.map (·.name) := hchain
  refine ⟨above, fun other => ⟨hwalk.unique, fun heq => heq ▸ hwalk⟩, hancestors, ?_, ?_⟩
  · rw [hancestors]
    exact hcontained
  · rw [hancestors]
    refine (List.nodup_cons.mp hwalk.nodup).2.length_le_of_subset fun name hname => ?_
    exact List.contains_iff_mem.mp (hcontained name hname)

/-- Rows in a circle. One name is recorded twice, and only the second time it is part of the
circle. -/
def circle : List (Table × Group) :=
  [({ name := "task", superName := some "missing" }, .global),
    ({ name := "record", superName := some " incident " }, .scoped "x_app"),
    ({ name := "task", superName := some "\trecord" }, .scoped "x_app"),
    ({ name := "incident", superName := some "task" }, .global)]

theorem declaredAncestors_iterated_circle :
    let index := ofRows circle
    let problem : Table := { name := "problem", superName := some " task" }
    (∀ row ∈ circle, row.1.name ≠ "") ∧
      index.declaredAncestors problem = ["task", "record", "incident"] ∧
      ∃ above, (∀ other, CompleteWalk circle problem other ↔ other = above) ∧
        index.declaredAncestors problem = above.map (·.name) ∧
        (∀ name ∈ index.declaredAncestors problem, index.contains name = true) ∧
        (index.declaredAncestors problem).length ≤ index.entries.keys.length := by
  intro index problem
  have hnames : ∀ row ∈ circle, row.1.name ≠ "" := by decide +kernel
  exact ⟨hnames, by decide +kernel, declaredAncestors_iterated hnames problem⟩

end TableIndex

end Ambient
