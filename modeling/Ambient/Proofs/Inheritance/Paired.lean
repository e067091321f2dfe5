import Ambient.Proofs.Inheritance.Declared
import Ambient.Proofs.Inheritance.Fields
import Ambient.Proofs.Repository.Counted
import Ambient.Proofs.Text.Trimmed

/-!
# Fields on every graph

Nothing is asked of the super tables that a snapshot names: they may be unknown, a table
may name itself, and a chain may run into a cycle, above or through the table it begins
at. `Ascends` says which tables are above a table all the same, link by link, and the
fields of a table are paired along these: `pairsAlong`.
-/

namespace Ambient

namespace Repository

/-- From `lower` upwards, `met` being met already: one super table after the other, up to a table
whose super table is not known or has a name that was met. -/
inductive Ascends (r : Repository) : (met : List String) → (lower : Table) → List Table → Prop
  | unknown {met : List String} {lower : Table} :
      r.superTable? lower = none → Ascends r met lower []
  | met {met : List String} {lower upper : Table} :
      r.superTable? lower = some upper → upper.name ∈ lower.name :: met → Ascends r met lower []
  | step {met : List String} {lower upper : Table} {above : List Table} :
      r.superTable? lower = some upper → upper.name ∉ lower.name :: met →
        Ascends r (lower.name :: met) upper above → Ascends r met lower (upper :: above)

variable {r : Repository} {met : List String} {lower : Table} {above other : List Table}

/-- The tables above a table are determined. -/
theorem Ascends.unique (h : r.Ascends met lower above) (h' : r.Ascends met lower other) :
    other = above := by
  induction h generalizing other with
  | unknown hnone =>
    cases h' with
    | unknown => rfl
    | met => rfl
    | step hsuper => exact absurd (hnone.symm.trans hsuper) nofun
  | met hsuper hmet =>
    cases h' with
    | unknown => rfl
    | met => rfl
    | step hsuper' hnot =>
      obtain rfl := Option.some.inj (hsuper.symm.trans hsuper')
      exact absurd hmet hnot
  | step hsuper hnot _ ih =>
    cases h' with
    | unknown hnone => exact absurd (hnone.symm.trans hsuper) nofun
    | met hsuper' hmet =>
      obtain rfl := Option.some.inj (hsuper.symm.trans hsuper')
      exact absurd hmet hnot
    | step hsuper' _ habove =>
      obtain rfl := Option.some.inj (hsuper.symm.trans hsuper')
      rw [ih habove]

/-- None of them was met before. -/
theorem Ascends.not_met (h : r.Ascends met lower above) {upper : Table} (hmem : upper ∈ above) :
    upper.name ∉ lower.name :: met := by
  induction h with
  | unknown => exact absurd hmem List.not_mem_nil
  | met => exact absurd hmem List.not_mem_nil
  | step _ hnot _ ih =>
    rcases List.mem_cons.mp hmem with rfl | hmem
    · exact hnot
    · exact fun hmet => ih hmem (List.mem_cons_of_mem _ hmet)

/-- **A chain goes up link by link**, where it may meet the names that were not met. -/
theorem ascends_chainFrom {unmet : List String} {current : Table} (hnodup : unmet.Nodup)
    (hcurrent : r.superTable? lower = some current)
    (hunmet : ∀ name ∈ r.tables.keys, name ∈ unmet ↔ name ∉ lower.name :: met) :
    r.Ascends met lower (r.chainFrom unmet current) := by
  have hknown : current.name ∈ r.tables.keys :=
    mem_keys_of_mem_allTables (superTable?_eq_some_iff.mp hcurrent).2
  induction unmet, current using Repository.chainFrom.induct r generalizing met lower with
  | case1 unmet current hin hsuper =>
    rw [chainFrom_of_top hin hsuper]
    exact .step hcurrent ((hunmet _ hknown).mp hin) (.unknown hsuper)
  | case2 unmet current hin parent hsuper ih =>
    rw [chainFrom_of_super hin hsuper]
    refine .step hcurrent ((hunmet _ hknown).mp hin) (ih (hnodup.erase _) hsuper ?_ ?_)
    · intro name hname
      rw [hnodup.mem_erase_iff, hunmet name hname, List.mem_cons (b := current.name), not_or]
    · exact mem_keys_of_mem_allTables (superTable?_eq_some_iff.mp hsuper).2
  | case3 unmet current hin =>
    rw [chainFrom_of_met hin]
    exact .met hcurrent (Classical.not_not.mp fun hnot => hin ((hunmet _ hknown).mpr hnot))

/-- **The chain of a table is what is above it.** -/
theorem ascends_chain (r : Repository) (table : Table) : r.Ascends [] table (r.chain table) := by
  unfold chain
  cases hsuper : r.superTable? table with
  | none => exact .unknown hsuper
  | some parent =>
    refine ascends_chainFrom (r.nodup_keys.erase _) hsuper fun name hname => ?_
    rw [r.nodup_keys.mem_erase_iff, List.mem_singleton]
    exact and_iff_left hname

end Repository

/-! ## Elements -/

/-- A table names no super table that is known: it names none, a blank one or an unknown one. -/
theorem Repository.superTable?_eq_none_iff {r : Repository} {table : Table} :
    r.superTable? table = none ↔
      table.superName = none ∨ ∃ name, table.superName = some name ∧
        (Text.isBlankText name = true ∨ r.tables.get? (Text.trim name) = none) := by
  unfold superTable? Table.superName?
  cases table.superName with
  | none => simp [Text.present?]
  | some name =>
    have hblank : Text.trim name = "" ↔ Text.isBlankText name = true := Text.trim_eq_empty_iff
    by_cases hempty : Text.trim name = ""
    · simp [Text.present?, hempty, hblank.mp hempty]
    · simp [Text.present?, hempty, mt hblank.mpr hempty, Repository.table?]

/-- What the pairs of the elements of `table` are, told from the tables above it. -/
structure FieldInheritance.PairsAlong (inheritance : FieldInheritance) (r : Repository)
    (table : Table) (above : List Table) : Prop where
  /-- One pair for each element, in name order. -/
  elements : inheritance.pairs.map (·.element) = r.elementsOf table.name
  nameOrder : (inheritance.pairs.map (·.element.name)).Pairwise (· < ·)
  /-- The counterpart is the element of the same name of the first table above that owns one. -/
  counterpart : ∀ pair ∈ inheritance.pairs, ∀ other, pair.counterpart = some other ↔
    ∃ nearer owner farther, above = nearer ++ owner :: farther ∧
      other ∈ r.elementsOf owner.name ∧ other.name = pair.element.name ∧
      ∀ between ∈ nearer, ∀ passed ∈ r.elementsOf between.name, passed.name ≠ pair.element.name
  /-- There is none where no table above owns one. -/
  none : ∀ pair ∈ inheritance.pairs, pair.counterpart = none ↔
    ∀ owner ∈ above, ∀ other ∈ r.elementsOf owner.name, other.name ≠ pair.element.name
  /-- No counterpart is an element of the table itself. -/
  foreign : ∀ pair ∈ inheritance.pairs, ∀ other, pair.counterpart = some other →
    other.table ≠ table.name
  rooted : inheritance.rootedAtBase = true ↔
    table.superName = .none ∨ ∃ name, table.superName = some name ∧
      (Text.isBlankText name = true ∨ r.tables.get? (Text.trim name) = .none)

theorem Repository.pairsAlong (r : Repository) (table : Table) :
    (r.fieldInheritance table).PairsAlong r table (r.chain table) := by
  have hpair : ∀ pair ∈ (r.fieldInheritance table).pairs,
      pair.counterpart = FieldInheritance.nearest?
        ((r.chain table).map fun owner => r.elementsOf owner.name) pair.element.name := by
    intro pair hmem
    obtain ⟨element, -, rfl⟩ := List.mem_map.mp hmem
    rfl
  have helements : (r.fieldInheritance table).pairs.map (·.element) = r.elementsOf table.name := by
    show ((r.elementsOf table.name).map _).map _ = _
    rw [List.map_map]
    exact List.map_id _
  constructor
  case elements => exact helements
  case nameOrder =>
    have hnames := r.pairwise_elementsOf table.name
    rw [← helements, List.pairwise_map] at hnames
    exact List.pairwise_map.mpr hnames
  case counterpart =>
    intro pair hmem other
    rw [hpair pair hmem]
    exact nearest?_eq_some_iff
  case none =>
    intro pair hmem
    rw [hpair pair hmem]
    exact nearest?_eq_none_iff
  case foreign =>
    intro pair hmem other hother
    rw [hpair pair hmem] at hother
    obtain ⟨owner, howner, hname⟩ := List.mem_map.mp (owner_mem_of_nearest? hother)
    have hnot := (r.ascends_chain table).not_met howner
    rw [← hname]
    exact fun heq => hnot (heq ▸ List.mem_cons_self)
  case rooted =>
    show (r.superTable? table).isNone = true ↔ _
    rw [Option.isNone_iff_eq_none]
    exact superTable?_eq_none_iff

/-- **The fields of a table are paired on every graph.**

Whatever a snapshot holds, and whatever table is asked about, the query comes to its end. There is
one list of tables above, the pairs are told from it, and there are at most two lookups for each of
these tables and two more. -/
theorem fieldInheritance_on_every_graph (snapshot : Snapshot) (table : Table) (session : Session) :
    ∃ above inheritance lookups,
      (∀ other, snapshot.repository.Ascends [] table other ↔ other = above) ∧
        LookupM.fieldInheritance table { repository := snapshot.repository } session =
          (.ok inheritance, session.advance lookups) ∧
        inheritance.PairsAlong snapshot.repository table above ∧
        lookups ≤ 2 * above.length + 2 := by
  let r := snapshot.repository
  have habove := r.ascends_chain table
  obtain ⟨hrun, -⟩ := (LookupM.answers_fieldInheritance table).run_of_unfailing
    (LookupM.ends_fieldInheritance table) (c := { repository := r }) (s := session) trivial
    fun _ _ => rfl
  rw [LookupM.costs_fieldInheritance table r session] at hrun
  refine ⟨r.chain table, r.fieldInheritance table, _, fun other => ?_, hrun, r.pairsAlong table, ?_⟩
  · exact ⟨habove.unique, fun heq => heq ▸ habove⟩
  · have hclimb := climbCost_le (r.chain table)
    have hfirst := table.upwardLookups_le
    show 1 + table.upwardLookups + climbCost (r.chain table) ≤ 2 * (r.chain table).length + 2
    omega

end Ambient
