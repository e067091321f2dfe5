import Ambient.Proofs.Repository.Chain
import Ambient.Proofs.Snapshot.Names
import Mathlib.Logic.Relation

/-!
# Chains without a cycle

Both chains, that of the super tables a repository knows and that of the ones an
index declares, give up where they come back to a table already met. Where the
links between tables make no cycle this never happens, and the chain above a table
is its super table followed by the chain above that.
-/

namespace Ambient

open Relation (TransGen)

namespace Repository

/-- The table called `lower` names `upper` as its super table. -/
def Extends (repository : Repository) (lower upper : String) : Prop :=
  ∃ table, repository.table? lower = some table ∧ table.superName? = some upper

/-- No table is reached from itself by going from tables to super tables. -/
def Acyclic (repository : Repository) : Prop :=
  ∀ name, ¬ TransGen repository.Extends name name

variable {r : Repository} {current table parent : Table} {unmet : List String} {name : String}

/-- Tables that can be ranked so that every super table ranks below are without a cycle. -/
theorem acyclic_of_rank (rank : String → Nat)
    (h : ∀ table ∈ r.allTables, ∀ upper ∈ table.superName?, rank upper < rank table.name) :
    r.Acyclic := by
  have hstep : ∀ {lower upper : String}, r.Extends lower upper → rank upper < rank lower := by
    rintro lower upper ⟨table, htable, hsuper⟩
    rw [← table?_name htable]
    exact h table (mem_allTables_of_table? htable) upper hsuper
  have hall : ∀ {lower upper : String}, TransGen r.Extends lower upper →
      rank upper < rank lower := by
    intro lower upper hreached
    induction hreached with
    | single hlink => exact hstep hlink
    | tail _ hlink ih => exact Nat.lt_trans (hstep hlink) ih
  intro name hcycle
  exact Nat.lt_irrefl _ (hall hcycle)

theorem superTable?_eq_some_iff :
    r.superTable? table = some parent ↔
      table.superName? = some parent.name ∧ parent ∈ r.allTables := by
  unfold superTable?
  rw [Option.bind_eq_some_iff]
  constructor
  · rintro ⟨name, hsuper, hparent⟩
    rw [table?_name hparent]
    exact ⟨hsuper, mem_allTables_of_table? hparent⟩
  · rintro ⟨hsuper, hparent⟩
    exact ⟨parent.name, hsuper, mem_allTables_iff.mp hparent⟩

theorem extends_of_superTable? (ht : table ∈ r.allTables) (h : r.superTable? table = some parent) :
    r.Extends table.name parent.name :=
  ⟨table, mem_allTables_iff.mp ht, (superTable?_eq_some_iff.mp h).1⟩

theorem mem_keys_of_mem_allTables (ht : table ∈ r.allTables) : table.name ∈ r.tables.keys := by
  obtain ⟨entry, hget, -⟩ := Option.map_eq_some_iff.mp (mem_allTables_iff.mp ht)
  exact NameMap.mem_keys_iff.mpr ⟨entry, hget⟩

/-- What stands on a chain is known, and reached from where the chain begins. -/
theorem reached_of_mem_chainFrom (hcurrent : current ∈ r.allTables)
    (h : table ∈ r.chainFrom unmet current) :
    table ∈ r.allTables ∧ (table.name = current.name ∨
      TransGen r.Extends current.name table.name) := by
  induction unmet, current using Repository.chainFrom.induct r with
  | case1 unmet current hmet hsuper =>
    rw [chainFrom_of_top hmet hsuper, List.mem_singleton] at h
    rw [h]
    exact ⟨hcurrent, .inl rfl⟩
  | case2 unmet current hmet parent hsuper ih =>
    have hstep := extends_of_superTable? hcurrent hsuper
    rw [chainFrom_of_super hmet hsuper] at h
    rcases List.mem_cons.mp h with rfl | h
    · exact ⟨hcurrent, .inl rfl⟩
    · obtain ⟨hknown, hreached⟩ := ih (superTable?_eq_some_iff.mp hsuper).2 h
      refine ⟨hknown, .inr ?_⟩
      rcases hreached with heq | hreached
      · exact heq ▸ .single hstep
      · exact .head hstep hreached
  | case3 unmet current hmet =>
    rw [chainFrom_of_met hmet] at h
    exact absurd h List.not_mem_nil

/-- A name that is not on the chain may be met or not. -/
theorem chainFrom_erase (h : name ∉ (r.chainFrom unmet current).map (·.name)) :
    r.chainFrom (unmet.erase name) current = r.chainFrom unmet current := by
  induction unmet, current using Repository.chainFrom.induct r with
  | case1 unmet current hmet hsuper =>
    rw [chainFrom_of_top hmet hsuper] at h ⊢
    have hne : current.name ≠ name := fun heq => h (by simp [heq])
    exact chainFrom_of_top ((List.mem_erase_of_ne hne).mpr hmet) hsuper
  | case2 unmet current hmet parent hsuper ih =>
    rw [chainFrom_of_super hmet hsuper] at h ⊢
    rw [List.map_cons, List.mem_cons, not_or] at h
    rw [chainFrom_of_super ((List.mem_erase_of_ne (Ne.symm h.1)).mpr hmet) hsuper,
      List.erase_comm, ih h.2]
  | case3 unmet current hmet =>
    rw [chainFrom_of_met hmet, chainFrom_of_met fun hmem => hmet (List.mem_of_mem_erase hmem)]

theorem chain_of_top (h : r.superTable? table = none) : r.chain table = [] := by
  rw [chain, h]

/-- **Without a cycle, a table's chain is its super table and the chain above that.** -/
theorem chain_of_super (hacyclic : r.Acyclic) (ht : table ∈ r.allTables)
    (h : r.superTable? table = some parent) : r.chain table = parent :: r.chain parent := by
  have hparent := (superTable?_eq_some_iff.mp h).2
  have hstep := extends_of_superTable? ht h
  have hnot : table.name ∉ (r.chainFrom r.tables.keys parent).map (·.name) := by
    intro hmem
    obtain ⟨above, habove, hname⟩ := List.mem_map.mp hmem
    obtain ⟨-, heq | hreached⟩ := reached_of_mem_chainFrom hparent habove
    · exact hacyclic _ (.single (hname ▸ heq ▸ hstep))
    · exact hacyclic _ (.head hstep (hname ▸ hreached))
  have hmem := mem_keys_of_mem_allTables hparent
  rw [chain, h]
  -- the two chains start with different names met, which makes no difference to either
  show r.chainFrom (r.tables.keys.erase table.name) parent = _
  rw [chainFrom_erase hnot]
  cases hsuper : r.superTable? parent with
  | none => rw [chainFrom_of_top hmem hsuper, chain_of_top hsuper]
  | some next => rw [chainFrom_of_super hmem hsuper, chain, hsuper]

end Repository

/-! ## Declared ancestors -/

/-- Tables that are rendered together: known rows of a well-named repository. -/
structure Repository.Selects (repository : Repository) (tables : List Table) : Prop where
  named : repository.WellNamed
  known : ∀ {table : Table}, table ∈ tables → table ∈ repository.allTables

theorem Repository.Selects.rows {r : Repository} {tables : List Table} (h : r.Selects tables) :
    OneRowEach tables :=
  oneRowEach_of_subset fun _ => h.known

theorem Repository.Selects.name_ne_empty {r : Repository} {tables : List Table}
    (h : r.Selects tables) {table : Table} (ht : table ∈ tables) : table.name ≠ "" := by
  intro hempty
  have := h.named.table (h.known ht)
  rw [hempty] at this
  exact absurd this (by decide)

theorem Snapshot.selects {snapshot : Snapshot} (hvalid : snapshot.violation? = none)
    {tables : List Table} (htables : ∀ table ∈ tables, table ∈ snapshot.repository.allTables) :
    snapshot.repository.Selects tables :=
  ⟨Snapshot.wellNamed hvalid, fun {table} ht => htables table ht⟩

theorem present?_eq_some_iff {value : Option String} {name : String} (h : name ≠ "") :
    Text.present? value = some name ↔ value.map Text.trim = some name := by
  unfold Text.present?
  rw [Option.filter_eq_some_iff]
  constructor
  · exact And.left
  · exact fun hvalue => ⟨hvalue, by simpa using h⟩

namespace TableIndex

open Repository (Extends)

variable {r : Repository} {mode : RenderMode} {tables : List Table} {table parent : Table}
  {index : TableIndex} {unmet : List String} {current : Option String} {name : String}

theorem ancestorsFrom_none (index : TableIndex) : index.ancestorsFrom unmet none = [] := by
  rw [ancestorsFrom]

theorem ancestorsFrom_of_met (h : name ∉ unmet) : index.ancestorsFrom unmet (some name) = [] := by
  rw [ancestorsFrom, dif_neg h]

theorem ancestorsFrom_of_unmet (h : name ∈ unmet) :
    index.ancestorsFrom unmet (some name) =
      name :: index.ancestorsFrom (unmet.erase name) (index.recordedSuper? name) := by
  rw [ancestorsFrom, dif_pos h]

/-- A name that is not on the chain may be met or not. -/
theorem ancestorsFrom_erase (h : name ∉ index.ancestorsFrom unmet current) :
    index.ancestorsFrom (unmet.erase name) current = index.ancestorsFrom unmet current := by
  induction unmet, current using ancestorsFrom.induct index with
  | case1 unmet => rw [ancestorsFrom, ancestorsFrom]
  | case2 unmet first hmet ih =>
    rw [ancestorsFrom_of_unmet hmet] at h ⊢
    rw [List.mem_cons, not_or] at h
    rw [ancestorsFrom_of_unmet ((List.mem_erase_of_ne (Ne.symm h.1)).mpr hmet),
      List.erase_comm, ih h.2]
  | case3 unmet first hmet =>
    rw [ancestorsFrom_of_met hmet,
      ancestorsFrom_of_met fun hmem => hmet (List.mem_of_mem_erase hmem)]

/-- The declared super table is the super table, where that is among the tables. -/
theorem declaredSuper?_eq_some_iff (hs : r.Selects tables) :
    (ofTables mode tables).declaredSuper? table = some name ↔
      ∃ parent ∈ tables, r.superTable? table = some parent ∧ parent.name = name := by
  rw [declaredSuper?, Option.filter_eq_some_iff, contains_ofTables hs.rows]
  constructor
  · rintro ⟨hsuper, parent, hparent, rfl⟩
    have hname := (present?_eq_some_iff (hs.name_ne_empty hparent)).mpr hsuper
    exact ⟨parent, hparent,
      Repository.superTable?_eq_some_iff.mpr ⟨hname, hs.known hparent⟩, rfl⟩
  · rintro ⟨parent, hparent, hsuper, rfl⟩
    have hname := (Repository.superTable?_eq_some_iff.mp hsuper).1
    exact ⟨(present?_eq_some_iff (hs.name_ne_empty hparent)).mp hname, parent, hparent, rfl⟩

/-- What the index recorded as the super table is the declared one. -/
theorem recordedSuper?_ofTables (hs : r.Selects tables) (ht : table ∈ tables) :
    (ofTables mode tables).recordedSuper? table.name =
      (ofTables mode tables).declaredSuper? table := by
  refine Option.ext fun name => ?_
  rw [recordedSuper?, get?_ofTables hs.rows ht, Option.bind_some, declaredSuper?,
    Option.filter_eq_some_iff, Option.filter_eq_some_iff]
  constructor
  · rintro ⟨hsuper, hcontains⟩
    obtain ⟨parent, hparent, rfl⟩ := (contains_ofTables hs.rows).mp hcontains
    exact ⟨(present?_eq_some_iff (hs.name_ne_empty hparent)).mp hsuper, hcontains⟩
  · rintro ⟨hsuper, hcontains⟩
    obtain ⟨parent, hparent, rfl⟩ := (contains_ofTables hs.rows).mp hcontains
    exact ⟨(present?_eq_some_iff (hs.name_ne_empty hparent)).mpr hsuper, hcontains⟩

/-- What stands on a chain is reached from where the chain begins. -/
theorem reached_of_mem_ancestorsFrom (hs : r.Selects tables) (ht : table ∈ tables)
    (h : name ∈ (ofTables mode tables).ancestorsFrom unmet (some table.name)) :
    name = table.name ∨ TransGen r.Extends table.name name := by
  generalize hcurrent : some table.name = current at h
  -- on the recursion of the chain, which a declared super table keeps among the tables
  induction unmet, current using ancestorsFrom.induct (ofTables mode tables) generalizing table with
  | case1 unmet => exact nomatch hcurrent
  | case2 unmet first hmet ih =>
    obtain rfl := Option.some.inj hcurrent
    rw [ancestorsFrom_of_unmet hmet, recordedSuper?_ofTables hs ht] at h
    rw [recordedSuper?_ofTables hs ht] at ih
    rcases List.mem_cons.mp h with rfl | h
    · exact .inl rfl
    · cases hsuper : (ofTables mode tables).declaredSuper? table with
      | none =>
        rw [hsuper, ancestorsFrom] at h
        exact absurd h List.not_mem_nil
      | some next =>
        obtain ⟨parent, hparent, hup, rfl⟩ := (declaredSuper?_eq_some_iff hs).mp hsuper
        have hstep := Repository.extends_of_superTable? (hs.known ht) hup
        rcases ih hparent hsuper.symm h with rfl | hreached
        · exact .inr (.single hstep)
        · exact .inr (.head hstep hreached)
  | case3 unmet first hmet =>
    rw [ancestorsFrom_of_met hmet] at h
    exact absurd h List.not_mem_nil

theorem declaredAncestors_of_none (h : index.declaredSuper? table = none) :
    index.declaredAncestors table = [] := by
  rw [declaredAncestors, h, ancestorsFrom]

/-- **Without a cycle, the declared ancestors are the declared super table and those above it.** -/
theorem declaredAncestors_of_super (hs : r.Selects tables) (hacyclic : r.Acyclic)
    (ht : table ∈ tables) (hparent : parent ∈ tables) (h : r.superTable? table = some parent) :
    (ofTables mode tables).declaredAncestors table =
      parent.name :: (ofTables mode tables).declaredAncestors parent := by
  have hsuper : (ofTables mode tables).declaredSuper? table = some parent.name :=
    (declaredSuper?_eq_some_iff hs).mpr ⟨parent, hparent, h, rfl⟩
  have hstep := Repository.extends_of_superTable? (hs.known ht) h
  have hnot : table.name ∉ (ofTables mode tables).ancestorsFrom
      (ofTables mode tables).entries.keys (some parent.name) := by
    intro hmem
    rcases reached_of_mem_ancestorsFrom hs hparent hmem with heq | hreached
    · exact hacyclic _ (.single (heq ▸ hstep))
    · exact hacyclic _ (.head hstep hreached)
  have hmem : parent.name ∈ (ofTables mode tables).entries.keys :=
    NameMap.mem_keys_iff.mpr ⟨_, get?_ofTables hs.rows hparent⟩
  rw [declaredAncestors, hsuper, ancestorsFrom_erase hnot, ancestorsFrom_of_unmet hmem,
    recordedSuper?_ofTables hs hparent]
  rfl

end TableIndex

end Ambient
