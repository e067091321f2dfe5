import Ambient.Proofs.Layout.Partition
import Ambient.Snapshot.Validation

/-!
# Names in a valid snapshot

A snapshot without a violation makes a repository whose tables and scopes are called
by identifiers and whose elements are called by names without blanks. What is proved
of such a repository does not look at the snapshot again.
-/

namespace Ambient

open TypeScript (isIdentifier)

/-- Every name is fit for the place where it is declared. -/
structure Repository.WellNamed (repository : Repository) : Prop where
  table : ∀ {table : Table}, table ∈ repository.allTables → isIdentifier table.name = true
  scope : ∀ {table : Table} {key : String}, table ∈ repository.allTables →
    table.scopeKey? = some key → isIdentifier key = true
  element : ∀ {name : String} {element : Element}, element ∈ repository.elementsOf name →
    nameFault? element.name = none

theorem isIdentifier_of_identifierFault? {name : String} (h : identifierFault? name = none) :
    isIdentifier name = true := by
  obtain ⟨hfault, hchars⟩ := Option.or_eq_none_iff.mp h
  unfold isIdentifier
  cases hname : name.toList with
  | nil =>
    have hempty : name.isEmpty = true := by
      rw [String.isEmpty_iff, ← String.toList_eq_nil_iff, hname]
    rw [nameFault?, if_pos hempty] at hfault
    exact nomatch hfault
  | cons c cs =>
    simp only [hname] at hchars
    by_cases hstart : TypeScript.isIdentifierStart c = true
    · by_cases hrest : cs.all TypeScript.isIdentifierRest = true
      · simp only [hstart, hrest, Bool.and_self]
      · simp [hstart, hrest] at hchars
    · simp [hstart] at hchars

theorem mem_allTables_iff {repository : Repository} {table : Table} :
    table ∈ repository.allTables ↔ repository.table? table.name = some table := by
  unfold Repository.allTables Repository.table? NameMap.toList
  rw [List.mem_map, Option.map_eq_some_iff]
  constructor
  · rintro ⟨⟨name, entry⟩, hmem, rfl⟩
    exact ⟨entry, NameMap.mem_entries_iff.mp hmem, rfl⟩
  · rintro ⟨entry, hget, htable⟩
    exact ⟨(table.name, entry), NameMap.mem_entries_iff.mpr hget, htable⟩

theorem table?_name {repository : Repository} {name : String} {table : Table}
    (h : repository.table? name = some table) : table.name = name := by
  obtain ⟨entry, -, rfl⟩ := Option.map_eq_some_iff.mp h
  rfl

theorem mem_allTables_of_table? {repository : Repository} {name : String} {table : Table}
    (h : repository.table? name = some table) : table ∈ repository.allTables := by
  rw [mem_allTables_iff, table?_name h]
  exact h

/-- The tables of a repository are different rows. -/
theorem oneRowEach_of_subset {repository : Repository} {tables : List Table}
    (h : ∀ table ∈ tables, table ∈ repository.allTables) : OneRowEach tables := by
  intro a b ha hb hname
  have ha' := mem_allTables_iff.mp (h a ha)
  have hb' := mem_allTables_iff.mp (h b hb)
  rw [hname, hb'] at ha'
  exact (Option.some.inj ha').symm

namespace Snapshot

variable {snapshot : Snapshot}

theorem entry_violation?_eq_none (h : snapshot.violation? = none) {name : String}
    {entry : TableEntry} (hentry : snapshot.tables.get? name = some entry) :
    entry.violation? name = none := by
  obtain ⟨-, htables⟩ := Option.or_eq_none_iff.mp h
  exact List.findSome?_eq_none_iff.mp htables (name, entry) (NameMap.mem_entries_iff.mpr hentry)

/-- **A valid snapshot is well named.** -/
theorem wellNamed (h : snapshot.violation? = none) : snapshot.repository.WellNamed where
  table := by
    intro table htable
    obtain ⟨entry, hget, -⟩ := Option.map_eq_some_iff.mp (mem_allTables_iff.mp htable)
    have hentry := entry_violation?_eq_none h hget
    simp only [TableEntry.violation?, Option.or_eq_none_iff, Option.map_eq_none_iff] at hentry
    exact isIdentifier_of_identifierFault? hentry.1.1.1
  scope := by
    intro table key htable hkey
    obtain ⟨entry, hget, heq⟩ := Option.map_eq_some_iff.mp (mem_allTables_iff.mp htable)
    have hentry := entry_violation?_eq_none h hget
    simp only [TableEntry.violation?, Option.or_eq_none_iff] at hentry
    -- the key of a scope is what the check reads as its name
    have hscope : Text.present? entry.attributes.scope = some key := by
      obtain ⟨hpresent, -⟩ := Option.filter_eq_some_iff.mp hkey
      rw [← heq] at hpresent
      exact hpresent
    have hviolation := hentry.1.1.2
    rw [TableEntry.scopeViolation?, hscope, Option.bind_some, Option.map_eq_none_iff] at hviolation
    exact isIdentifier_of_identifierFault? hviolation
  element := by
    intro name element helement
    unfold Repository.elementsOf at helement
    cases hget : snapshot.tables.get? name with
    | none =>
      rw [show snapshot.repository.tables.get? name = none from hget] at helement
      exact absurd helement List.not_mem_nil
    | some entry =>
      rw [show snapshot.repository.tables.get? name = some entry from hget] at helement
      obtain ⟨⟨key, attributes⟩, hmem, rfl⟩ := List.mem_map.mp helement
      have hentry := entry_violation?_eq_none h hget
      simp only [TableEntry.violation?, Option.or_eq_none_iff] at hentry
      have hkey : key ∈ entry.elements.keys := List.mem_map.mpr ⟨_, hmem, rfl⟩
      exact Option.map_eq_none_iff.mp (List.findSome?_eq_none_iff.mp hentry.2 key hkey)

end Snapshot

end Ambient
