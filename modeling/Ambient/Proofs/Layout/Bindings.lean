import Ambient.NameMap

/-!
# What maps from names bind

A map is known by its lookups: `mem_entries_iff` reads an entry as a lookup, and the
maps made from lists are told by what a lookup in them finds.
-/

namespace Ambient

/-- What is looked for is found where nothing else answers. -/
theorem find?_eq_some_of_unique {α : Type} {items : List α} {p : α → Bool} {a : α}
    (ha : a ∈ items) (hp : p a = true) (hunique : ∀ b ∈ items, p b = true → b = a) :
    items.find? p = some a := by
  cases hfind : items.find? p with
  | none => exact absurd hp (List.find?_eq_none.mp hfind a ha)
  | some b => rw [hunique b (List.mem_of_find?_eq_some hfind) (List.find?_some hfind)]

namespace NameMap

variable {α β : Type}

theorem mem_entries_iff {m : NameMap α} {name : String} {value : α} :
    (name, value) ∈ m.entries ↔ m.get? name = some value := by
  constructor
  · intro h
    -- two entries of one name would stand in strict order
    have hdistinct : ∀ {a b : String × α}, a.1 < b.1 → a.1 ≠ b.1 := String.ne_of_lt
    have hsame : m.entries.Pairwise fun a b => a.1 = b.1 → a = b :=
      m.sorted.imp fun hlt heq => absurd heq (hdistinct hlt)
    have hsame' : m.entries.Pairwise (flip fun a b => a.1 = b.1 → a = b) :=
      m.sorted.imp fun hlt heq => absurd heq.symm (hdistinct hlt)
    have hfind : m.entries.find? (·.1 == name) = some (name, value) := by
      refine find?_eq_some_of_unique h (beq_self_eq_true name) fun entry hmem hname => ?_
      exact List.Pairwise.forall_of_forall_of_flip (fun _ _ _ => rfl) hsame hsame' hmem h
        (beq_iff_eq.mp hname)
    rw [get?, hfind]
    rfl
  · intro h
    obtain ⟨entry, hfind, hvalue⟩ := Option.map_eq_some_iff.mp h
    have hname : entry.1 = name := by simpa using List.find?_some hfind
    rw [← hname, ← hvalue]
    exact List.mem_of_find?_eq_some hfind

theorem mem_keys_iff {m : NameMap α} {name : String} :
    name ∈ m.keys ↔ ∃ value, m.get? name = some value := by
  constructor
  · intro h
    obtain ⟨⟨key, value⟩, hmem, rfl⟩ := List.mem_map.mp h
    exact ⟨value, mem_entries_iff.mp hmem⟩
  · rintro ⟨value, h⟩
    exact List.mem_map.mpr ⟨(name, value), mem_entries_iff.mpr h, rfl⟩

theorem nodup_keys (m : NameMap α) : m.keys.Nodup :=
  m.pairwise_keys.imp fun hlt => String.ne_of_lt hlt

theorem mem_values_iff {m : NameMap α} {value : α} :
    value ∈ m.values ↔ ∃ name, m.get? name = some value := by
  constructor
  · intro h
    obtain ⟨⟨name, _⟩, hmem, rfl⟩ := List.mem_map.mp h
    exact ⟨name, mem_entries_iff.mp hmem⟩
  · rintro ⟨name, h⟩
    exact List.mem_map.mpr ⟨(name, value), mem_entries_iff.mpr h, rfl⟩

theorem get?_foldl_insert (entries : List (String × α)) (m : NameMap α) (name : String) :
    (entries.foldl (fun m entry => m.insert entry.1 entry.2) m).get? name =
      ((entries.reverse.find? (·.1 == name)).map Prod.snd).or (m.get? name) := by
  induction entries generalizing m with
  | nil => rfl
  | cons entry rest ih =>
    rw [List.foldl_cons, ih, get?_insert, List.reverse_cons, List.find?_append]
    by_cases h : entry.1 = name
    · cases rest.reverse.find? (·.1 == name) <;> simp [h]
    · cases rest.reverse.find? (·.1 == name) <;> simp [h]

theorem get?_foldl_insertNew (entries : List (String × α)) (m : NameMap α) (name : String) :
    (entries.foldl (fun m entry => m.insertNew entry.1 entry.2) m).get? name =
      (m.get? name).or ((entries.find? (·.1 == name)).map Prod.snd) := by
  induction entries generalizing m with
  | nil => exact Option.or_none.symm
  | cons entry rest ih =>
    rw [List.foldl_cons, ih, get?_insertNew, List.find?_cons]
    by_cases h : entry.1 = name
    · cases m.get? name <;> simp [h]
    · rw [beq_false_of_ne h, if_neg h, Option.or_none]

/-- Of several entries of one name the last one counts. -/
theorem get?_ofList (entries : List (String × α)) (name : String) :
    (ofList entries).get? name = (entries.reverse.find? (·.1 == name)).map Prod.snd := by
  rw [ofList, get?_foldl_insert, get?_empty, Option.or_none]

/-- Of several entries of one name the first one counts. -/
theorem get?_ofListFirst (entries : List (String × α)) (name : String) :
    (ofListFirst entries).get? name = (entries.find? (·.1 == name)).map Prod.snd := by
  rw [ofListFirst, get?_foldl_insertNew, get?_empty, Option.none_or]

/-! ## Maps of other values -/

def mapValues (f : α → β) (m : NameMap α) : NameMap β where
  entries := m.entries.map fun entry => (entry.1, f entry.2)
  sorted := List.pairwise_map.mpr m.sorted

theorem get?_mapValues (f : α → β) (m : NameMap α) (name : String) :
    (m.mapValues f).get? name = (m.get? name).map f := by
  unfold get? mapValues
  rw [List.find?_map, Option.map_map, Option.map_map]
  rfl

theorem keys_mapValues (f : α → β) (m : NameMap α) : (m.mapValues f).keys = m.keys := by
  unfold keys mapValues
  rw [List.map_map]
  rfl

theorem values_mapValues (f : α → β) (m : NameMap α) : (m.mapValues f).values = m.values.map f := by
  unfold values mapValues
  rw [List.map_map, List.map_map]
  rfl

section MapValues

variable (f : α → β)

theorem insertEntry_map (name : String) (value : α) (entries : List (String × α)) :
    insertEntry name (f value) (entries.map fun entry => (entry.1, f entry.2)) =
      (insertEntry name value entries).map fun entry => (entry.1, f entry.2) := by
  induction entries with
  | nil => rfl
  | cons entry rest ih =>
    rw [List.map_cons, insertEntry, insertEntry, ih]
    split
    · rfl
    · split
      · rfl
      · rfl

theorem insert_mapValues (m : NameMap α) (name : String) (value : α) :
    (m.mapValues f).insert name (f value) = (m.insert name value).mapValues f := by
  unfold insert mapValues
  congr 1
  exact insertEntry_map f name value m.entries

theorem insertNew_mapValues (m : NameMap α) (name : String) (value : α) :
    (m.mapValues f).insertNew name (f value) = (m.insertNew name value).mapValues f := by
  unfold insertNew contains
  rw [keys_mapValues]
  split
  · rfl
  · exact insert_mapValues f m name value

/-- A map is made of other values as it is made of its own, however values are put in. -/
theorem foldl_map_mapValues {put : {γ : Type} → NameMap γ → String → γ → NameMap γ}
    (hput : ∀ (m : NameMap α) name value,
      put (m.mapValues f) name (f value) = (put m name value).mapValues f)
    (entries : List (String × α)) (m : NameMap α) :
    (entries.map fun entry => (entry.1, f entry.2)).foldl
        (fun m entry => put m entry.1 entry.2) (m.mapValues f) =
      (entries.foldl (fun m entry => put m entry.1 entry.2) m).mapValues f := by
  induction entries generalizing m with
  | nil => rfl
  | cons entry entries ih => rw [List.map_cons, List.foldl_cons, hput, ih, List.foldl_cons]

theorem ofList_map (entries : List (String × α)) :
    ofList (entries.map fun entry => (entry.1, f entry.2)) = (ofList entries).mapValues f :=
  foldl_map_mapValues f (insert_mapValues f) entries ∅

theorem ofListFirst_map (entries : List (String × α)) :
    ofListFirst (entries.map fun entry => (entry.1, f entry.2)) =
      (ofListFirst entries).mapValues f :=
  foldl_map_mapValues f (insertNew_mapValues f) entries ∅

end MapValues

end NameMap

theorem mem_sortNames {names : List String} {name : String} :
    name ∈ sortNames names ↔ name ∈ names := by
  rw [sortNames, NameMap.mem_keys_iff]
  simp only [NameMap.get?_ofList]
  constructor
  · rintro ⟨value, h⟩
    obtain ⟨entry, hfind, -⟩ := Option.map_eq_some_iff.mp h
    have hname : entry.1 = name := by simpa using List.find?_some hfind
    have hmem := List.mem_reverse.mp (List.mem_of_find?_eq_some hfind)
    obtain ⟨key, hkey, rfl⟩ := List.mem_map.mp hmem
    exact hname ▸ hkey
  · intro h
    have hsome : ((names.map (·, ())).reverse.find? (·.1 == name)).isSome :=
      List.find?_isSome.mpr ⟨(name, ()), by simpa using h, beq_self_eq_true name⟩
    obtain ⟨entry, hfind⟩ := Option.isSome_iff_exists.mp hsome
    exact ⟨(), by rw [hfind]; rfl⟩

theorem pairwise_sortNames (names : List String) : (sortNames names).Pairwise (· < ·) :=
  NameMap.pairwise_keys _

theorem nodup_sortNames (names : List String) : (sortNames names).Nodup :=
  NameMap.nodup_keys _

end Ambient
