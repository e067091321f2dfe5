/-!
# Maps from names

A map from names to values is the list of its entries in strictly increasing name
order, by code point. The order is part of the type, so two maps with the same
bindings are equal, and whatever walks the entries meets them in name order.
-/

namespace Ambient

/-- Entries in strictly increasing name order. -/
structure NameMap (α : Type) where
  entries : List (String × α)
  sorted : entries.Pairwise fun a b => a.1 < b.1
  deriving DecidableEq

namespace NameMap

variable {α β : Type}

def empty : NameMap α := ⟨[], .nil⟩

instance : EmptyCollection (NameMap α) := ⟨empty⟩

instance : Inhabited (NameMap α) := ⟨empty⟩

def toList (m : NameMap α) : List (String × α) := m.entries

def keys (m : NameMap α) : List String := m.entries.map Prod.fst

def values (m : NameMap α) : List α := m.entries.map Prod.snd

def get? (m : NameMap α) (name : String) : Option α :=
  (m.entries.find? fun entry => entry.1 == name).map Prod.snd

def contains (m : NameMap α) (name : String) : Bool :=
  m.keys.contains name

/-! ## Insertion -/

/-- Puts a binding in its place, over an earlier one of the same name. -/
def insertEntry (name : String) (value : α) : List (String × α) → List (String × α)
  | [] => [(name, value)]
  | entry :: rest =>
    if name < entry.1 then (name, value) :: entry :: rest
    else if entry.1 < name then entry :: insertEntry name value rest
    else (name, value) :: rest

theorem mem_insertEntry {name : String} {value : α} {entries : List (String × α)}
    {entry : String × α} (h : entry ∈ insertEntry name value entries) :
    entry = (name, value) ∨ entry ∈ entries := by
  induction entries with
  | nil => simpa [insertEntry] using h
  | cons head rest ih =>
    unfold insertEntry at h
    split at h
    · simpa using h
    · split at h
      · rcases List.mem_cons.mp h with rfl | h
        · exact .inr List.mem_cons_self
        · exact (ih h).imp_right (List.mem_cons_of_mem _)
      · rcases List.mem_cons.mp h with h | h
        · exact .inl h
        · exact .inr (List.mem_cons_of_mem _ h)

theorem pairwise_insertEntry {name : String} {value : α} {entries : List (String × α)}
    (h : entries.Pairwise fun a b => a.1 < b.1) :
    (insertEntry name value entries).Pairwise fun a b => a.1 < b.1 := by
  induction entries with
  | nil => simp [insertEntry]
  | cons head rest ih =>
    obtain ⟨hhead, hrest⟩ := List.pairwise_cons.mp h
    unfold insertEntry
    split
    · rename_i hlt
      refine List.pairwise_cons.mpr ⟨fun entry hentry => ?_, h⟩
      rcases List.mem_cons.mp hentry with rfl | hentry
      · exact hlt
      · exact String.lt_trans hlt (hhead entry hentry)
    · rename_i hnlt
      split
      · rename_i hlt
        refine List.pairwise_cons.mpr ⟨fun entry hentry => ?_, ih hrest⟩
        rcases mem_insertEntry hentry with rfl | hentry
        · exact hlt
        · exact hhead entry hentry
      · rename_i hngt
        have heq : name = head.1 :=
          String.le_antisymm (String.not_lt.mp hngt) (String.not_lt.mp hnlt)
        exact List.pairwise_cons.mpr ⟨fun entry hentry => heq ▸ hhead entry hentry, hrest⟩

theorem find?_insertEntry (name other : String) (value : α) (entries : List (String × α)) :
    (insertEntry name value entries).find? (·.1 == other) =
      if name = other then some (name, value) else entries.find? (·.1 == other) := by
  induction entries with
  | nil => by_cases h : name = other <;> simp [insertEntry, h]
  | cons head rest ih =>
    unfold insertEntry
    split
    · by_cases h : name = other <;> simp [h]
    · rename_i hnlt
      split
      · rename_i hlt
        by_cases hhead : head.1 = other
        · have hne : name ≠ other := by
            rintro rfl
            exact hnlt (hhead ▸ hlt)
          simp [hhead, hne]
        · simp [hhead, ih]
      · rename_i hngt
        have heq : name = head.1 :=
          String.le_antisymm (String.not_lt.mp hngt) (String.not_lt.mp hnlt)
        by_cases h : name = other
        · simp [h]
        · simp [h, heq ▸ h]

/-- Binds `name`, over an earlier binding. -/
def insert (m : NameMap α) (name : String) (value : α) : NameMap α :=
  ⟨insertEntry name value m.entries, pairwise_insertEntry m.sorted⟩

/-- Binds `name` unless it is bound already. -/
def insertNew (m : NameMap α) (name : String) (value : α) : NameMap α :=
  if m.contains name then m else m.insert name value

/-! ## What a map holds -/

@[simp]
theorem get?_empty (name : String) : (∅ : NameMap α).get? name = none := rfl

theorem get?_insert (m : NameMap α) (name other : String) (value : α) :
    (m.insert name value).get? other = if name = other then some value else m.get? other := by
  rw [get?, insert, find?_insertEntry]
  split <;> rfl

theorem contains_eq_isSome_get? (m : NameMap α) (name : String) :
    m.contains name = (m.get? name).isSome := by
  rw [Bool.eq_iff_iff]
  simp [contains, keys, get?]

theorem get?_insertNew (m : NameMap α) (name other : String) (value : α) :
    (m.insertNew name value).get? other =
      (m.get? other).or (if name = other then some value else none) := by
  unfold insertNew
  rw [contains_eq_isSome_get?]
  split
  · rename_i h
    split
    · rename_i heq
      subst heq
      obtain ⟨bound, hbound⟩ := Option.isSome_iff_exists.mp h
      simp [hbound]
    · simp
  · rename_i h
    rw [get?_insert]
    split
    · rename_i heq
      subst heq
      simp [Option.not_isSome_iff_eq_none.mp h]
    · simp

/-- Names come in strictly increasing order. -/
theorem pairwise_keys (m : NameMap α) : m.keys.Pairwise (· < ·) :=
  List.pairwise_map.mpr m.sorted

/-! ## Maps from lists -/

/-- The last binding of a name stays. -/
def ofList (entries : List (String × α)) : NameMap α :=
  entries.foldl (fun m entry => m.insert entry.1 entry.2) ∅

/-- The first binding of a name stays. -/
def ofListFirst (entries : List (String × α)) : NameMap α :=
  entries.foldl (fun m entry => m.insertNew entry.1 entry.2) ∅

end NameMap

/-- The different names among `names`, in strictly increasing order. -/
def sortNames (names : List String) : List String :=
  (NameMap.ofList (names.map (·, ()))).keys

end Ambient
