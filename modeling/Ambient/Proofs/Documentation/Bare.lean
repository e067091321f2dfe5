import Ambient.Proofs.Inheritance.Shape
import Ambient.Proofs.Snapshot.Rewritten
import Ambient.Proofs.Text.Trimmed

/-!
# Metadata without its documentation

Two repositories declare alike when they differ in nothing that names a declaration or
shapes a field. What is left of a repository when everything else is dropped, and each
spelling is put into one form, is its bare repository: those that declare alike have the
same one.
-/

namespace Ambient

/-! ## Maps of other values -/

namespace NameMap

variable {α β : Type}

/-- Entries of the same names, in the same order, and of values that `f` does not tell apart. -/
theorem map_entries_eq {f : α → β} {entries others : List (String × α)}
    (hnames : entries.map Prod.fst = others.map Prod.fst)
    (h : ∀ entry ∈ entries, ∀ other ∈ others, entry.1 = other.1 → f entry.2 = f other.2) :
    (entries.map fun entry => (entry.1, f entry.2)) =
      others.map fun entry => (entry.1, f entry.2) := by
  induction entries generalizing others with
  | nil => rw [List.map_eq_nil_iff.mp hnames.symm]
  | cons entry entries ih =>
    cases others with
    | nil => exact nomatch hnames
    | cons other others =>
      obtain ⟨hname, hrest⟩ := List.cons.inj hnames
      have hvalue := h entry List.mem_cons_self other List.mem_cons_self hname
      rw [List.map_cons, List.map_cons, hname, hvalue, ih hrest fun a ha b hb =>
        h a (List.mem_cons_of_mem entry ha) b (List.mem_cons_of_mem other hb)]

theorem mapValues_eq {f : α → β} {m m' : NameMap α} (hkeys : m.keys = m'.keys)
    (h : ∀ {name : String} {value value' : α}, m.get? name = some value →
      m'.get? name = some value' → f value = f value') : m.mapValues f = m'.mapValues f := by
  unfold mapValues
  congr 1
  refine map_entries_eq hkeys fun entry hentry other hother hname => ?_
  exact h (mem_entries_iff.mp hentry) (hname ▸ mem_entries_iff.mp hother)

end NameMap

/-! ## What is declared -/

def TableAttributes.bare (attributes : TableAttributes) : TableAttributes where
  superName := Text.present? attributes.superName
  scope := (Text.present? attributes.scope).filter (· ≠ globalScope)

def ElementAttributes.bare (attributes : ElementAttributes) : ElementAttributes where
  typeName := Scalar.canonicalName attributes.typeName
  reference := Text.present? attributes.reference
  maxLength := some (attributes.maxLength.getD 0)
  flags := { array := attributes.flags.array }

def TableEntry.bare (entry : TableEntry) : TableEntry where
  attributes := entry.attributes.bare
  elements := entry.elements.mapValues ElementAttributes.bare

def Table.bare (table : Table) : Table :=
  { table.toTableAttributes.bare with name := table.name }

def Element.bare (element : Element) : Element :=
  { element.toElementAttributes.bare with name := element.name, table := element.table }

/-- Nothing but what is declared. -/
def Repository.bare (r : Repository) : Repository where
  tables := r.tables.mapValues TableEntry.bare
  package? _ := none
  scope? _ := none
  scalarType? _ := none

namespace Table

variable (table : Table)

@[simp]
theorem name_bare : table.bare.name = table.name := rfl

@[simp]
theorem superName?_bare : table.bare.superName? = table.superName? :=
  Text.present?_present? table.superName

@[simp]
theorem scopeKey?_bare : table.bare.scopeKey? = table.scopeKey? := by
  show (Text.present? ((Text.present? table.scope).filter _)).filter _ =
    (Text.present? table.scope).filter _
  cases hscope : Text.present? table.scope with
  | none => rfl
  | some key =>
    -- a key that is there has been trimmed, so it is trimmed to itself
    have hkey : Text.present? (some key) = some key := by
      rw [← hscope]
      exact Text.present?_present? table.scope
    rw [Option.filter_some]
    split
    · rename_i h
      rw [hkey, Option.filter_some, if_pos h]
    · rfl

end Table

namespace Element

variable (element other : Element)

@[simp]
theorem name_bare : element.bare.name = element.name := rfl

@[simp]
theorem table_bare : element.bare.table = element.table := rfl

theorem sameShape_bare : element.bare.SameShape element where
  typeName := Scalar.canonicalName_canonicalName element.typeName
  reference := Text.present?_present? element.reference
  maxLength := rfl
  array := rfl

theorem sameShape_bare_iff : element.bare.SameShape other.bare ↔ element.SameShape other := by
  have h := element.sameShape_bare
  have h' := other.sameShape_bare
  exact ⟨fun hbare => (h.symm.trans hbare).trans h', fun hshape => (h.trans hshape).trans h'.symm⟩

/-- Elements of one shape are told apart by their names and owners only. -/
theorem bare_eq_of_sameShape {name table name' table' : String} {x y : ElementAttributes}
    (h : SameShape { x with name, table } { y with name := name', table := table' }) :
    x.bare = y.bare := by
  obtain ⟨htype, hreference, hlength, harray⟩ := h
  unfold ElementAttributes.bare Scalar.canonicalName
  congr 1
  · exact congrArg some hlength
  · exact congrArg (fun array : Bool => ({ array } : ElementFlags)) harray

end Element

namespace Repository

variable (r : Repository)

theorem allTables_bare : r.bare.allTables = r.allTables.map Table.bare :=
  allTables_rewrite (f := TableAttributes.bare) (g := ElementAttributes.bare) rfl

theorem table?_bare (name : String) : r.bare.table? name = (r.table? name).map Table.bare :=
  table?_rewrite (f := TableAttributes.bare) (g := ElementAttributes.bare) rfl name

theorem elementsOf_bare (owner : String) :
    r.bare.elementsOf owner = (r.elementsOf owner).map Element.bare :=
  elementsOf_rewrite (f := TableAttributes.bare) (g := ElementAttributes.bare) rfl owner

end Repository

/-! ## Repositories that declare alike -/

/-- The same tables by name, super table and scope, and in each of them the same elements by name
and shape. Labels, comments, default values, packages and the like may be any. -/
structure Repository.DeclareAlike (a b : Repository) : Prop where
  tables : a.tables.keys = b.tables.keys
  superName : ∀ s ∈ a.allTables, ∀ t ∈ b.allTables, s.name = t.name →
    s.superName? = t.superName?
  scopeKey : ∀ s ∈ a.allTables, ∀ t ∈ b.allTables, s.name = t.name → s.scopeKey? = t.scopeKey?
  elements : ∀ t ∈ a.allTables,
    (a.elementsOf t.name).map (·.name) = (b.elementsOf t.name).map (·.name)
  shape : ∀ t ∈ a.allTables, ∀ e ∈ a.elementsOf t.name, ∀ f ∈ b.elementsOf t.name,
    e.name = f.name → e.SameShape f

namespace Repository

variable {a b r : Repository} {name : String} {entry : TableEntry}

theorem elementsOf_of_get? (h : r.tables.get? name = some entry) :
    r.elementsOf name = entry.toElements name := by
  rw [elementsOf, h]
  rfl

theorem mem_allTables_of_get? (h : r.tables.get? name = some entry) :
    entry.toTable name ∈ r.allTables :=
  mem_allTables_iff.mpr (Option.map_eq_some_iff.mpr ⟨entry, h, rfl⟩)

theorem map_name_toElements : (entry.toElements name).map (·.name) = entry.elements.keys := by
  unfold TableEntry.toElements
  rw [List.map_map]
  rfl

theorem mem_toElements {key : String} {attributes : ElementAttributes}
    (h : entry.elements.get? key = some attributes) :
    ({ attributes with name := key, table := name } : Element) ∈ entry.toElements name :=
  List.mem_map.mpr ⟨(key, attributes), NameMap.mem_entries_iff.mpr h, rfl⟩

/-- **Repositories that declare alike are bare the same.** -/
theorem DeclareAlike.bare_eq (h : a.DeclareAlike b) : a.bare = b.bare := by
  have htables : a.tables.mapValues TableEntry.bare = b.tables.mapValues TableEntry.bare := by
    refine NameMap.mapValues_eq h.tables ?_
    intro name x y hx hy
    have hs := mem_allTables_of_get? hx
    have ht := mem_allTables_of_get? hy
    have hattributes : x.attributes.bare = y.attributes.bare := by
      unfold TableAttributes.bare
      congr 1
      · exact h.superName _ hs _ ht rfl
      · exact h.scopeKey _ hs _ ht rfl
    have hnames := h.elements _ hs
    have hshape := h.shape _ hs
    rw [show (x.toTable name).name = name from rfl, elementsOf_of_get? hx,
      elementsOf_of_get? hy] at hnames hshape
    rw [map_name_toElements, map_name_toElements] at hnames
    -- the same names in the same order, and under each of them elements of one shape
    have helements : x.elements.mapValues ElementAttributes.bare =
        y.elements.mapValues ElementAttributes.bare := by
      refine NameMap.mapValues_eq hnames ?_
      intro key e f he hf
      have hsame := hshape _ (mem_toElements he) _ (mem_toElements hf) rfl
      exact Element.bare_eq_of_sameShape hsame
    unfold TableEntry.bare
    rw [hattributes, helements]
  unfold bare
  rw [htables]

end Repository

end Ambient
