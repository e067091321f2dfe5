import Ambient.Proofs.Layout.Bindings
import Ambient.Repository.Basic

/-!
# Metadata that is written otherwise

Attributes of tables and elements can be rewritten throughout a repository. Its tables
and elements are then the rewritten ones, under the names that they had.
-/

namespace Ambient

variable (f : TableAttributes → TableAttributes) (g : ElementAttributes → ElementAttributes)

def TableEntry.rewrite (entry : TableEntry) : TableEntry where
  attributes := f entry.attributes
  elements := entry.elements.mapValues g

def Table.rewrite (table : Table) : Table :=
  { f table.toTableAttributes with name := table.name }

def Element.rewrite (element : Element) : Element :=
  { g element.toElementAttributes with name := element.name, table := element.table }

def Repository.rewrite (r : Repository) : Repository :=
  { r with tables := r.tables.mapValues (TableEntry.rewrite f g) }

namespace Repository

variable {f g} {r rewritten : Repository}
  (h : rewritten.tables = r.tables.mapValues (TableEntry.rewrite f g))

include h in
theorem allTables_rewrite : rewritten.allTables = r.allTables.map (Table.rewrite f) := by
  unfold allTables
  rw [h]
  unfold NameMap.mapValues NameMap.toList
  rw [List.map_map, List.map_map]
  rfl

include h in
theorem table?_rewrite (name : String) :
    rewritten.table? name = (r.table? name).map (Table.rewrite f) := by
  unfold table?
  rw [h, NameMap.get?_mapValues, Option.map_map, Option.map_map]
  rfl

include h in
theorem elementsOf_rewrite (owner : String) :
    rewritten.elementsOf owner = (r.elementsOf owner).map (Element.rewrite g) := by
  unfold elementsOf
  rw [h, NameMap.get?_mapValues]
  cases r.tables.get? owner with
  | none => rfl
  | some entry =>
    show List.map _ (List.map _ entry.elements.entries) = List.map _ (List.map _ _)
    rw [List.map_map, List.map_map]
    rfl

end Repository

end Ambient
