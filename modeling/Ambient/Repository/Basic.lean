import Ambient.Schema.Snapshot

/-!
# Repositories

A repository is what declarations are generated from. Tables and elements form a
finite map; packages, scopes and scalar types are found by name only.
-/

namespace Ambient

structure Repository where
  tables : NameMap TableEntry
  package? : String → Option Package
  scope? : String → Option Scope
  scalarType? : String → Option ScalarType

/-- The repository that answers from a snapshot. -/
def Snapshot.repository (snapshot : Snapshot) : Repository where
  tables := snapshot.tables
  package? := snapshot.package?
  scope? := snapshot.scope?
  scalarType? := snapshot.scalarType?

namespace Repository

/-- All tables in name order. -/
def allTables (repository : Repository) : List Table :=
  repository.tables.toList.map fun (name, entry) => entry.toTable name

def table? (repository : Repository) (name : String) : Option Table :=
  (repository.tables.get? name).map (·.toTable name)

/-- The elements of a table in name order; a table that is not known owns none. -/
def elementsOf (repository : Repository) (table : String) : List Element :=
  ((repository.tables.get? table).map (·.toElements table)).getD []

end Repository

end Ambient
