import Ambient.NameMap
import Ambient.Schema.Descriptor
import Ambient.Schema.Element
import Ambient.Schema.Table

/-!
# Metadata snapshots

A snapshot holds the metadata of one platform instance: tables with their
elements, packages, scopes and scalar types, each under its name.
-/

namespace Ambient

/-- A table as a snapshot holds it, its name being the key. -/
structure TableEntry where
  attributes : TableAttributes := {}
  elements : NameMap ElementAttributes := ∅
  deriving DecidableEq, Inhabited

/-- Packages and scopes are kept with their description, scalar types with their label. -/
structure Snapshot where
  tables : NameMap TableEntry := ∅
  packages : NameMap (Option String) := ∅
  scopes : NameMap (Option String) := ∅
  types : NameMap (Option String) := ∅
  deriving DecidableEq, Inhabited

namespace TableEntry

def toTable (entry : TableEntry) (name : String) : Table :=
  { entry.attributes with name }

/-- The elements in name order, owned by the table called `name`. -/
def toElements (entry : TableEntry) (name : String) : List Element :=
  entry.elements.toList.map fun (element, attributes) =>
    { attributes with name := element, table := name }

end TableEntry

namespace Snapshot

def package? (snapshot : Snapshot) (name : String) : Option Package :=
  (snapshot.packages.get? name).map fun description => { name, description }

def scope? (snapshot : Snapshot) (name : String) : Option Scope :=
  (snapshot.scopes.get? name).map fun description => { name, description }

def scalarType? (snapshot : Snapshot) (name : String) : Option ScalarType :=
  (snapshot.types.get? name).map fun displayName => { name, displayName }

end Snapshot

end Ambient
