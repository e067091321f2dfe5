import Ambient.Text.Blank

/-!
# Tables

A table is a row of the metadata: its name and its attributes. Attributes that
refer to something else by name (the super table, the package, the scope) are
kept as they were given; a blank one means the same as a missing one.
-/

namespace Ambient

/-- What the metadata says of a table besides its name. -/
structure TableAttributes where
  label : String := ""
  superName : Option String := none
  package : Option String := none
  numberPrefix : Option String := none
  extendable : Bool := false
  scope : Option String := none
  deriving DecidableEq, Inhabited, Repr

structure Table extends TableAttributes where
  name : String
  deriving DecidableEq, Inhabited, Repr

/-- The scope value of the tables that belong to no scope of their own. -/
def globalScope : String := "global"

namespace Table

def labelOrName (table : Table) : String :=
  (Text.nonBlank? table.label).getD table.name

/-- Name of the super table, if the table declares one. -/
def superName? (table : Table) : Option String :=
  Text.present? table.superName

/-- The scope the table belongs to; none for the global one. -/
def scopeKey? (table : Table) : Option String :=
  (Text.present? table.scope).filter (· ≠ globalScope)

end Table

end Ambient
