import Ambient.Repository.Session

/-!
# Navigation

From a table or an element to what it refers to. A missing or blank reference leads
nowhere and makes no lookup; a name that the repository does not know leads nowhere
either. `fieldInheritance` pairs the elements of a table with those they inherit
from.
-/

namespace Ambient.LookupM

/-- Looks up what an optional attribute names. -/
def follow {α : Type} (find : String → LookupM (Option α)) (name : Option String) :
    LookupM (Option α) :=
  match Text.present? name with
  | some name => find name
  | none => pure none

def superTableOf (t : Table) : LookupM (Option Table) := follow table t.superName

def packageOfTable (t : Table) : LookupM (Option Package) := follow package t.package

def packageOfElement (e : Element) : LookupM (Option Package) := follow package e.package

def scopeOf (t : Table) : LookupM (Option Scope) :=
  match t.scopeKey? with
  | some key => scope key
  | none => pure none

def typeOf (e : Element) : LookupM (Option ScalarType) := follow scalarType (some e.typeName)

def referencedTableOf (e : Element) : LookupM (Option Table) := follow table e.reference

/-- Visits `current` and the tables above it, while their names are among `unmet`. Returns what
the visits gave, and the names that are still unmet. -/
def climb {α : Type} (visit : Table → LookupM α) (unmet : List String) (current : Table) :
    LookupM (List α × List String) :=
  if _met : current.name ∈ unmet then do
    let seen ← visit current
    match ← superTableOf current with
    | none => return ([seen], unmet.erase current.name)
    | some next =>
      let (above, left) ← climb visit (unmet.erase current.name) next
      return (seen :: above, left)
  else return ([], unmet)
termination_by unmet.length
decreasing_by
  have := List.length_erase_of_mem _met
  have := List.length_pos_of_mem _met
  omega

end LookupM

/-- An element and the nearest element of the same name above its table. -/
structure InheritedPair where
  element : Element
  counterpart : Option Element
  deriving DecidableEq, Inhabited, Repr

structure FieldInheritance where
  /-- One for each element of the table, in element order. -/
  pairs : List InheritedPair
  /-- Whether the table has no super table. -/
  rootedAtBase : Bool
  deriving DecidableEq, Inhabited, Repr

namespace FieldInheritance

/-- The first element called `name` in the nearest table that owns one. -/
def nearest? (above : List (List Element)) (name : String) : Option Element :=
  above.findSome? fun owned => owned.find? (·.name == name)

end FieldInheritance

/-- Pairs each element of `table` with its counterpart. The chain of super tables ends where it
comes back to a table already met. -/
def LookupM.fieldInheritance (table : Table) : LookupM FieldInheritance := do
  let elements ← elementsOf table
  let parent ← superTableOf table
  let above ←
    match parent with
    | none => pure []
    | some parent => do
      let known := (← read).repository.tables.keys
      let (above, _) ← climb elementsOf (known.erase table.name) parent
      pure above
  return {
    pairs := elements.map fun element =>
      { element, counterpart := FieldInheritance.nearest? above element.name }
    rootedAtBase := parent.isNone }

end Ambient
