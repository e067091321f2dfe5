import Ambient.Repository.Navigation

/-!
# Selecting tables

Without names, all tables are selected. Otherwise the named tables are, together
with every table above them, so that whatever a selected table extends is selected
too.
-/

namespace Ambient

inductive SelectError where
  | unknownTable (name : String)
  | lookup (failure : LookupFailure)
  deriving DecidableEq, Inhabited, Repr

def SelectError.message : SelectError → String
  | .unknownTable name => "unknown table '" ++ name ++ "'"
  | .lookup failure => failure.message

abbrev SelectM := Task Session SelectError

namespace SelectM

def ofLookup {α : Type} (task : LookupM α) : SelectM α :=
  Task.within id (fun _ session => session) SelectError.lookup task

/-- The tables that the names add to a selection, where the tables called `unmet` are not
selected yet. -/
def chains (unmet : List String) : List String → SelectM (List Table)
  | [] => return []
  | name :: names => do
    match ← ofLookup (LookupM.table name) with
    | none => throw (.unknownTable name)
    | some table =>
      let (chain, unmet) ← ofLookup (LookupM.climb pure unmet table)
      return chain ++ (← chains unmet names)

end SelectM

/-- The selected tables in name order. -/
def selectTables (names : List String) : SelectM (List Table) := do
  if names.isEmpty then SelectM.ofLookup LookupM.tables
  else
    let chosen ← SelectM.chains (← read).repository.tables.keys names
    return (NameMap.ofList (chosen.map fun table => (table.name, table))).values

end Ambient
