import Ambient.Command.Report
import Ambient.Command.Select
import Ambient.Render.Partition

/-!
# Listing groups
-/

namespace Ambient

/-- The name a group is listed under. -/
def Group.listedName : Group → String
  | .global => globalScope
  | .scoped key => key

/-- The selected tables by group, in the order in which they would be rendered. -/
def listGroups (mode : RenderMode) (names : List String) : SelectM (List GroupListing) := do
  let tables ← selectTables names
  return (partition mode tables).map fun (group, members) =>
    { name := group.listedName, tables := members.map (·.name) }

end Ambient
