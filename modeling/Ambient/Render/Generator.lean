import Ambient.Render.Group
import Ambient.Render.Partition

/-!
# Rendering all groups

The groups of the partition are rendered in order into one document, blank lines
between them. The summary tells how many groups were begun, how many tables there
are, and whether the pass was cancelled; a failed lookup leaves no summary.
-/

namespace Ambient

open TypeScript (Document)

structure RenderSummary where
  groups : Nat := 0
  tables : Nat := 0
  cancelled : Bool := false
  deriving DecidableEq, Inhabited, Repr

namespace PassM

/-- Counts a group in, and sets it off from the one before. -/
def beginGroup : PassM Unit := do
  if (← get).groups ≠ 0 then add .blank
  modify fun state => { state with groups := state.groups + 1 }

def renderGroups (index : TableIndex) : List (Group × List Table) → PassM Unit
  | [] => pure ()
  | (group, members) :: rest => do
    checkpoint
    beginGroup
    renderGroup { group, index } members
    renderGroups index rest

end PassM

/-- What rendering comes to: a result, the document as far as it was made, and the session it
leaves. -/
structure Rendering where
  result : Except LookupFailure RenderSummary
  document : Document
  session : Session

/-- Renders `tables`, in groups by `mode`. -/
def render (mode : RenderMode) (tables : List Table) (connection : Connection)
    (session : Session) : Rendering :=
  let groups := partition mode tables
  let (result, state) :=
    PassM.renderGroups (.ofGroups groups) groups connection { lookups := { session } }
  let summary : RenderSummary :=
    { groups := state.groups, tables := (groups.flatMap (·.2)).length }
  { document := state.document
    session := state.lookups.session
    result :=
      match result with
      | .ok () => .ok summary
      | .error .cancelled => .ok { summary with cancelled := true }
      | .error (.failed failure) => .error failure }

end Ambient
