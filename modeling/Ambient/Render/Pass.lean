import Ambient.Repository.Cache
import Ambient.TypeScript.Document

/-!
# Render passes

A pass looks things up, through one cache, and adds to a document. It may stop:
because it was cancelled, which it notices at its checkpoints only, or because a
lookup failed. What was added stays, in the namespace it was added to.
-/

namespace Ambient

open TypeScript (Document Item)

/-- Why a pass ends before its end. -/
inductive Stop where
  | cancelled
  | failed (failure : LookupFailure)
  deriving DecidableEq, Inhabited, Repr

structure PassState where
  lookups : CachedSession := {}
  /-- What was added to the namespace that is open. -/
  document : Document := []
  /-- Groups begun. -/
  groups : Nat := 0
  deriving Inhabited

abbrev PassM := Task PassState Stop

namespace PassM

def ofCache {α : Type} (task : CacheM α) : PassM α :=
  Task.within (·.lookups) (fun state lookups => { state with lookups }) Stop.failed task

/-- Stops here if the pass was cancelled. -/
def checkpoint : PassM Unit := do
  if (← get).lookups.session.cancelled then throw .cancelled

def add (item : Item) : PassM Unit :=
  modify fun state => { state with document := state.document ++ [item] }

/-- Adds a namespace with what `body` adds, whether or not `body` comes to its end. -/
def enclose (keyword name : String) (body : PassM Unit) : PassM Unit := fun connection state =>
  let (result, inner) := body connection { state with document := [] }
  (result,
    { inner with document := state.document ++ [.namespace keyword name inner.document] })

/-- Adds what `unit` makes of each item, with a blank line between two of them. -/
def addEach {α : Type} (unit : α → PassM Item) : List α → PassM Unit
  | [] => pure ()
  | item :: items => do
    add (← unit item)
    rest items
where
  /-- Each of the items after the first one follows a blank line. -/
  rest : List α → PassM Unit
    | [] => pure ()
    | item :: items => do
      let made ← unit item
      add .blank
      add made
      rest items

end PassM

end Ambient
