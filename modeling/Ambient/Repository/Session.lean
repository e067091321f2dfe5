import Ambient.Repository.Basic

/-!
# Lookups

Lookups go through a connection, which may fail them, and during which the work
may be cancelled from outside. The session counts them. What a lookup has changed
in the session stays changed when it fails.
-/

namespace Ambient

/-- The ways to ask a repository for something by name. -/
inductive Lookup where
  | table (name : String)
  /-- The elements of a table. -/
  | elements (table : String)
  | package (name : String)
  | scope (name : String)
  | scalarType (name : String)
  deriving DecidableEq, Inhabited, Repr

structure LookupFailure where
  message : String
  deriving DecidableEq, Inhabited, Repr

/-- A repository and what happens while it is asked: both hooks are given the number of lookups
tried before, and the lookup. -/
structure Connection where
  repository : Repository
  /-- Whether the work is cancelled when this lookup is made. -/
  cancels : Nat → Lookup → Bool := fun _ _ => false
  /-- Why this lookup fails, if it does. -/
  failure? : Nat → Lookup → Option LookupFailure := fun _ _ => none

structure Session where
  /-- Lookups tried. -/
  attempts : Nat := 0
  /-- Lookups answered, with a value or without. -/
  served : Nat := 0
  cancelled : Bool := false
  deriving DecidableEq, Inhabited, Repr

/-- Work against a connection that may end early with an `ε` and keeps its state when it does. -/
abbrev Task (σ ε : Type) := ReaderT Connection (ExceptT ε (StateM σ))

/-- A task on a part of the state. -/
def Task.within {σ τ ε ε' α : Type} (part : σ → τ) (replace : σ → τ → σ) (error : ε → ε')
    (task : Task τ ε α) : Task σ ε' α := fun connection state =>
  let (result, inner) := task connection (part state)
  (result.mapError error, replace state inner)

abbrev LookupM := Task Session LookupFailure

/-- Makes a lookup: it is cancelled or failed first, and counted as served only if answered. -/
def lookUp {α : Type} (lookup : Lookup) (answer : Repository → α) : LookupM α := do
  let connection ← read
  let session ← get
  let cancelled := session.cancelled || connection.cancels session.attempts lookup
  set { session with attempts := session.attempts + 1, cancelled }
  match connection.failure? session.attempts lookup with
  | some failure => throw failure
  | none =>
    modify fun session => { session with served := session.served + 1 }
    return answer connection.repository

namespace LookupM

/-- All tables; no lookup by name. -/
def tables : LookupM (List Table) := return (← read).repository.allTables

def table (name : String) : LookupM (Option Table) :=
  lookUp (.table name) (·.table? name)

def elementsOf (table : Table) : LookupM (List Element) :=
  lookUp (.elements table.name) (·.elementsOf table.name)

def package (name : String) : LookupM (Option Package) :=
  lookUp (.package name) (·.package? name)

def scope (name : String) : LookupM (Option Scope) :=
  lookUp (.scope name) (·.scope? name)

def scalarType (name : String) : LookupM (Option ScalarType) :=
  lookUp (.scalarType name) (·.scalarType? name)

end LookupM

end Ambient
