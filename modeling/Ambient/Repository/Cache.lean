import Ambient.Repository.Session

/-!
# The lookup cache

Packages, scopes and scalar types are asked for again and again in one pass. The
cache keeps every answer under the trimmed name, an answer that there is no such
thing included. A failed lookup leaves it as it was.
-/

namespace Ambient

structure LookupCache where
  packages : NameMap (Option Package) := ∅
  scopes : NameMap (Option Scope) := ∅
  types : NameMap (Option ScalarType) := ∅
  deriving DecidableEq, Inhabited

structure CachedSession where
  session : Session := {}
  cache : LookupCache := {}
  deriving DecidableEq, Inhabited

abbrev CacheM := Task CachedSession LookupFailure

namespace CacheM

def ofLookup {α : Type} (task : LookupM α) : CacheM α :=
  Task.within (·.session) (fun state session => { state with session }) id task

/-- The kept answer for a name, or else a lookup whose answer is kept. A missing or blank name
has no answer and needs no lookup. -/
def answer {α : Type} (kept : LookupCache → NameMap (Option α))
    (keep : LookupCache → NameMap (Option α) → LookupCache) (find : String → LookupM (Option α))
    (name : Option String) : CacheM (Option α) := do
  match Text.present? name with
  | none => return none
  | some key =>
    match (kept (← get).cache).get? key with
    | some hit => return hit
    | none =>
      let found ← ofLookup (find key)
      modify fun state =>
        { state with cache := keep state.cache ((kept state.cache).insert key found) }
      return found

def package (name : Option String) : CacheM (Option Package) :=
  answer (·.packages) (fun cache packages => { cache with packages }) LookupM.package name

def scope (name : Option String) : CacheM (Option Scope) :=
  answer (·.scopes) (fun cache scopes => { cache with scopes }) LookupM.scope name

def scalarType (name : String) : CacheM (Option ScalarType) :=
  answer (·.types) (fun cache types => { cache with types }) LookupM.scalarType (some name)

end CacheM

end Ambient
