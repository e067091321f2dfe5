import Ambient.Proofs.Repository.Answers

/-!
# The chain of super tables

`Repository.chain` lists the tables above a table, nearest first, as far as they
are known and until the chain comes back to a table already met. The inheritance of
a table's fields is a function of this list: `answers_fieldInheritance`.
-/

namespace Ambient

namespace Repository

/-- The super table that a table names, if it is known. -/
def superTable? (repository : Repository) (table : Table) : Option Table :=
  table.superName?.bind repository.table?

/-- The tables from `current` upwards, while their names are among `unmet`. -/
def chainFrom (repository : Repository) (unmet : List String) (current : Table) : List Table :=
  if _met : current.name ∈ unmet then
    match repository.superTable? current with
    | none => [current]
    | some next => current :: repository.chainFrom (unmet.erase current.name) next
  else []
termination_by unmet.length
decreasing_by
  have := List.length_erase_of_mem _met
  have := List.length_pos_of_mem _met
  omega

/-- The tables above `table`, nearest first, up to the first one already met. -/
def chain (repository : Repository) (table : Table) : List Table :=
  match repository.superTable? table with
  | none => []
  | some parent => repository.chainFrom (repository.tables.keys.erase table.name) parent

/-- The elements of `table`, each with the nearest one of its name further up. -/
def fieldInheritance (repository : Repository) (table : Table) : FieldInheritance where
  pairs := (repository.elementsOf table.name).map fun element =>
    { element
      counterpart := FieldInheritance.nearest?
        ((repository.chain table).map fun above => repository.elementsOf above.name) element.name }
  rootedAtBase := (repository.superTable? table).isNone

end Repository

section ChainFrom

variable {r : Repository} {unmet : List String} {current next : Table}

theorem Repository.chainFrom_of_met (h : current.name ∉ unmet) :
    r.chainFrom unmet current = [] := by
  rw [Repository.chainFrom, dif_neg h]

theorem Repository.chainFrom_of_top (h : current.name ∈ unmet)
    (hsuper : r.superTable? current = none) : r.chainFrom unmet current = [current] := by
  rw [Repository.chainFrom, dif_pos h, hsuper]

theorem Repository.chainFrom_of_super (h : current.name ∈ unmet)
    (hsuper : r.superTable? current = some next) :
    r.chainFrom unmet current = current :: r.chainFrom (unmet.erase current.name) next := by
  rw [Repository.chainFrom, dif_pos h, hsuper]

end ChainFrom

/-! ## The tasks that climb -/

namespace LookupM

theorem answers_superTableOf (t : Table) : Answers (superTableOf t) (·.superTable? t) :=
  answers_follow answers_table t.superName

/-- The names that are unmet once the tables of a chain have been visited. -/
def leftUnmet (unmet : List String) (visited : List Table) : List String :=
  visited.foldl (fun left table => left.erase table.name) unmet

theorem answers_climb {α : Type} {visit : Table → LookupM α} {seen : Table → Repository → α}
    (hvisit : ∀ t, Answers (visit t) (seen t)) (unmet : List String) (current : Table) :
    Answers (climb visit unmet current) fun r =>
      ((r.chainFrom unmet current).map (seen · r),
        leftUnmet unmet (r.chainFrom unmet current)) := by
  induction unmet, current using climb.induct with
  | case1 unmet current hmet ih =>
    -- what follows the two lookups, told from the super table found
    have hrest : ∀ (first : α) (found : Option Table), Answers
        (match found with
          | none => return ([first], unmet.erase current.name)
          | some next => do
            let rest ← climb visit (unmet.erase current.name) next
            return (first :: rest.1, rest.2))
        (fun r => match found with
          | none => ([first], unmet.erase current.name)
          | some next =>
            (first :: (r.chainFrom (unmet.erase current.name) next).map (seen · r),
              leftUnmet (unmet.erase current.name)
                (r.chainFrom (unmet.erase current.name) next))) := by
      intro first found
      cases found with
      | none => exact Task.answers_pure _
      | some next => exact Task.answers_map (fun p => (first :: p.1, p.2)) (ih next)
    have h := Task.answers_bind (hvisit current) fun first =>
      Task.answers_bind (answers_superTableOf current) (hrest first)
    rw [climb, dif_pos hmet]
    refine h.congr fun r => ?_
    cases hsuper : r.superTable? current with
    | none => rw [Repository.chainFrom_of_top hmet hsuper]; rfl
    | some next => rw [Repository.chainFrom_of_super hmet hsuper]; rfl
  | case2 unmet current hmet =>
    rw [climb, dif_neg hmet]
    refine (Task.answers_pure ([], unmet)).congr fun r => ?_
    rw [Repository.chainFrom_of_met hmet]
    rfl

theorem answers_fieldInheritance (t : Table) :
    Answers (fieldInheritance t) (·.fieldInheritance t) := by
  -- what the elements are paired to, told from the super table and the elements above
  let paired (elements : List Element) (parent : Option Table) (above : List (List Element)) :
      FieldInheritance :=
    { pairs := elements.map fun element =>
        { element, counterpart := FieldInheritance.nearest? above element.name }
      rootedAtBase := parent.isNone }
  let above (r : Repository) : Option Table → List (List Element)
    | none => []
    | some parent => (r.chainFrom (r.tables.keys.erase t.name) parent).map
        fun ancestor => r.elementsOf ancestor.name
  unfold fieldInheritance
  refine Task.Answers.congr (f := fun r =>
    paired (r.elementsOf t.name) (r.superTable? t) (above r (r.superTable? t))) ?_ fun r => ?_
  · refine Task.answers_bind (g := fun elements r =>
      paired elements (r.superTable? t) (above r (r.superTable? t))) (answers_elementsOf t) ?_
    intro elements
    refine Task.answers_bind (g := fun parent r => paired elements parent (above r parent))
      (answers_superTableOf t) ?_
    intro parent
    cases parent with
    | none => exact Task.answers_pure (paired elements none [])
    | some parent =>
      -- the names that may be met are read off the connection
      refine Task.answers_read (g := fun known r => paired elements (some parent)
        ((r.chainFrom (known.tables.keys.erase t.name) parent).map
          fun ancestor => r.elementsOf ancestor.name)) fun c => ?_
      have hclimb := answers_climb answers_elementsOf (c.repository.tables.keys.erase t.name) parent
      exact Task.answers_map (fun p => paired elements (some parent) p.1) hclimb
  · unfold Repository.fieldInheritance Repository.chain
    cases r.superTable? t <;> rfl

end LookupM

end Ambient
