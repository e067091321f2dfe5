import Ambient.Proofs.Repository.Chain
import Ambient.Proofs.Repository.Unfailing

/-!
# How many lookups a task makes

What a task answers is one thing, and what it costs another. Against a repository alone,
with nothing that fails or cancels it, the number of lookups is a function of the
repository too, and all that a session keeps of a task: `Costs`. The cost of a task that
goes on with an answer depends on that answer, so the rule for composition takes it from
`Answers`.

Climbing costs two lookups for each table that is visited, one for its elements and one
for its super table, if it names one.
-/

namespace Ambient

/-- The session after so many more lookups, all of them answered. -/
def Session.advance (session : Session) (lookups : Nat) : Session :=
  { session with
    attempts := session.attempts + lookups
    served := session.served + lookups }

theorem Session.advance_advance (session : Session) (first second : Nat) :
    (session.advance first).advance second = session.advance (first + second) := by
  simp [advance, Nat.add_assoc]

/-- Number of lookups for the super table: none where no name is given. -/
def Table.upwardLookups (table : Table) : Nat := table.superName?.toList.length

theorem Table.upwardLookups_le (table : Table) : table.upwardLookups ≤ 1 := by
  unfold upwardLookups
  cases table.superName? with
  | none => exact Nat.zero_le 1
  | some name => exact Nat.le_refl 1

/-- Number of lookups for the elements of the tables on a chain and for what is above each. -/
def climbCost : List Table → Nat
  | [] => 0
  | table :: visited => 1 + table.upwardLookups + climbCost visited

/-- At most two for each table. -/
theorem climbCost_le (visited : List Table) : climbCost visited ≤ 2 * visited.length := by
  induction visited with
  | nil => exact Nat.le_refl 0
  | cons table visited ih =>
    have hstep := table.upwardLookups_le
    rw [climbCost, List.length_cons]
    omega

namespace LookupM

variable {α β : Type}

/-- Asked where nothing goes wrong, the task makes as many lookups as `cost` says of the repository,
and leaves no other trace. -/
def Costs (task : LookupM α) (cost : Repository → Nat) : Prop :=
  ∀ (r : Repository) (s : Session), (task { repository := r } s).2 = s.advance (cost r)

theorem Costs.congr {task : LookupM α} {cost cost' : Repository → Nat} (h : Costs task cost)
    (heq : ∀ r, cost r = cost' r) : Costs task cost' :=
  funext heq ▸ h

theorem costs_pure (a : α) : Costs (pure a) fun _ => 0 := fun _ _ => rfl

theorem costs_lookUp (lookup : Lookup) (answer : Repository → α) :
    Costs (lookUp lookup answer) fun _ => 1 := by
  intro r s
  rw [lookUp_apply]
  simp [Session.advance]

/-- What comes second costs what it does after the answer to what comes first. -/
theorem costs_bind {task : LookupM α} {next : α → LookupM β} {f : Repository → α}
    {m : Repository → Nat} {n : α → Repository → Nat} (hanswer : Answers task f)
    (hends : Task.Ends task) (hfirst : Costs task m) (hsecond : ∀ a, Costs (next a) (n a)) :
    Costs (task >>= next) fun r => m r + n (f r) r := by
  intro r s
  obtain ⟨hrun, -⟩ := hanswer.run_of_unfailing hends (c := { repository := r }) (s := s) trivial
    fun _ _ => rfl
  rw [Task.bind_of_ok hrun, hsecond, hfirst, Session.advance_advance]

theorem Costs.map {task : LookupM α} {cost : Repository → Nat} (h : Costs task cost)
    (hends : Task.Ends task) (g : α → β) : Costs (do return g (← task)) cost := by
  intro r s
  obtain ⟨a, s', hrun⟩ := hends { repository := r } s fun _ _ => rfl
  have hcost := h r s
  rw [hrun] at hcost
  exact (congrArg Prod.snd (Task.bind_of_ok hrun)).trans hcost

theorem costs_superTableOf (t : Table) : Costs (superTableOf t) fun _ => t.upwardLookups := by
  unfold superTableOf follow Table.upwardLookups Table.superName?
  cases Text.present? t.superName with
  | none => exact costs_pure none
  | some name => exact costs_lookUp _ _

/-- **Climbing costs one lookup for each visit and one for each super table that is named.** -/
theorem costs_climb (unmet : List String) (current : Table) :
    Costs (climb elementsOf unmet current) fun r => climbCost (r.chainFrom unmet current) := by
  induction unmet, current using climb.induct with
  | case1 unmet current hmet ih =>
    -- what follows the two lookups, told from the super table found
    let above (found : Option Table) (r : Repository) : Nat :=
      found.elim 0 fun next => climbCost (r.chainFrom (unmet.erase current.name) next)
    rw [climb, dif_pos hmet]
    refine (costs_bind (answers_elementsOf current) (ends_lookUp _ _) (costs_lookUp _ _)
      fun first => costs_bind (n := above) (answers_superTableOf current)
        (ends_superTableOf current) (costs_superTableOf current) fun found => ?_).congr
          fun r => ?_
    · cases found with
      | none => exact costs_pure _
      | some next => exact (ih next).map (ends_climb (fun _ => ends_lookUp _ _) _ next) _
    · cases hsuper : r.superTable? current with
      | none =>
        rw [Repository.chainFrom_of_top hmet hsuper, climbCost]
        rfl
      | some next =>
        rw [Repository.chainFrom_of_super hmet hsuper, climbCost, Nat.add_assoc]
        rfl
  | case2 unmet current hmet =>
    rw [climb, dif_neg hmet]
    refine (costs_pure _).congr fun r => ?_
    rw [Repository.chainFrom_of_met hmet]
    rfl

theorem costs_fieldInheritance (t : Table) :
    Costs (fieldInheritance t) fun r => 1 + t.upwardLookups + climbCost (r.chain t) := by
  -- what follows the first two lookups, told from the super table found
  let above (found : Option Table) (r : Repository) : Nat :=
    found.elim 0 fun parent => climbCost (r.chainFrom (r.tables.keys.erase t.name) parent)
  unfold fieldInheritance
  refine (costs_bind (answers_elementsOf t) (ends_lookUp _ _) (costs_lookUp _ _) fun elements =>
    costs_bind (n := above) (answers_superTableOf t) (ends_superTableOf t)
      (costs_superTableOf t) fun parent => ?_).congr fun r => ?_
  · cases parent with
    | none => exact costs_pure _
    | some parent =>
      -- the names that may be met are read off the connection
      intro r s
      refine Eq.trans (congrArg Prod.snd (Task.bind_of_ok (Task.read_apply _ s))) ?_
      exact (costs_climb _ parent).map (ends_climb (fun _ => ends_lookUp _ _) _ parent) _ r s
  · rw [Repository.chain, Nat.add_assoc]
    cases r.superTable? t <;> rfl

end LookupM

end Ambient
