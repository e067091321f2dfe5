import Ambient.Proofs.Repository.Answers
import Ambient.Render.Group

/-!
# Tasks where no lookup fails

A lookup that fails is all that ends a task before its end. Where none does, every task
comes to its end, also when the work is cancelled on the way: tasks do not look at that,
only the checkpoints of a pass do. `Answers.run_of_unfailing` adds what a task answers.
-/

namespace Ambient

/-- No lookup fails on the connection; the work may well be cancelled there. -/
def Connection.Unfailing (connection : Connection) : Prop :=
  ∀ attempts lookup, connection.failure? attempts lookup = none

namespace Task

variable {σ τ ε ε' α β : Type}

/-- Where no lookup fails, the task comes to its end. -/
def Ends (task : Task σ ε α) : Prop :=
  ∀ (c : Connection) (s : σ), c.Unfailing → ∃ a s', task c s = (.ok a, s')

theorem ends_pure (a : α) : Ends (pure a : Task σ ε α) := fun _ s _ => ⟨a, s, rfl⟩

theorem ends_get : Ends (get : Task σ ε σ) := fun _ s _ => ⟨s, s, rfl⟩

theorem ends_modify (f : σ → σ) : Ends (modify f : Task σ ε Unit) :=
  fun c s _ => ⟨(), f s, modify_apply f c s⟩

theorem ends_read : Ends (read : Task σ ε Connection) := fun c s _ => ⟨c, s, rfl⟩

theorem ends_bind {task : Task σ ε α} {next : α → Task σ ε β} (ht : Ends task)
    (hn : ∀ a, Ends (next a)) : Ends (task >>= next) := by
  intro c s hc
  obtain ⟨a, s', hrun⟩ := ht c s hc
  obtain ⟨b, s'', hrun'⟩ := hn a c s' hc
  exact ⟨b, s'', by rw [bind_of_ok hrun, hrun']⟩

theorem ends_mapM {task : α → Task σ ε β} (h : ∀ a, Ends (task a)) (items : List α) :
    Ends (items.mapM task) := by
  induction items with
  | nil => exact ends_pure []
  | cons a items ih =>
    rw [List.mapM_cons]
    exact ends_bind (h a) fun b => ends_bind ih fun bs => ends_pure (b :: bs)

theorem ends_within {part : σ → τ} {replace : σ → τ → σ} {error : ε → ε'} {task : Task τ ε α}
    (ht : Ends task) : Ends (within part replace error task) := by
  intro c s hc
  obtain ⟨a, t, hrun⟩ := ht c (part s) hc
  exact ⟨a, replace s t, within_of_ok hrun⟩

/-- Where no lookup fails, a task gives its answer. -/
theorem Answers.run_of_unfailing {kept : Repository → σ → Prop} {calm : σ → Prop}
    {task : Task σ ε α} {f : Repository → α} (h : Answers kept calm task f) (hends : Ends task)
    {c : Connection} {s : σ} (hk : kept c.repository s) (hc : c.Unfailing) :
    task c s = (.ok (f c.repository), (task c s).2) ∧ kept c.repository (task c s).2 := by
  cases h c s hk with
  | ended hrun hk' _ =>
    rw [hrun]
    exact ⟨rfl, hk'⟩
  | stopped hrun _ _ =>
    obtain ⟨a, s', hrun'⟩ := hends c s hc
    rw [hrun'] at hrun
    exact nomatch (Prod.mk.inj hrun).1

end Task

/-! ## Lookups -/

namespace LookupM

open Ambient.Task (Ends ends_bind ends_pure ends_read)

variable {α : Type}

theorem ends_lookUp (lookup : Lookup) (answer : Repository → α) : Ends (lookUp lookup answer) := by
  intro c s hc
  rw [lookUp_apply, hc]
  exact ⟨_, _, rfl⟩

theorem ends_follow {find : String → LookupM (Option α)} (h : ∀ name, Ends (find name))
    (name : Option String) : Ends (follow find name) := by
  unfold follow
  cases Text.present? name with
  | none => exact ends_pure none
  | some key => exact h key

theorem ends_superTableOf (t : Table) : Ends (superTableOf t) :=
  ends_follow (fun _ => ends_lookUp _ _) t.superName

theorem ends_climb {visit : Table → LookupM α} (hvisit : ∀ t, Ends (visit t))
    (unmet : List String) (current : Table) : Ends (climb visit unmet current) := by
  induction unmet, current using climb.induct with
  | case1 unmet current hmet ih =>
    rw [climb, dif_pos hmet]
    refine ends_bind (hvisit current) fun seen =>
      ends_bind (ends_superTableOf current) fun found => ?_
    cases found with
    | none => exact ends_pure _
    | some next => exact ends_bind (ih next) fun _ => ends_pure _
  | case2 unmet current hmet =>
    rw [climb, dif_neg hmet]
    exact ends_pure _

theorem ends_fieldInheritance (t : Table) : Ends (fieldInheritance t) := by
  unfold fieldInheritance
  refine ends_bind (ends_lookUp _ _) fun elements =>
    ends_bind (ends_superTableOf t) fun parent => ?_
  cases parent with
  | none => exact ends_pure _
  | some parent =>
    exact ends_bind ends_read fun c =>
      ends_bind (ends_climb (fun _ => ends_lookUp _ _) _ parent) fun _ => ends_pure _

end LookupM

/-! ## Lookups through the cache -/

namespace CacheM

open Ambient.Task (Ends ends_bind ends_pure ends_get ends_modify ends_mapM)

variable {α : Type}

theorem ends_ofLookup {task : LookupM α} (h : Ends task) : Ends (ofLookup task) :=
  Task.ends_within h

theorem ends_answer {kept : LookupCache → NameMap (Option α)}
    {keep : LookupCache → NameMap (Option α) → LookupCache} {find : String → LookupM (Option α)}
    (hfind : ∀ key, Ends (find key)) (name : Option String) :
    Ends (answer kept keep find name) := by
  unfold answer
  cases Text.present? name with
  | none => exact ends_pure none
  | some key =>
    refine ends_bind ends_get fun state => ?_
    cases (kept state.cache).get? key with
    | some hit => exact ends_pure hit
    | none =>
      exact ends_bind (ends_ofLookup (hfind key)) fun found =>
        ends_bind (ends_modify _) fun _ => ends_pure found

theorem ends_package (name : Option String) : Ends (package name) :=
  ends_answer (fun _ => LookupM.ends_lookUp _ _) name

theorem ends_scope (name : Option String) : Ends (scope name) :=
  ends_answer (fun _ => LookupM.ends_lookUp _ _) name

theorem ends_scalarType (name : String) : Ends (scalarType name) :=
  ends_answer (fun _ => LookupM.ends_lookUp _ _) (some name)

/-! ## Declarations -/

theorem ends_recordAlias (site : Site) (table : Table) : Ends (recordAlias site table) :=
  ends_bind (ends_package table.package) fun _ => ends_pure _

theorem ends_elementDoc (element : Element) : Ends (elementDoc element) :=
  ends_bind (ends_scalarType element.typeName) fun _ =>
    ends_bind (ends_package element.package) fun _ => ends_pure _

theorem ends_member? (site : Site) (ancestors : List String) (pair : InheritedPair) :
    Ends (member? site ancestors pair) := by
  have hdoc : ∀ disposition, Ends (do
      return site.member? pair.element disposition (← elementDoc pair.element) : CacheM _) :=
    fun _ => ends_bind (ends_elementDoc pair.element) fun _ => ends_pure _
  unfold member?
  cases pair.element.disposition (Site.declaredCounterpart ancestors pair) with
  | inherited => exact ends_pure none
  | own => exact hdoc .own
  | redocumented => exact hdoc .redocumented
  | redeclared => exact hdoc .redeclared

theorem ends_fieldsInterface (site : Site) (table : Table) : Ends (fieldsInterface site table) :=
  ends_bind (ends_ofLookup (LookupM.ends_fieldInheritance table)) fun inheritance =>
    ends_bind (ends_mapM (ends_member? site _) inheritance.pairs) fun _ => ends_pure _

theorem ends_scopeHeaders (group : Group) (tables : List Table) :
    Ends (PassM.scopeHeaders group tables) :=
  ends_bind (ends_mapM (fun key => ends_scope (some key)) _) fun _ => ends_pure _

end CacheM

end Ambient
