import Ambient.Proofs.Layout.Rewritten
import Ambient.Proofs.Repository.Answers
import Ambient.Render.Group

/-!
# Tasks on a rewritten repository

A task that is given rewritten tables and elements, and asks the rewritten repository,
makes the same lookups, in the same order, and comes to the same end: what it returns are
the rewritten tables and elements, and everything else is returned as it is. This holds
on every connection, for every way of rewriting that keeps what declarations are told
from, and there is one rule for each way in which tasks are composed.
-/

namespace Ambient

/-- The connection to the rewritten repository. Lookups fail and cancel the work there as before. -/
def Connection.rewrite (f : TableAttributes → TableAttributes)
    (g : ElementAttributes → ElementAttributes) (c : Connection) : Connection :=
  { c with repository := c.repository.rewrite f g }

variable {f : TableAttributes → TableAttributes} {g : ElementAttributes → ElementAttributes}

namespace Task

variable {σ τ ε ε' α β γ δ : Type}

/-- On a rewritten repository `task'` goes as `task` does on the repository itself, and what it
returns is `k` of what `task` returns. -/
def Mirrors (f : TableAttributes → TableAttributes) (g : ElementAttributes → ElementAttributes)
    (k : α → β) (task : Task σ ε α) (task' : Task σ ε β) : Prop :=
  ∀ (c : Connection) (s : σ), task' (c.rewrite f g) s = ((task c s).1.map k, (task c s).2)

variable {k : α → β} {l : γ → δ}

theorem mirrors_id_iff {task task' : Task σ ε α} :
    Mirrors f g id task task' ↔ ∀ c s, task' (c.rewrite f g) s = task c s := by
  have hid : ∀ result : Except ε α, result.map id = result := fun result => by
    cases result <;> rfl
  unfold Mirrors
  simp only [hid]
  exact Iff.rfl

theorem mirrors_pure (k : α → β) (a : α) :
    Mirrors f g k (pure a : Task σ ε α) (pure (k a)) := fun _ _ => rfl

theorem mirrors_throw (k : α → β) (e : ε) :
    Mirrors f g k (throw e : Task σ ε α) (throw e) := fun _ _ => rfl

theorem mirrors_bind {task : Task σ ε α} {task' : Task σ ε β} {next : α → Task σ ε γ}
    {next' : β → Task σ ε δ} (ht : Mirrors f g k task task')
    (hn : ∀ a, Mirrors f g l (next a) (next' (k a))) :
    Mirrors f g l (task >>= next) (task' >>= next') := by
  intro c s
  have hrun := ht c s
  rw [bind_apply, bind_apply, hrun]
  cases htask : task c s with
  | mk result s' =>
    cases result with
    | error e => rfl
    | ok a => exact hn a c s'

theorem mirrors_map {task : Task σ ε α} {task' : Task σ ε β} {m : α → γ} {m' : β → δ}
    (ht : Mirrors f g k task task') (hm : ∀ a, m' (k a) = l (m a)) :
    Mirrors f g l (do return m (← task)) (do return m' (← task')) :=
  mirrors_bind ht fun a => by
    rw [hm]
    exact mirrors_pure l (m a)

theorem mirrors_mapM {α' : Type} {m : α → α'} {task : α → Task σ ε γ} {task' : α' → Task σ ε δ}
    (h : ∀ a, Mirrors f g l (task a) (task' (m a))) (items : List α) :
    Mirrors f g (List.map l) (items.mapM task) ((items.map m).mapM task') := by
  induction items with
  | nil => exact mirrors_pure (List.map l) []
  | cons a items ih =>
    rw [List.map_cons, List.mapM_cons, List.mapM_cons]
    exact mirrors_bind (h a) fun b => mirrors_map ih fun _ => rfl

theorem mirrors_within {part : σ → τ} {replace : σ → τ → σ} {error : ε' → ε} {task : Task τ ε' α}
    {task' : Task τ ε' β} (h : Mirrors f g k task task') :
    Mirrors f g k (within part replace error task) (within part replace error task') := by
  intro c s
  unfold within
  rw [h c (part s)]
  cases task c (part s) with
  | mk result t => cases result <;> rfl

/-- A task that reads the connection, which is the one to the rewritten repository. -/
theorem mirrors_read {next : Connection → Task σ ε γ} {next' : Connection → Task σ ε δ}
    (h : ∀ c, Mirrors f g l (next c) (next' (c.rewrite f g))) :
    Mirrors f g l (read >>= next) (read >>= next') := by
  intro c s
  rw [bind_of_ok (read_apply (c.rewrite f g) s), bind_of_ok (read_apply c s)]
  exact h c c s

end Task

/-! ## Navigation -/

namespace LookupM

open Ambient.Task (Mirrors mirrors_bind mirrors_map mirrors_pure mirrors_read)

variable {α β : Type} {k : α → β}

theorem mirrors_lookUp (lookup : Lookup) {answer : Repository → α} {answer' : Repository → β}
    (h : ∀ r, answer' (r.rewrite f g) = k (answer r)) :
    Mirrors f g k (lookUp lookup answer) (lookUp lookup answer') := by
  intro c s
  have hcancels : (c.rewrite f g).cancels = c.cancels := rfl
  have hfailure : (c.rewrite f g).failure? = c.failure? := rfl
  have hanswer : answer' (c.rewrite f g).repository = k (answer c.repository) := h c.repository
  rw [lookUp_apply, lookUp_apply, hcancels, hfailure, hanswer]
  cases c.failure? s.attempts lookup <;> rfl

theorem mirrors_tables : Mirrors f g (List.map (Table.rewrite f)) tables tables := fun c s => by
  show (Except.ok (c.repository.rewrite f g).allTables, s) = _
  rw [Repository.allTables_rewrite (r := c.repository) rfl]
  rfl

theorem mirrors_table (name : String) :
    Mirrors f g (Option.map (Table.rewrite f)) (table name) (table name) :=
  mirrors_lookUp (.table name) fun _ => Repository.table?_rewrite rfl name

theorem mirrors_elementsOf (t : Table) :
    Mirrors f g (List.map (Element.rewrite g)) (elementsOf t) (elementsOf (Table.rewrite f t)) :=
  mirrors_lookUp (.elements t.name) fun _ => Repository.elementsOf_rewrite rfl t.name

section Lineage

variable (hf : Table.KeepsLineage (Table.rewrite f))

include hf

theorem mirrors_superTableOf (t : Table) :
    Mirrors f g (Option.map (Table.rewrite f)) (superTableOf t)
      (superTableOf (Table.rewrite f t)) := by
  have hname : Text.present? (Table.rewrite f t).superName = Text.present? t.superName :=
    hf.superName? t
  unfold superTableOf follow
  rw [hname]
  cases Text.present? t.superName with
  | none => exact mirrors_pure (Option.map (Table.rewrite f)) none
  | some name => exact mirrors_table name

theorem mirrors_climb {visit : Table → LookupM α} {visit' : Table → LookupM β}
    (hvisit : ∀ t, Mirrors f g k (visit t) (visit' (Table.rewrite f t))) (unmet : List String)
    (current : Table) :
    Mirrors f g (Prod.map (List.map k) id) (climb visit unmet current)
      (climb visit' unmet (Table.rewrite f current)) := by
  induction unmet, current using climb.induct with
  | case1 unmet current hmet ih =>
    have hmet' : (Table.rewrite f current).name ∈ unmet := hmet
    rw [climb, dif_pos hmet, climb, dif_pos hmet']
    refine mirrors_bind (hvisit current) fun seen =>
      mirrors_bind (mirrors_superTableOf hf current) fun found => ?_
    cases found with
    | none => exact mirrors_pure (Prod.map (List.map k) id) ([seen], unmet.erase current.name)
    | some next => exact mirrors_map (ih next) fun _ => rfl
  | case2 unmet current hmet =>
    have hmet' : (Table.rewrite f current).name ∉ unmet := hmet
    rw [climb, dif_neg hmet, climb, dif_neg hmet']
    exact mirrors_pure (Prod.map (List.map k) id) ([], unmet)

end Lineage

end LookupM

def InheritedPair.rewrite (g : ElementAttributes → ElementAttributes) (pair : InheritedPair) :
    InheritedPair where
  element := Element.rewrite g pair.element
  counterpart := pair.counterpart.map (Element.rewrite g)

def FieldInheritance.rewrite (g : ElementAttributes → ElementAttributes)
    (inheritance : FieldInheritance) : FieldInheritance where
  pairs := inheritance.pairs.map (InheritedPair.rewrite g)
  rootedAtBase := inheritance.rootedAtBase

namespace LookupM

open Ambient.Task (Mirrors mirrors_bind mirrors_map mirrors_pure mirrors_read)

/-- The pairs of rewritten elements with what is nearest above them are the rewritten pairs. -/
theorem pairs_rewrite (elements : List Element) (above : List (List Element)) :
    (elements.map (Element.rewrite g)).map (fun element => InheritedPair.mk element
        (FieldInheritance.nearest? (above.map (·.map (Element.rewrite g))) element.name)) =
      (elements.map fun element => InheritedPair.mk element
        (FieldInheritance.nearest? above element.name)).map (InheritedPair.rewrite g) := by
  rw [List.map_map, List.map_map]
  refine List.map_congr_left fun element _ => ?_
  have hnearest := FieldInheritance.nearest?_rewritten (f := Element.rewrite g) (fun _ => rfl) above
    element.name
  exact congrArg (InheritedPair.mk (Element.rewrite g element)) hnearest

theorem mirrors_fieldInheritance (hf : Table.KeepsLineage (Table.rewrite f)) (t : Table) :
    Mirrors f g (FieldInheritance.rewrite g) (fieldInheritance t)
      (fieldInheritance (Table.rewrite f t)) := by
  have hfinish : ∀ (elements : List Element) (above : List (List Element)) (rooted : Bool),
      Mirrors f g (FieldInheritance.rewrite g)
        (pure ⟨elements.map fun element => ⟨element,
          FieldInheritance.nearest? above element.name⟩, rooted⟩ : LookupM _)
        (pure ⟨(elements.map (Element.rewrite g)).map fun element => ⟨element,
          FieldInheritance.nearest? (above.map (·.map (Element.rewrite g))) element.name⟩,
          rooted⟩) := by
    intro elements above rooted
    rw [pairs_rewrite]
    exact mirrors_pure (FieldInheritance.rewrite g) _
  unfold fieldInheritance
  refine mirrors_bind (mirrors_elementsOf t) fun elements =>
    mirrors_bind (mirrors_superTableOf hf t) fun parent => ?_
  cases parent with
  | none =>
    exact mirrors_bind (mirrors_pure (List.map (List.map (Element.rewrite g))) []) fun above =>
      hfinish elements above true
  | some parent =>
    refine mirrors_read fun c => ?_
    have hkeys : (c.rewrite f g).repository.tables.keys = c.repository.tables.keys :=
      NameMap.keys_mapValues _ _
    rw [hkeys]
    refine mirrors_bind (mirrors_climb hf mirrors_elementsOf _ parent) fun climbed => ?_
    exact mirrors_bind (mirrors_pure (List.map (List.map (Element.rewrite g))) climbed.1)
      fun above => hfinish elements above false

end LookupM

/-! ## Lookups through the cache -/

namespace CacheM

open Ambient.Task (Mirrors mirrors_bind mirrors_id_iff mirrors_map mirrors_mapM mirrors_pure)

variable {α : Type}

/-- The cache is asked by trimmed names, so it is all one whether a name is trimmed before. -/
theorem mirrors_answer {kept : LookupCache → NameMap (Option α)}
    {keep : LookupCache → NameMap (Option α) → LookupCache} {find : String → LookupM (Option α)}
    (hfind : ∀ key, Mirrors f g id (find key) (find key)) {name name' : Option String}
    (hname : Text.present? name' = Text.present? name) :
    Mirrors f g id (answer kept keep find name) (answer kept keep find name') := by
  unfold answer
  rw [hname]
  cases Text.present? name with
  | none => exact mirrors_pure id none
  | some key =>
    refine mirrors_bind (mirrors_id_iff.mpr fun _ _ => rfl) fun state => ?_
    rw [id_eq]
    cases (kept state.cache).get? key with
    | some hit => exact mirrors_pure id hit
    | none =>
      refine mirrors_bind (Task.mirrors_within (hfind key)) fun found => ?_
      exact mirrors_bind (mirrors_id_iff.mpr fun _ _ => rfl) fun _ => mirrors_pure id found

theorem mirrors_package {name name' : Option String}
    (hname : Text.present? name' = Text.present? name) :
    Mirrors f g id (package name) (package name') :=
  mirrors_answer (fun key => LookupM.mirrors_lookUp (.package key) fun _ => rfl) hname

theorem mirrors_scope (name : Option String) : Mirrors f g id (scope name) (scope name) :=
  mirrors_answer (fun key => LookupM.mirrors_lookUp (.scope key) fun _ => rfl) rfl

theorem mirrors_scalarType {name name' : String}
    (hname : Text.present? (some name') = Text.present? (some name)) :
    Mirrors f g id (scalarType name) (scalarType name') :=
  mirrors_answer (fun key => LookupM.mirrors_lookUp (.scalarType key) fun _ => rfl) hname

/-! ## Declarations -/

theorem declaredCounterpart_rewrite (ancestors : List String) (pair : InheritedPair) :
    Site.declaredCounterpart ancestors (pair.rewrite g) =
      (Site.declaredCounterpart ancestors pair).map (Element.rewrite g) := by
  unfold Site.declaredCounterpart InheritedPair.rewrite
  rw [Option.filter_map]
  rfl

section Declarations

variable (h : KeepsDeclarations f g)

include h in
theorem mirrors_elementDoc (element : Element) :
    Mirrors f g id (elementDoc element) (elementDoc (Element.rewrite g element)) := by
  unfold elementDoc
  refine mirrors_bind (mirrors_scalarType (h.typeName element)) fun type => ?_
  refine mirrors_map (mirrors_package (h.elementPackage element)) fun package => ?_
  rw [h.elementDoc, h.isExplicit]
  rfl

variable {site : Site} (hindex : site.index.contains "" = false)

include h hindex in
theorem mirrors_member? (ancestors : List String) (pair : InheritedPair) :
    Mirrors f g id (member? site ancestors pair) (member? site ancestors (pair.rewrite g)) := by
  have hdoc : ∀ disposition, Mirrors f g id
      (do return site.member? pair.element disposition (← elementDoc pair.element) : CacheM _)
      (do
        let doc ← elementDoc (Element.rewrite g pair.element)
        return site.member? (Element.rewrite g pair.element) disposition doc) :=
    fun disposition => mirrors_map (mirrors_elementDoc h pair.element) fun doc =>
      Site.member?_rewritten h hindex pair.element disposition doc
  have hdisposition := h.disposition pair.element (Site.declaredCounterpart ancestors pair)
  have helement : (pair.rewrite g).element = Element.rewrite g pair.element := rfl
  unfold member?
  rw [declaredCounterpart_rewrite, helement, hdisposition]
  cases pair.element.disposition (Site.declaredCounterpart ancestors pair) with
  | inherited => exact mirrors_pure id none
  | own => exact hdoc .own
  | redocumented => exact hdoc .redocumented
  | redeclared => exact hdoc .redeclared

include h hindex in
theorem mirrors_recordAlias (table : Table) :
    Mirrors f g id (recordAlias site table) (recordAlias site (Table.rewrite f table)) :=
  mirrors_map (mirrors_package (h.package table)) fun package =>
    Site.recordAlias_rewritten h hindex table package

include h hindex in
theorem mirrors_fieldsInterface (table : Table) :
    Mirrors f g id (fieldsInterface site table) (fieldsInterface site (Table.rewrite f table)) := by
  unfold fieldsInterface
  refine mirrors_bind (Task.mirrors_within (LookupM.mirrors_fieldInheritance h.lineage table))
    fun inheritance => ?_
  rw [TableIndex.declaredAncestors_rewritten hindex h.lineage]
  refine mirrors_map (mirrors_mapM (mirrors_member? h hindex _) inheritance.pairs) fun members => ?_
  rw [List.map_id]
  exact Site.fieldsInterface_rewritten h hindex table inheritance.rootedAtBase _

end Declarations

theorem mirrors_scopes (keys : List String) :
    Mirrors f g id (keys.mapM fun key => scope (some key))
      (keys.mapM fun key => scope (some key)) := by
  induction keys with
  | nil => exact mirrors_pure id []
  | cons key keys ih =>
    rw [List.mapM_cons]
    exact mirrors_bind (mirrors_scope (some key)) fun _ => mirrors_map ih fun _ => rfl

theorem mirrors_scopeHeaders (group : Group) {tables : List Table}
    (hkeys : (tables.map (Table.rewrite f)).filterMap Table.scopeKey? =
      tables.filterMap Table.scopeKey?) :
    Mirrors f g id (PassM.scopeHeaders group tables)
      (PassM.scopeHeaders group (tables.map (Table.rewrite f))) := by
  unfold PassM.scopeHeaders
  rw [hkeys]
  exact mirrors_map (mirrors_scopes _) fun _ => rfl

end CacheM

end Ambient
