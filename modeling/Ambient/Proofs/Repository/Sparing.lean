import Ambient.Proofs.Repository.Made
import Ambient.Render.Group

/-!
# Sparing tasks

A sparing task makes no lookup for an answer that is known already, none twice whose
answer the cache keeps, and knows afterwards what it asked for. Sparing tasks make a
sparing task, one after the other, since what the first one asked for is known to the
second one. A task that ends early owes nothing afterwards: nothing comes after it.
-/

namespace Ambient

namespace Task

variable {σ τ ε ε' α β : Type}

/-- Run from `s`, the task makes the lookups `made`, and none of them needlessly. -/
structure Spares (w : Watch σ ε) (c : Connection) (task : Task σ ε α) (s : σ) (made : List Lookup) :
    Prop extends Makes w c task s made where
  /-- No answer was known before. -/
  fresh : ∀ lookup ∈ made, lookup.isKept → w.knows s lookup = false
  /-- No answer that is kept is asked for twice. -/
  nodup : (made.filter Lookup.isKept).Nodup
  /-- All of them are known afterwards, and what was known before still is. -/
  learned : ∀ {a s'}, task c s = (.ok a, s') → ∀ lookup,
    w.knows s lookup ∨ lookup ∈ made ∧ lookup.isKept → w.knows s' lookup

/-- Wherever it is run, the task is sparing. -/
def Sparing (w : Watch σ ε) (task : Task σ ε α) : Prop :=
  ∀ (c : Connection) (s : σ), ∃ made, Spares w c task s made

variable {w : Watch σ ε} {c : Connection} {s s' : σ} {made made' : List Lookup}

theorem Spares.nil {task : Task σ ε α}
    (h : ∀ other, other.repository = c.repository → task other s = task c s)
    (hs : w.session (task c s).2 = w.session s) (hknows : w.knows (task c s).2 = w.knows s) :
    Spares w c task s [] where
  toMakes := .nil h (congrArg Session.attempts hs)
  fresh _ hmem := absurd hmem List.not_mem_nil
  nodup := List.nodup_nil
  learned hrun lookup h := by
    rw [hrun] at hknows
    rw [hknows]
    exact h.resolve_right fun hmem => absurd hmem.1 List.not_mem_nil

theorem Spares.bind {task : Task σ ε α} {next : α → Task σ ε β} {a : α}
    (h : Spares w c task s made) (hrun : task c s = (.ok a, s'))
    (h' : Spares w c (next a) s' made') : Spares w c (task >>= next) s (made ++ made') where
  toMakes := h.toMakes.bind hrun h'.toMakes
  fresh lookup hmem hkept := by
    rcases List.mem_append.mp hmem with hmem | hmem
    · exact h.fresh lookup hmem hkept
    · -- what was known before would be known in between
      have hlater := h'.fresh lookup hmem hkept
      exact Bool.eq_false_iff.mpr fun hknown =>
        Bool.eq_false_iff.mp hlater (h.learned hrun lookup (.inl hknown))
  nodup := by
    rw [List.filter_append]
    refine List.nodup_append.mpr ⟨h.nodup, h'.nodup, fun first hfirst second hsecond heq => ?_⟩
    obtain ⟨hmem, hkept⟩ := List.mem_filter.mp hfirst
    obtain ⟨hmem', -⟩ := List.mem_filter.mp (heq ▸ hsecond)
    have hknown := h.learned hrun first (.inr ⟨hmem, hkept⟩)
    exact Bool.eq_false_iff.mp (h'.fresh first hmem' hkept) hknown
  learned hend lookup hlookup := by
    rw [bind_of_ok hrun] at hend
    refine h'.learned hend lookup ?_
    rcases hlookup with hknown | ⟨hmem, hkept⟩
    · exact .inl (h.learned hrun lookup (.inl hknown))
    · rcases List.mem_append.mp hmem with hmem | hmem
      · exact .inl (h.learned hrun lookup (.inr ⟨hmem, hkept⟩))
      · exact .inr ⟨hmem, hkept⟩

theorem Spares.bind_of_error {task : Task σ ε α} (next : α → Task σ ε β) {e : ε}
    (h : Spares w c task s made) (hrun : task c s = (.error e, s')) :
    Spares w c (task >>= next) s made where
  toMakes := h.toMakes.bind_of_error next hrun
  fresh := h.fresh
  nodup := h.nodup
  learned hend := by
    rw [Task.bind_of_error hrun] at hend
    exact nomatch (Prod.mk.inj hend).1

theorem Spares.congr {task task' : Task σ ε α} (h : Spares w c task s made)
    (heq : ∀ other, other.repository = c.repository → task' other s = task other s) :
    Spares w c task' s made where
  toMakes := h.toMakes.congr heq
  fresh := h.fresh
  nodup := h.nodup
  learned hrun := h.learned ((heq c rfl).symm.trans hrun)

/-- A task that runs another one on a state where the same is known. -/
theorem Spares.through {w' : Watch τ ε'} {inner : Task τ ε' α} {task : Task σ ε β} {t : τ}
    (h : Spares w' c inner t made) (g : Except ε' α × τ → Except ε β × σ)
    (hrun : ∀ other, task other s = g (inner other t)) (hsession : w.session s = w'.session t)
    (hsession' : ∀ outcome, w.session (g outcome).2 = w'.session outcome.2)
    (hraise : ∀ failure t', (g (.error (w'.raise failure), t')).1 = .error (w.raise failure))
    (hends : ∀ e t' b, (g (.error e, t')).1 ≠ .ok b)
    (hknows : w.knows s = w'.knows t)
    (hknows' : ∀ outcome, w.knows (g outcome).2 = w'.knows outcome.2) :
    Spares w c task s made where
  toMakes := h.toMakes.through g hrun hsession hsession' hraise
  fresh := by
    rw [hknows]
    exact h.fresh
  nodup := h.nodup
  learned := by
    intro b left hend lookup hlookup
    rw [hrun] at hend
    rw [hknows] at hlookup
    cases hinner : inner c t with
    | mk result t' =>
      rw [hinner] at hend
      cases result with
      | error e => exact absurd (congrArg Prod.fst hend) (hends e t' _)
      | ok a =>
        have hleft : (g (.ok a, t')).2 = left := congrArg Prod.snd hend
        rw [← hleft, hknows']
        exact h.learned hinner lookup hlookup

/-! ## Composition -/

theorem sparing_pure (a : α) : Sparing w (pure a : Task σ ε α) := fun _ _ =>
  ⟨[], .nil (fun _ _ => rfl) rfl rfl⟩

theorem sparing_bind {task : Task σ ε α} {next : α → Task σ ε β} (ht : Sparing w task)
    (hn : ∀ a, Sparing w (next a)) : Sparing w (task >>= next) := by
  intro c s
  obtain ⟨made, h⟩ := ht c s
  cases hrun : task c s with
  | mk result s' =>
    cases result with
    | error e => exact ⟨made, h.bind_of_error next hrun⟩
    | ok a =>
      obtain ⟨made', h'⟩ := hn a c s'
      exact ⟨made ++ made', h.bind hrun h'⟩

theorem sparing_map {task : Task σ ε α} (g : α → β) (ht : Sparing w task) :
    Sparing w (do return g (← task)) :=
  sparing_bind ht fun a => sparing_pure (g a)

theorem sparing_mapM {task : α → Task σ ε β} (h : ∀ a, Sparing w (task a)) (items : List α) :
    Sparing w (items.mapM task) := by
  induction items with
  | nil => exact sparing_pure []
  | cons a items ih =>
    rw [List.mapM_cons]
    exact sparing_bind (h a) fun b => sparing_map (b :: ·) ih

/-- A task may read the repository. -/
theorem sparing_read {next : Connection → Task σ ε β} (h : ∀ c, Sparing w (next c))
    (hnext : ∀ {c other}, other.repository = c.repository → next other = next c) :
    Sparing w (read >>= next) := by
  intro c s
  obtain ⟨made, hmade⟩ := h c c s
  refine ⟨made, hmade.congr fun other hother => ?_⟩
  rw [bind_of_ok (read_apply other s), hnext hother]

end Task

/-! ## Navigation -/

namespace LookupM

open Ambient.Task (Sparing sparing_bind sparing_map sparing_pure sparing_read)

variable {α : Type}

/-- Without a cache only lookups are sparing whose answers no cache keeps. -/
theorem sparing_lookUp {lookup : Lookup} (hkept : lookup.isKept = false)
    (answer : Repository → α) : Sparing watch (lookUp lookup answer) := by
  have hnone : ∀ other ∈ [lookup], ¬ other.isKept := fun other hother =>
    List.mem_singleton.mp hother ▸ Bool.eq_false_iff.mp hkept
  refine fun c s => ⟨[lookup], makes_lookUp lookup answer c s, fun other hmem h => ?_, ?_, ?_⟩
  · exact absurd h (hnone other hmem)
  · rw [List.filter_eq_nil_iff.mpr hnone]
    exact List.nodup_nil
  · exact fun _ other h => h.elim id fun hmem => absurd hmem.2 (hnone other hmem.1)

theorem sparing_superTableOf (t : Table) : Sparing watch (superTableOf t) := by
  unfold superTableOf follow
  cases Text.present? t.superName with
  | none => exact sparing_pure none
  | some name => exact sparing_lookUp rfl _

theorem sparing_climb {visit : Table → LookupM α} (hvisit : ∀ t, Sparing watch (visit t))
    (unmet : List String) (current : Table) : Sparing watch (climb visit unmet current) := by
  induction unmet, current using climb.induct with
  | case1 unmet current hmet ih =>
    rw [climb, dif_pos hmet]
    refine sparing_bind (hvisit current) fun seen =>
      sparing_bind (sparing_superTableOf current) fun found => ?_
    cases found with
    | none => exact sparing_pure _
    | some next => exact sparing_bind (ih next) fun _ => sparing_pure _
  | case2 unmet current hmet =>
    rw [climb, dif_neg hmet]
    exact sparing_pure _

theorem sparing_fieldInheritance (t : Table) : Sparing watch (fieldInheritance t) := by
  unfold fieldInheritance
  refine sparing_bind (sparing_lookUp rfl _) fun elements =>
    sparing_bind (sparing_superTableOf t) fun parent => ?_
  cases parent with
  | none => exact sparing_pure _
  | some parent =>
    refine sparing_read (fun c => ?_) fun hsame => ?_
    · exact sparing_bind (sparing_climb (fun _ => sparing_lookUp rfl _) _ parent) fun _ =>
        sparing_pure _
    · rw [hsame]

end LookupM

/-! ## Lookups through the cache -/

/-- The cache keeps an answer to the lookup. -/
def LookupCache.knows (cache : LookupCache) : Lookup → Bool
  | .table _ | .elements _ => false
  | .package name => (cache.packages.get? name).isSome
  | .scope name => (cache.scopes.get? name).isSome
  | .scalarType name => (cache.types.get? name).isSome

namespace CacheM

open Ambient.Task (Makes Spares Sparing sparing_bind sparing_map sparing_mapM sparing_pure)

variable {α : Type}

def watch : Watch CachedSession LookupFailure where
  session := (·.session)
  raise := id
  knows state := state.cache.knows

theorem ofLookup_apply (task : LookupM α) (c : Connection) (s : CachedSession) :
    ofLookup task c s = ((task c s.session).1.mapError id,
      { s with session := (task c s.session).2 }) := rfl

theorem makes_ofLookup {task : LookupM α} {c : Connection} {s : CachedSession} {made : List Lookup}
    (h : Makes LookupM.watch c task s.session made) : Makes watch c (ofLookup task) s made :=
  h.through (fun outcome => (outcome.1.mapError id, { s with session := outcome.2 }))
    (fun _ => rfl) rfl (fun _ => rfl) fun _ _ => rfl

/-- Lookups past the cache leave it as it is. -/
theorem sparing_ofLookup {task : LookupM α} (h : Sparing LookupM.watch task) :
    Sparing watch (ofLookup task) := by
  intro c s
  obtain ⟨made, hmade⟩ := h c s.session
  have hnone : ∀ lookup ∈ made, ¬ lookup.isKept := by
    intro lookup hmem hkept
    have hfresh := hmade.fresh lookup hmem hkept
    exact Bool.eq_false_iff.mp hfresh hkept
  refine ⟨made, makes_ofLookup hmade.toMakes, fun lookup hmem hkept => ?_, hmade.nodup, ?_⟩
  · exact absurd hkept (hnone lookup hmem)
  · intro a s' hrun lookup hlookup
    rw [ofLookup_apply] at hrun
    rw [← (Prod.mk.inj hrun).2]
    exact hlookup.resolve_right fun hmem => hnone lookup hmem.1 hmem.2

/-- What `kept` gives and `keep` puts are the answers to `lookup`: `value` of the repository. -/
structure Keeps (kept : LookupCache → NameMap (Option α))
    (keep : LookupCache → NameMap (Option α) → LookupCache) (find : String → LookupM (Option α))
    (lookup : String → Lookup) (value : Repository → String → Option α) : Prop where
  find : ∀ key, find key = lookUp (lookup key) (value · key)
  isKept : ∀ key, (lookup key).isKept
  knows : ∀ cache key, cache.knows (lookup key) = ((kept cache).get? key).isSome
  learns : ∀ cache key found other,
    (keep cache ((kept cache).insert key found)).knows other = true ↔
      cache.knows other = true ∨ other = lookup key
  holds : ∀ {r : Repository} {cache : LookupCache} {key found}, cache.Kept r →
    (kept cache).get? key = some found → found = value r key
  keeps : ∀ {r : Repository} {cache : LookupCache} {key}, cache.Kept r →
    (keep cache ((kept cache).insert key (value r key))).Kept r

theorem isSome_get?_insert {β : Type} (m : NameMap β) (key other : String) (value : β) :
    ((m.insert key value).get? other).isSome = true ↔
      (m.get? other).isSome = true ∨ other = key := by
  rw [NameMap.get?_insert]
  by_cases h : key = other
  · simp [h]
  · simp [h, Ne.symm h]

theorem keeps_package : Keeps (·.packages) (fun cache packages => { cache with packages })
    LookupM.package .package (·.package? ·) where
  find _ := rfl
  isKept _ := rfl
  knows _ _ := rfl
  learns cache key found other := by
    cases other <;> simp [LookupCache.knows, isSome_get?_insert]
  holds hk := hk.package
  keeps hk := { hk with package := NameMap.get?_insert_of_kept hk.package }

theorem keeps_scope : Keeps (·.scopes) (fun cache scopes => { cache with scopes })
    LookupM.scope .scope (·.scope? ·) where
  find _ := rfl
  isKept _ := rfl
  knows _ _ := rfl
  learns cache key found other := by
    cases other <;> simp [LookupCache.knows, isSome_get?_insert]
  holds hk := hk.scope
  keeps hk := { hk with scope := NameMap.get?_insert_of_kept hk.scope }

theorem keeps_scalarType : Keeps (·.types) (fun cache types => { cache with types })
    LookupM.scalarType .scalarType (·.scalarType? ·) where
  find _ := rfl
  isKept _ := rfl
  knows _ _ := rfl
  learns cache key found other := by
    cases other <;> simp [LookupCache.knows, isSome_get?_insert]
  holds hk := hk.scalarType
  keeps hk := { hk with scalarType := NameMap.get?_insert_of_kept hk.scalarType }

section Answer

variable {kept : LookupCache → NameMap (Option α)}
  {keep : LookupCache → NameMap (Option α) → LookupCache} {find : String → LookupM (Option α)}
  {lookup : String → Lookup} {value : Repository → String → Option α} {name : Option String}
  {key : String} {s : CachedSession}

/-- The lookup for a missing answer, and what is done with the answer. -/
def fetch (kept : LookupCache → NameMap (Option α))
    (keep : LookupCache → NameMap (Option α) → LookupCache) (find : String → LookupM (Option α))
    (key : String) : CacheM (Option α) := do
  let found ← ofLookup (find key)
  modify fun state =>
    { state with cache := keep state.cache ((kept state.cache).insert key found) }
  return found

theorem answer_of_unknown (hname : Text.present? name = some key)
    (hmiss : (kept s.cache).get? key = none) (c : Connection) :
    answer kept keep find name c s = fetch kept keep find key c s := by
  unfold answer
  simp only [hname]
  rw [Task.bind_of_ok (Task.get_apply c s), hmiss]
  rfl

/-- What is made of the lookup: its answer is kept. -/
def fetched (kept : LookupCache → NameMap (Option α))
    (keep : LookupCache → NameMap (Option α) → LookupCache) (key : String) (s : CachedSession) :
    Except LookupFailure (Option α) × Session → Except LookupFailure (Option α) × CachedSession
  | (.ok found, session) =>
    (.ok found, { session, cache := keep s.cache ((kept s.cache).insert key found) })
  | (.error failure, session) => (.error failure, { s with session })

theorem fetch_apply (h : Keeps kept keep find lookup value) (c : Connection) (s : CachedSession) :
    fetch kept keep find key c s =
      fetched kept keep key s (lookUp (lookup key) (value · key) c s.session) := by
  unfold fetch
  rw [Task.bind_apply, ofLookup_apply, h.find]
  cases (lookUp (lookup key) (value · key) : LookupM (Option α)) c s.session with
  | mk result session => cases result <;> rfl

/-- A missing answer is looked up once. -/
theorem spares_fetch (h : Keeps kept keep find lookup value) (c : Connection)
    (hmiss : (kept s.cache).get? key = none) :
    Spares watch c (fetch kept keep find key) s [lookup key] where
  toMakes := by
    refine (LookupM.makes_lookUp (lookup key) (value · key) c s.session).through
      (fetched kept keep key s) (fun other => fetch_apply h other s) rfl (fun outcome => ?_)
      fun _ _ => rfl
    obtain ⟨_ | found, session⟩ := outcome <;> rfl
  fresh other hmem _ := by
    rw [List.mem_singleton.mp hmem]
    show s.cache.knows (lookup key) = false
    rw [h.knows, hmiss]
    rfl
  nodup := List.Pairwise.filter _ (List.pairwise_singleton _ _)
  learned hrun other hother := by
    rw [fetch_apply h] at hrun
    cases hfind : (lookUp (lookup key) (value · key) : LookupM (Option α)) c s.session with
    | mk result session =>
      rw [hfind] at hrun
      cases result with
      | error failure => exact nomatch (Prod.mk.inj hrun).1
      | ok found =>
        rw [← (Prod.mk.inj hrun).2]
        refine (h.learns s.cache key found other).mpr (hother.imp_right fun hmem => ?_)
        exact List.mem_singleton.mp hmem.1

theorem sparing_answer (h : Keeps kept keep find lookup value) (name : Option String) :
    Sparing watch (answer kept keep find name) := by
  intro c s
  cases hname : Text.present? name with
  | none =>
    have hrun : ∀ other, answer kept keep find name other s = (.ok none, s) :=
      fun other => answer_of_absent hname
    exact ⟨[], .nil (fun other _ => by rw [hrun, hrun]) (by rw [hrun]) (by rw [hrun])⟩
  | some key =>
    cases hget : (kept s.cache).get? key with
    | some hit =>
      have hrun : ∀ other, answer kept keep find name other s = (.ok hit, s) :=
        fun other => answer_of_hit hname hget
      exact ⟨[], .nil (fun other _ => by rw [hrun, hrun]) (by rw [hrun]) (by rw [hrun])⟩
    | none =>
      exact ⟨[lookup key], (spares_fetch h c hget).congr fun other _ =>
        answer_of_unknown hname hget other⟩

end Answer

theorem sparing_package (name : Option String) : Sparing watch (package name) :=
  sparing_answer keeps_package name

theorem sparing_scope (name : Option String) : Sparing watch (scope name) :=
  sparing_answer keeps_scope name

theorem sparing_scalarType (name : String) : Sparing watch (scalarType name) :=
  sparing_answer keeps_scalarType (some name)

/-! ## Declarations -/

theorem sparing_recordAlias (site : Site) (table : Table) :
    Sparing watch (recordAlias site table) :=
  sparing_map _ (sparing_package table.package)

theorem sparing_elementDoc (element : Element) : Sparing watch (elementDoc element) :=
  sparing_bind (sparing_scalarType element.typeName) fun _ =>
    sparing_map _ (sparing_package element.package)

theorem sparing_member? (site : Site) (ancestors : List String) (pair : InheritedPair) :
    Sparing watch (member? site ancestors pair) := by
  have hdoc := sparing_elementDoc pair.element
  unfold member?
  cases pair.element.disposition (Site.declaredCounterpart ancestors pair) with
  | inherited => exact sparing_pure none
  | own => exact sparing_map _ hdoc
  | redocumented => exact sparing_map _ hdoc
  | redeclared => exact sparing_map _ hdoc

theorem sparing_fieldsInterface (site : Site) (table : Table) :
    Sparing watch (fieldsInterface site table) :=
  sparing_bind (sparing_ofLookup (LookupM.sparing_fieldInheritance table)) fun inheritance =>
    sparing_map _ (sparing_mapM (sparing_member? site _) inheritance.pairs)

theorem sparing_scopeHeaders (group : Group) (tables : List Table) :
    Sparing watch (PassM.scopeHeaders group tables) :=
  sparing_map _ (sparing_mapM (fun key => sparing_scope (some key)) _)

end CacheM

end Ambient
