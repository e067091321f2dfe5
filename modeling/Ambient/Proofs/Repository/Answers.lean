import Ambient.Repository.Cache
import Ambient.Repository.Navigation

/-!
# What tasks answer

A task asks a connection, which may fail it or cancel it on the way. What it comes
to, if it comes to its end, does not depend on that: it is a function of the
repository alone. `Answers` says so of a task, and says besides that the task does
come to its end where nothing goes wrong.

The cache is where this is not obvious. A kept answer is given instead of a lookup,
so the answers kept have to be those of the repository: `LookupCache.Kept` is the
invariant, and every task keeps it, failed ones included.
-/

namespace Ambient

/-- Nothing goes wrong on the connection: no lookup fails, and none cancels the work. -/
structure Connection.Quiet (connection : Connection) : Prop where
  cancels : ∀ attempts lookup, connection.cancels attempts lookup = false
  failure : ∀ attempts lookup, connection.failure? attempts lookup = none

theorem Repository.quiet (repository : Repository) :
    Connection.Quiet { repository } :=
  ⟨fun _ _ => rfl, fun _ _ => rfl⟩

/-! ## Running a task -/

namespace Task

variable {σ τ ε ε' α β : Type}

theorem bind_apply (task : Task σ ε α) (next : α → Task σ ε β) (c : Connection) (s : σ) :
    (task >>= next) c s =
      match task c s with
      | (.ok a, s') => next a c s'
      | (.error e, s') => (.error e, s') := by
  simp only [bind, ReaderT.bind, ExceptT.bind, ExceptT.mk, StateT.bind]
  rcases task c s with ⟨_ | _, _⟩ <;> rfl

theorem bind_of_ok {task : Task σ ε α} {next : α → Task σ ε β} {c : Connection} {s s' : σ} {a : α}
    (h : task c s = (.ok a, s')) : (task >>= next) c s = next a c s' := by
  rw [bind_apply, h]

theorem bind_of_error {task : Task σ ε α} {next : α → Task σ ε β} {c : Connection} {s s' : σ}
    {e : ε} (h : task c s = (.error e, s')) : (task >>= next) c s = (.error e, s') := by
  rw [bind_apply, h]

/-- A composition that comes to its end has come to the end of its first part. -/
theorem exists_of_bind_eq_ok {task : Task σ ε α} {next : α → Task σ ε β} {c : Connection}
    {s s' : σ} {b : β} (h : (task >>= next) c s = (.ok b, s')) :
    ∃ a s₁, task c s = (.ok a, s₁) ∧ next a c s₁ = (.ok b, s') := by
  cases hrun : task c s with
  | mk result s₁ =>
    cases result with
    | error e =>
      rw [bind_of_error hrun] at h
      exact nomatch congrArg Prod.fst h
    | ok a =>
      rw [bind_of_ok hrun] at h
      exact ⟨a, s₁, rfl, h⟩

theorem get_apply (c : Connection) (s : σ) : (get : Task σ ε σ) c s = (.ok s, s) := rfl

theorem set_apply (t : σ) (c : Connection) (s : σ) : (set t : Task σ ε Unit) c s = (.ok (), t) :=
  rfl

theorem modify_apply (f : σ → σ) (c : Connection) (s : σ) :
    (modify f : Task σ ε Unit) c s = (.ok (), f s) := rfl

theorem read_apply (c : Connection) (s : σ) : (read : Task σ ε Connection) c s = (.ok c, s) := rfl

theorem within_of_ok {part : σ → τ} {replace : σ → τ → σ} {error : ε → ε'} {task : Task τ ε α}
    {c : Connection} {s : σ} {t : τ} {a : α} (h : task c (part s) = (.ok a, t)) :
    within part replace error task c s = (.ok a, replace s t) := by
  unfold within
  rw [h]
  rfl

theorem within_of_error {part : σ → τ} {replace : σ → τ → σ} {error : ε → ε'} {task : Task τ ε α}
    {c : Connection} {s : σ} {t : τ} {e : ε} (h : task c (part s) = (.error e, t)) :
    within part replace error task c s = (.error (error e), replace s t) := by
  unfold within
  rw [h]
  rfl

/-! ## Answers -/

/--
How `task` ends on `c` from the state `s`: with `a`, or stopped on the way.

`kept` is what the state keeps true of the repository, stopped or not, and `calm`
what the state looks like as long as nothing went wrong.
-/
inductive Outcome (kept : Repository → σ → Prop) (calm : σ → Prop) (c : Connection) (s : σ)
    (task : Task σ ε α) (a : α) : Prop where
  | ended {s' : σ} : task c s = (.ok a, s') → kept c.repository s' →
      (c.Quiet → calm s → calm s') → Outcome kept calm c s task a
  | stopped {e : ε} {s' : σ} : task c s = (.error e, s') → kept c.repository s' →
      ¬ (c.Quiet ∧ calm s) → Outcome kept calm c s task a

/-- Wherever it is run, `task` answers `f` of the repository unless it is stopped. -/
def Answers (kept : Repository → σ → Prop) (calm : σ → Prop) (task : Task σ ε α)
    (f : Repository → α) : Prop :=
  ∀ (c : Connection) (s : σ), kept c.repository s → Outcome kept calm c s task (f c.repository)

variable {kept : Repository → σ → Prop} {calm : σ → Prop}

theorem answers_pure (a : α) : Answers kept calm (pure a : Task σ ε α) (fun _ => a) :=
  fun _ _ hk => .ended rfl hk fun _ hcalm => hcalm

theorem answers_bind {task : Task σ ε α} {f : Repository → α} {next : α → Task σ ε β}
    {g : α → Repository → β} (ht : Answers kept calm task f)
    (hn : ∀ a, Answers kept calm (next a) (g a)) :
    Answers kept calm (task >>= next) (fun r => g (f r) r) := by
  intro c s hk
  cases ht c s hk with
  | stopped hrun hk' hstop => exact .stopped (bind_of_error hrun) hk' hstop
  | ended hrun hk' hcalm =>
    cases hn _ _ _ hk' with
    | ended hrun' hk'' hcalm' =>
      exact .ended (by rw [bind_of_ok hrun, hrun']) hk'' fun hq hc => hcalm' hq (hcalm hq hc)
    | stopped hrun' hk'' hstop =>
      exact .stopped (by rw [bind_of_ok hrun, hrun']) hk'' fun h => hstop ⟨h.1, hcalm h.1 h.2⟩

theorem Answers.congr {task : Task σ ε α} {f g : Repository → α} (h : Answers kept calm task f)
    (hfg : ∀ r, f r = g r) : Answers kept calm task g :=
  funext hfg ▸ h

/-- Where nothing goes wrong, the task comes to its end. -/
theorem Answers.run {task : Task σ ε α} {f : Repository → α} (h : Answers kept calm task f)
    {c : Connection} {s : σ} (hk : kept c.repository s) (hq : c.Quiet) (hcalm : calm s) :
    ∃ s', task c s = (.ok (f c.repository), s') ∧ kept c.repository s' ∧ calm s' := by
  cases h c s hk with
  | ended hrun hk' hcalm' => exact ⟨_, hrun, hk', hcalm' hq hcalm⟩
  | stopped _ _ hstop => exact absurd ⟨hq, hcalm⟩ hstop

/-- A task that reads the connection may use its repository. -/
theorem answers_read {next : Connection → Task σ ε β} {g : Repository → Repository → β}
    (h : ∀ c, Answers kept calm (next c) (g c.repository)) :
    Answers kept calm (read >>= next) (fun r => g r r) := by
  intro c s hk
  have hrun : (read >>= next) c s = next c c s := bind_of_ok (read_apply c s)
  cases h c c s hk with
  | ended hnext => exact .ended (hrun.trans hnext) ‹_› ‹_›
  | stopped hnext => exact .stopped (hrun.trans hnext) ‹_› ‹_›

theorem answers_map {task : Task σ ε α} {f : Repository → α} (g : α → β)
    (ht : Answers kept calm task f) :
    Answers kept calm (do return g (← task)) (fun r => g (f r)) :=
  answers_bind ht fun a => answers_pure (g a)

theorem answers_mapM {task : α → Task σ ε β} {f : α → Repository → β}
    (h : ∀ a, Answers kept calm (task a) (f a)) (items : List α) :
    Answers kept calm (items.mapM task) (fun r => items.map (f · r)) := by
  induction items with
  | nil => exact answers_pure []
  | cons a items ih =>
    rw [List.mapM_cons]
    exact answers_bind (h a) fun b => answers_map (b :: ·) ih

/-- A task on a part of the state, where the part stands for the whole. -/
theorem answers_within {part : σ → τ} {replace : σ → τ → σ} {error : ε → ε'}
    {kept' : Repository → τ → Prop} {calm' : τ → Prop} {task : Task τ ε α} {f : Repository → α}
    (ht : Answers kept' calm' task f) (hpart : ∀ {r s}, kept r s → kept' r (part s))
    (hreplace : ∀ {r s t}, kept r s → kept' r t → kept r (replace s t))
    (hcalm : ∀ {s}, calm s → calm' (part s)) (hcalm' : ∀ {s t}, calm' t → calm (replace s t)) :
    Answers kept calm (within part replace error task) f := by
  intro c s hk
  cases ht c (part s) (hpart hk) with
  | ended hrun hk' hc =>
    exact .ended (within_of_ok hrun) (hreplace hk hk') fun hq h => hcalm' (hc hq (hcalm h))
  | stopped hrun hk' hstop =>
    exact .stopped (within_of_error hrun) (hreplace hk hk') fun h => hstop ⟨h.1, hcalm h.2⟩

end Task

/-! ## Lookups -/

namespace LookupM

variable {α : Type}

/-- What a lookup answers; a session keeps nothing, and is calm until the work is cancelled. -/
abbrev Answers (task : LookupM α) (f : Repository → α) : Prop :=
  Task.Answers (fun _ _ => True) (fun session => session.cancelled = false) task f

theorem lookUp_apply (lookup : Lookup) (answer : Repository → α) (c : Connection) (s : Session) :
    lookUp lookup answer c s =
      let cancelled := s.cancelled || c.cancels s.attempts lookup
      match c.failure? s.attempts lookup with
      | some failure => (.error failure, { s with attempts := s.attempts + 1, cancelled })
      | none =>
        (.ok (answer c.repository),
          { attempts := s.attempts + 1, served := s.served + 1, cancelled }) := by
  unfold lookUp
  simp only [Task.bind_apply, Task.get_apply, Task.read_apply, Task.set_apply]
  cases c.failure? s.attempts lookup <;> rfl

theorem answers_lookUp (lookup : Lookup) (answer : Repository → α) :
    Answers (lookUp lookup answer) answer := by
  intro c s _
  have hrun := lookUp_apply lookup answer c s
  cases hfail : c.failure? s.attempts lookup with
  | none =>
    rw [hfail] at hrun
    refine .ended hrun trivial fun hq hcalm => ?_
    show (s.cancelled || c.cancels s.attempts lookup) = false
    rw [hcalm, hq.cancels]
    rfl
  | some failure =>
    rw [hfail] at hrun
    refine .stopped hrun trivial fun h => ?_
    rw [h.1.failure] at hfail
    exact nomatch hfail

theorem answers_table (name : String) : Answers (table name) (·.table? name) :=
  answers_lookUp _ _

theorem answers_elementsOf (t : Table) : Answers (elementsOf t) (·.elementsOf t.name) :=
  answers_lookUp _ _

theorem answers_package (name : String) : Answers (package name) (·.package? name) :=
  answers_lookUp _ _

theorem answers_scope (name : String) : Answers (scope name) (·.scope? name) :=
  answers_lookUp _ _

theorem answers_scalarType (name : String) : Answers (scalarType name) (·.scalarType? name) :=
  answers_lookUp _ _

theorem answers_follow {find : String → LookupM (Option α)} {f : String → Repository → Option α}
    (h : ∀ name, Answers (find name) (f name)) (name : Option String) :
    Answers (follow find name) (fun r => (Text.present? name).bind (f · r)) := by
  unfold follow
  cases Text.present? name with
  | none => exact Task.answers_pure none
  | some key => exact h key

end LookupM

/-! ## Lookups through the cache -/

/-- Every answer that is kept is the repository's own. -/
structure LookupCache.Kept (repository : Repository) (cache : LookupCache) : Prop where
  package : ∀ {name answer}, cache.packages.get? name = some answer →
    answer = repository.package? name
  scope : ∀ {name answer}, cache.scopes.get? name = some answer → answer = repository.scope? name
  scalarType : ∀ {name answer}, cache.types.get? name = some answer →
    answer = repository.scalarType? name

theorem LookupCache.kept_empty (repository : Repository) : LookupCache.Kept repository {} :=
  ⟨nofun, nofun, nofun⟩

/-- Keeping one more answer of a lookup. -/
theorem NameMap.get?_insert_of_kept {α : Type} {m : NameMap α} {f : String → α} {key : String}
    (h : ∀ {name answer}, m.get? name = some answer → answer = f name) {name : String} {answer : α}
    (hget : (m.insert key (f key)).get? name = some answer) : answer = f name := by
  rw [NameMap.get?_insert] at hget
  split at hget
  · rename_i heq
    rw [← heq]
    exact (Option.some.inj hget).symm
  · exact h hget

namespace CacheM

variable {α : Type}

/-- What a lookup through the cache answers. -/
abbrev Answers (task : CacheM α) (f : Repository → α) : Prop :=
  Task.Answers (fun repository state => state.cache.Kept repository)
    (fun state => state.session.cancelled = false) task f

theorem answers_ofLookup {task : LookupM α} {f : Repository → α} (h : LookupM.Answers task f) :
    Answers (ofLookup task) f :=
  Task.answers_within h (fun _ => trivial) (fun hk _ => hk) (fun hc => hc) (fun hc => hc)

section Answer

variable {kept : LookupCache → NameMap (Option α)}
  {keep : LookupCache → NameMap (Option α) → LookupCache} {find : String → LookupM (Option α)}
  {name : Option String} {key : String} {c : Connection} {s s' : CachedSession}

theorem answer_of_absent (h : Text.present? name = none) :
    answer kept keep find name c s = (.ok none, s) := by
  unfold answer
  rw [h]
  rfl

theorem answer_of_hit {hit : Option α} (h : Text.present? name = some key)
    (hhit : (kept s.cache).get? key = some hit) :
    answer kept keep find name c s = (.ok hit, s) := by
  unfold answer
  simp only [h]
  rw [Task.bind_of_ok (Task.get_apply c s), hhit]
  rfl

theorem answer_of_error {failure : LookupFailure} (h : Text.present? name = some key)
    (hmiss : (kept s.cache).get? key = none)
    (hfind : ofLookup (find key) c s = (.error failure, s')) :
    answer kept keep find name c s = (.error failure, s') := by
  unfold answer
  simp only [h]
  rw [Task.bind_of_ok (Task.get_apply c s), hmiss]
  exact Task.bind_of_error hfind

theorem answer_of_miss {found : Option α} (h : Text.present? name = some key)
    (hmiss : (kept s.cache).get? key = none)
    (hfind : ofLookup (find key) c s = (.ok found, s')) :
    answer kept keep find name c s =
      (.ok found, { s' with cache := keep s'.cache ((kept s'.cache).insert key found) }) := by
  unfold answer
  simp only [h]
  rw [Task.bind_of_ok (Task.get_apply c s), hmiss]
  exact Task.bind_of_ok hfind

/-- A kept answer is as good as a lookup. -/
theorem answers_answer {f : String → Repository → Option α}
    (hfind : ∀ key, LookupM.Answers (find key) (f key))
    (hkept : ∀ {r : Repository} {cache : LookupCache} {key : String} {found : Option α},
      cache.Kept r → (kept cache).get? key = some found → found = f key r)
    (hkeep : ∀ {r : Repository} {cache : LookupCache} (key : String), cache.Kept r →
      (keep cache ((kept cache).insert key (f key r))).Kept r)
    (name : Option String) :
    Answers (answer kept keep find name) (fun r => (Text.present? name).bind (f · r)) := by
  intro c s hk
  cases hname : Text.present? name with
  | none => exact .ended (answer_of_absent hname) hk fun _ hcalm => hcalm
  | some key =>
    show Task.Outcome _ _ c s _ (f key c.repository)
    cases hget : (kept s.cache).get? key with
    | some hit =>
      rw [← hkept hk hget]
      exact .ended (answer_of_hit hname hget) hk fun _ hcalm => hcalm
    | none =>
      cases answers_ofLookup (hfind key) c s hk with
      | stopped hrun hk' hstop => exact .stopped (answer_of_error hname hget hrun) hk' hstop
      | ended hrun hk' hcalm => exact .ended (answer_of_miss hname hget hrun) (hkeep key hk') hcalm

end Answer

theorem answers_package (name : Option String) :
    Answers (package name) (fun r => (Text.present? name).bind r.package?) :=
  answers_answer LookupM.answers_package (fun hk => hk.package)
    (fun _ hk => { hk with package := NameMap.get?_insert_of_kept hk.package }) name

theorem answers_scope (name : Option String) :
    Answers (scope name) (fun r => (Text.present? name).bind r.scope?) :=
  answers_answer LookupM.answers_scope (fun hk => hk.scope)
    (fun _ hk => { hk with scope := NameMap.get?_insert_of_kept hk.scope }) name

theorem answers_scalarType (name : String) :
    Answers (scalarType name) (fun r => (Text.present? (some name)).bind r.scalarType?) :=
  answers_answer LookupM.answers_scalarType (fun hk => hk.scalarType)
    (fun _ hk => { hk with scalarType := NameMap.get?_insert_of_kept hk.scalarType }) (some name)

end CacheM

end Ambient
