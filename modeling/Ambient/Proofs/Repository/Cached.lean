import Ambient.Proofs.Repository.Sparing

/-!
# Calls on one cache

Whatever is asked through a cache is answered as it would be without one, and costs
one lookup for each different name of a kind, however often it is asked for and
whether or not there is such a thing. Only what fails is looked up each time.

`Settled` is the invariant of the cache: what it keeps is the repository's own, and
nothing is kept whose lookup fails. `Asked` says what one call does from there, and
the calls follow by induction.
-/

namespace Ambient

/-- A call on a cache. -/
inductive CacheCall where
  | package (name : Option String)
  | scope (name : Option String)
  | scalarType (name : String)
  deriving DecidableEq, Repr

/-- What a call finds, if it finds something. -/
inductive CacheCall.Found where
  | package (found : Option Package)
  | scope (found : Option Scope)
  | scalarType (found : Option ScalarType)
  deriving DecidableEq, Repr

namespace CacheCall

def run : CacheCall → CacheM Found
  | .package name => return .package (← CacheM.package name)
  | .scope name => return .scope (← CacheM.scope name)
  | .scalarType name => return .scalarType (← CacheM.scalarType name)

/-- The same without a cache: a lookup of the trimmed name, and none for a missing or blank one. -/
def direct : CacheCall → LookupM Found
  | .package name => return .package (← LookupM.follow LookupM.package name)
  | .scope name => return .scope (← LookupM.follow LookupM.scope name)
  | .scalarType name =>
    return .scalarType (← LookupM.follow LookupM.scalarType (some name))

/-- The lookup that a call asks for. -/
def lookup? : CacheCall → Option Lookup
  | .package name => (Text.present? name).map .package
  | .scope name => (Text.present? name).map .scope
  | .scalarType name => (Text.present? (some name)).map .scalarType

/-- Makes calls one after the other, also after one that failed. -/
def runAll (calls : List CacheCall) (connection : Connection) (state : CachedSession) :
    List (Except LookupFailure Found) × CachedSession :=
  match calls with
  | [] => ([], state)
  | call :: calls =>
    let (result, state) := call.run connection state
    let (results, state) := runAll calls connection state
    (result :: results, state)

end CacheCall

/-- Whether a lookup fails depends on what is looked up, and not on when. -/
def Connection.Steady (c : Connection) : Prop :=
  ∀ attempts lookup, c.failure? attempts lookup = c.failure? 0 lookup

/-- What the cache keeps is the repository's own, and its lookup does not fail. -/
structure LookupCache.Settled (c : Connection) (cache : LookupCache) : Prop where
  kept : cache.Kept c.repository
  served : ∀ {lookup}, cache.knows lookup → c.failure? 0 lookup = none

theorem LookupCache.settled_empty (c : Connection) : LookupCache.Settled c {} where
  kept := LookupCache.kept_empty c.repository
  served {lookup} h := by cases lookup <;> exact nomatch h

/-! ## One call -/

namespace CacheM

variable {α β : Type}

/-- What `task` does on a settled cache that asks for `lookup?`, as `direct` does without one. -/
structure Asked (c : Connection) (s : CachedSession) (task : CacheM α) (direct : LookupM α)
    (lookup? : Option Lookup) : Prop where
  result : ∀ session, (task c s).1 = (direct c session).1
  /-- There is a lookup unless the answer is known. -/
  makes : Task.Makes watch c task s (lookup?.toList.filter (! s.cache.knows ·))
  settled : (task c s).2.cache.Settled c
  /-- An answer is known from then on. -/
  knows : ∀ lookup, (task c s).2.cache.knows lookup = true ↔
    s.cache.knows lookup = true ∨ lookup? = some lookup ∧ c.failure? 0 lookup = none

theorem map_apply {σ ε : Type} (f : α → β) (task : Task σ ε α) (c : Connection) (s : σ) :
    (do return f (← task) : Task σ ε β) c s = ((task c s).1.map f, (task c s).2) := by
  rw [Task.bind_apply]
  cases task c s with
  | mk result s' => cases result <;> rfl

theorem error_of_map {σ ε : Type} {f : α → β} {task : Task σ ε α} {c : Connection} {s s' : σ}
    {e : ε} (h : (do return f (← task) : Task σ ε β) c s = (.error e, s')) :
    task c s = (.error e, s') := by
  rw [map_apply] at h
  cases hrun : task c s with
  | mk result left =>
    rw [hrun] at h
    cases result with
    | ok a => exact nomatch (Prod.mk.inj h).1
    | error e =>
      obtain ⟨he, hleft⟩ := Prod.mk.inj h
      exact Prod.ext (congrArg Except.error (Except.error.inj he)) hleft

theorem Asked.map {c : Connection} {s : CachedSession} {task : CacheM α} {direct : LookupM α}
    {lookup? : Option Lookup} (h : Asked c s task direct lookup?) (f : α → β) :
    Asked c s (do return f (← task)) (do return f (← direct)) lookup? where
  result session := by rw [map_apply, map_apply, h.result session]
  makes := h.makes.through (fun outcome => (outcome.1.map f, outcome.2))
    (fun other => map_apply f task other s) rfl (fun _ => rfl) fun _ _ => rfl
  settled := by
    rw [map_apply]
    exact h.settled
  knows := by
    rw [map_apply]
    exact h.knows

/-- A task that gives a known answer, or none, as it is. -/
theorem asked_of_known {c : Connection} {s : CachedSession} {task : CacheM α} {direct : LookupM α}
    {lookup? : Option Lookup} {a : α} (hrun : ∀ other, task other s = (.ok a, s))
    (hdirect : ∀ session, (direct c session).1 = .ok a) (hs : s.cache.Settled c)
    (hknown : ∀ lookup ∈ lookup?, s.cache.knows lookup = true) :
    Asked c s task direct lookup? where
  result session := by rw [hrun, hdirect]
  makes := by
    have hmade : lookup?.toList.filter (! s.cache.knows ·) = [] := by
      refine List.filter_eq_nil_iff.mpr fun lookup hlookup => ?_
      rw [hknown lookup (Option.mem_toList.mp hlookup)]
      exact nofun
    rw [hmade]
    exact .nil (fun other _ => by rw [hrun, hrun]) (by rw [hrun])
  settled := by rw [hrun]; exact hs
  knows lookup := by
    rw [hrun]
    exact ⟨.inl, fun h => h.elim id fun hasked => hknown lookup hasked.1⟩

section Answer

variable {kept : LookupCache → NameMap (Option α)}
  {keep : LookupCache → NameMap (Option α) → LookupCache} {find : String → LookupM (Option α)}
  {lookup : String → Lookup} {value : Repository → String → Option α} {key : String}
  {c : Connection} {s : CachedSession}

/-- A lookup that fails, or not, whenever it is made. -/
theorem fst_lookUp (hc : c.Steady) (lookup : Lookup) (answer : Repository → β) (session : Session) :
    ((lookUp lookup answer : LookupM β) c session).1 =
      match c.failure? 0 lookup with
      | some failure => .error failure
      | none => .ok (answer c.repository) := by
  rw [LookupM.lookUp_apply, hc]
  cases c.failure? 0 lookup <;> rfl

/-- A missing answer is looked up, and kept unless that fails. -/
theorem asked_fetch (h : Keeps kept keep find lookup value) (hc : c.Steady)
    (hs : s.cache.Settled c) (hmiss : (kept s.cache).get? key = none) :
    Asked c s (fetch kept keep find key) (find key) (some (lookup key)) := by
  have hunknown : s.cache.knows (lookup key) = false := by
    rw [h.knows, hmiss]
    rfl
  have hmade : (some (lookup key)).toList.filter (! s.cache.knows ·) = [lookup key] := by
    simp [hunknown]
  have hmakes := (spares_fetch h c hmiss).toMakes
  rw [← hmade] at hmakes
  have hfst := fst_lookUp hc (lookup key) (value · key)
  have hrun : fetch kept keep find key c s = _ := fetch_apply h c s
  cases hfind : (lookUp (lookup key) (value · key) : LookupM (Option α)) c s.session with
  | mk result session =>
    have hresult := hfst s.session
    rw [hfind] at hrun hresult
    cases hfailure : c.failure? 0 (lookup key) with
    | some failure =>
      rw [hfailure] at hresult hfst
      obtain rfl : result = .error failure := hresult
      exact {
        result := fun session => by rw [hrun, h.find, hfst]; rfl
        makes := hmakes
        settled := by rw [hrun]; exact hs
        knows := fun other => by
          rw [hrun]
          refine ⟨.inl, fun hother => hother.resolve_right fun hasked => ?_⟩
          rw [Option.some.inj hasked.1, hasked.2] at hfailure
          exact nomatch hfailure }
    | none =>
      rw [hfailure] at hresult hfst
      obtain rfl : result = .ok (value c.repository key) := hresult
      exact {
        result := fun session => by rw [hrun, h.find, hfst]; rfl
        makes := hmakes
        settled := by
          rw [hrun]
          refine ⟨h.keeps hs.kept, fun hother => ?_⟩
          rcases (h.learns s.cache key _ _).mp hother with hknown | rfl
          · exact hs.served hknown
          · exact hfailure
        knows := fun other => by
          rw [hrun]
          refine (h.learns s.cache key _ other).trans (or_congr_right ?_)
          constructor
          · rintro rfl
            exact ⟨rfl, hfailure⟩
          · exact fun hasked => (Option.some.inj hasked.1).symm }

theorem asked_answer (h : Keeps kept keep find lookup value) (hc : c.Steady)
    (hs : s.cache.Settled c) (name : Option String) :
    Asked c s (answer kept keep find name) (LookupM.follow find name)
      ((Text.present? name).map lookup) := by
  unfold LookupM.follow
  cases hname : Text.present? name with
  | none =>
    exact asked_of_known (fun other => answer_of_absent hname) (fun _ => rfl) hs nofun
  | some key =>
    cases hget : (kept s.cache).get? key with
    | some hit =>
      have hknown : s.cache.knows (lookup key) = true := by
        rw [h.knows, hget]
        rfl
      refine asked_of_known (fun other => answer_of_hit hname hget) (fun session => ?_) hs
        fun other hother => Option.some.inj hother ▸ hknown
      show (find key c session).1 = _
      rw [h.find, fst_lookUp hc, hs.served hknown, h.holds hs.kept hget]
    | none =>
      have hfetch := asked_fetch h hc hs hget
      have hrun : ∀ other, answer kept keep find name other s = fetch kept keep find key other s :=
        fun other => answer_of_unknown hname hget other
      exact {
        result := by rw [hrun]; exact hfetch.result
        makes := hfetch.makes.congr fun other _ => hrun other
        settled := by rw [hrun]; exact hfetch.settled
        knows := by rw [hrun]; exact hfetch.knows }

/-- A failed lookup leaves the cache as it was. -/
theorem cache_of_error (h : Keeps kept keep find lookup value) {name : Option String}
    {failure : LookupFailure} {s' : CachedSession}
    (hrun : answer kept keep find name c s = (.error failure, s')) : s'.cache = s.cache := by
  cases hname : Text.present? name with
  | none =>
    rw [answer_of_absent hname] at hrun
    exact nomatch (Prod.mk.inj hrun).1
  | some key =>
    cases hget : (kept s.cache).get? key with
    | some hit =>
      rw [answer_of_hit hname hget] at hrun
      exact nomatch (Prod.mk.inj hrun).1
    | none =>
      rw [answer_of_unknown hname hget, fetch_apply h] at hrun
      cases hfind : (lookUp (lookup key) (value · key) : LookupM (Option α)) c s.session with
      | mk result session =>
        rw [hfind] at hrun
        cases result with
        | ok found => exact nomatch (Prod.mk.inj hrun).1
        | error _ => rw [← (Prod.mk.inj hrun).2]

end Answer

end CacheM

/-! ## Calls -/

namespace CacheCall

open CacheM (Asked)

variable {c : Connection} {s : CachedSession}

theorem asked_run (hc : c.Steady) (hs : s.cache.Settled c) (call : CacheCall) :
    Asked c s call.run call.direct call.lookup? := by
  cases call with
  | package name => exact (CacheM.asked_answer CacheM.keeps_package hc hs name).map _
  | scope name => exact (CacheM.asked_answer CacheM.keeps_scope hc hs name).map _
  | scalarType name => exact (CacheM.asked_answer CacheM.keeps_scalarType hc hs (some name)).map _

/-- A call that fails leaves the cache as it was. -/
theorem cache_of_error {call : CacheCall} {failure : LookupFailure} {s' : CachedSession}
    (hrun : call.run c s = (.error failure, s')) : s'.cache = s.cache := by
  cases call with
  | package name => exact CacheM.cache_of_error CacheM.keeps_package (CacheM.error_of_map hrun)
  | scope name => exact CacheM.cache_of_error CacheM.keeps_scope (CacheM.error_of_map hrun)
  | scalarType name =>
    exact CacheM.cache_of_error CacheM.keeps_scalarType (CacheM.error_of_map hrun)

/-- The lookups that calls ask for, as often as they do. -/
def asked (calls : List CacheCall) : List Lookup := calls.filterMap lookup?

/-- The calls are answered from `s` as they are without a cache, at the cost of the lookups
`made`. -/
structure Transparent (c : Connection) (calls : List CacheCall) (s : CachedSession)
    (made : List Lookup) : Prop where
  results : ∀ session, (runAll calls c s).1 = calls.map fun call => (call.direct c session).1
  makes : c.Makes (fun other => runAll calls other s) (fun outcome failure =>
    .error failure ∈ outcome.1) s.session.attempts made
  counted : (runAll calls c s).2.session.attempts = s.session.attempts + made.length
  /-- What is asked for is looked up once, unless it is known. -/
  served : ∀ lookup, c.failure? 0 lookup = none →
    made.count lookup = if lookup ∈ asked calls ∧ s.cache.knows lookup = false then 1 else 0
  /-- What fails is looked up each time. -/
  failed : ∀ lookup failure, c.failure? 0 lookup = some failure →
    made.count lookup = (asked calls).count lookup

theorem runAll_cons (call : CacheCall) (calls : List CacheCall) (c : Connection)
    (s : CachedSession) :
    runAll (call :: calls) c s =
      ((call.run c s).1 :: (runAll calls c (call.run c s).2).1,
        (runAll calls c (call.run c s).2).2) := rfl

theorem asked_cons (call : CacheCall) (calls : List CacheCall) :
    asked (call :: calls) = call.lookup?.toList ++ asked calls := by
  unfold asked
  cases hcall : call.lookup? with
  | none => rw [List.filterMap_cons_none hcall]; rfl
  | some lookup => rw [List.filterMap_cons_some hcall]; rfl

theorem transparent_nil (c : Connection) (s : CachedSession) : Transparent c [] s [] where
  results _ := rfl
  makes := .nil fun _ _ => rfl
  counted := rfl
  served _ _ := rfl
  failed _ _ _ := rfl

/-- One call more, in front of calls from the state that it leaves. -/
theorem transparent_cons {call : CacheCall} {calls : List CacheCall} {made : List Lookup}
    (hs : s.cache.Settled c) (h : Asked c s call.run call.direct call.lookup?)
    (hrest : Transparent c calls (call.run c s).2 made) :
    Transparent c (call :: calls) s
      (call.lookup?.toList.filter (! s.cache.knows ·) ++ made) where
  results session := by
    rw [runAll_cons, h.result session, hrest.results session]
    rfl
  makes := by
    have hcounted := h.makes.counted
    change (call.run c s).2.session.attempts = s.session.attempts + _ at hcounted
    have hmakes := hrest.makes
    rw [hcounted] at hmakes
    let put (outcome : List (Except LookupFailure Found) × CachedSession) :=
      ((call.run c s).1 :: outcome.1, outcome.2)
    refine h.makes.run.append (hmakes.map put fun _ _ => List.mem_cons_of_mem _)
      (fun other hsame => ?_) fun other failure hfails => ?_
    · rw [runAll_cons, hsame]
    · exact hfails ▸ List.mem_cons_self
  counted := by
    have hcounted := h.makes.counted
    change (call.run c s).2.session.attempts = s.session.attempts + _ at hcounted
    rw [runAll_cons, hrest.counted, hcounted, List.length_append, Nat.add_assoc]
  served lookup hserved := by
    have hlater := h.knows lookup
    have hasked : lookup ∈ asked (call :: calls) ↔
        call.lookup? = some lookup ∨ lookup ∈ asked calls := by
      rw [asked_cons, List.mem_append, Option.mem_toList]
    rw [List.count_append, hrest.served lookup hserved]
    simp only [hasked]
    by_cases hcall : call.lookup? = some lookup
    · -- known from this call on, whether or not it was before
      have hknown := hlater.mpr (.inr ⟨hcall, hserved⟩)
      cases hbefore : s.cache.knows lookup <;> simp [hcall, hknown, hbefore]
    · have hsame : (call.run c s).2.cache.knows lookup = s.cache.knows lookup :=
        Bool.eq_iff_iff.mpr (hlater.trans (or_iff_left fun hother => hcall hother.1))
      have hnone : (call.lookup?.toList.filter (! s.cache.knows ·)).count lookup = 0 :=
        List.count_eq_zero.mpr fun hmem =>
          hcall (Option.mem_toList.mp (List.mem_filter.mp hmem).1)
      simp only [hnone, hsame, hcall, false_or, Nat.zero_add]
  failed lookup failure hfailed := by
    have hunknown : s.cache.knows lookup = false := by
      refine Bool.eq_false_iff.mpr fun hknown => ?_
      rw [hs.served hknown] at hfailed
      exact nomatch hfailed
    have hmissing : (call.lookup?.toList.filter (! s.cache.knows ·)).count lookup =
        call.lookup?.toList.count lookup := List.count_filter (by rw [hunknown]; rfl)
    rw [List.count_append, hrest.failed lookup failure hfailed, asked_cons, List.count_append,
      hmissing]

/-- Calls from a settled cache are transparent. -/
theorem exists_transparent (hc : c.Steady) (calls : List CacheCall) (hs : s.cache.Settled c) :
    ∃ made, Transparent c calls s made := by
  induction calls generalizing s with
  | nil => exact ⟨[], transparent_nil c s⟩
  | cons call calls ih =>
    have hcall := asked_run hc hs call
    obtain ⟨made, hrest⟩ := ih hcall.settled
    exact ⟨_, transparent_cons hs hcall hrest⟩

end CacheCall

end Ambient
