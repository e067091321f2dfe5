import Ambient.Proofs.Render.Complete
import Ambient.Proofs.Repository.Cached

/-!
# Sparing passes

All groups of a pass share one cache. So whatever the groups, the tables and their
elements have in common, a pass asks for no package, scope or scalar type twice, on
any connection, also where it is cancelled or a lookup fails.
-/

namespace Ambient

open TypeScript (Item)

namespace PassM

open Ambient.Task (Spares Sparing sparing_bind sparing_map sparing_pure)

variable {α : Type}

def watch : Watch PassState Stop where
  session := (·.lookups.session)
  raise := .failed
  knows state := state.lookups.cache.knows

theorem sparing_ofCache {task : CacheM α} (h : Sparing CacheM.watch task) :
    Sparing watch (ofCache task) := by
  intro c s
  obtain ⟨made, hmade⟩ := h c s.lookups
  exact ⟨made, hmade.through
    (fun outcome => (outcome.1.mapError Stop.failed, { s with lookups := outcome.2 }))
    (fun _ => rfl) rfl (fun _ => rfl) (fun _ _ => rfl) (fun _ _ _ h => nomatch h) rfl fun _ => rfl⟩

theorem sparing_checkpoint : Sparing watch checkpoint := by
  have hstate : ∀ c s, (checkpoint c s).2 = s := by
    intro c s
    rw [checkpoint_apply]
    split <;> rfl
  refine fun c s => ⟨[], .nil (fun other _ => ?_) ?_ ?_⟩
  · rw [checkpoint_apply, checkpoint_apply]
  · rw [hstate]
  · rw [hstate]

theorem sparing_add (item : Item) : Sparing watch (add item) := fun _ _ =>
  ⟨[], .nil (fun _ _ => rfl) rfl rfl⟩

/-- A namespace begins with what is known around it, and what it comes to know is known after it. -/
theorem sparing_enclose {body : PassM Unit} (h : Sparing watch body) (keyword name : String) :
    Sparing watch (enclose keyword name body) := by
  intro c s
  obtain ⟨made, hmade⟩ := h c { s with document := [] }
  exact ⟨made, hmade.through
    (fun outcome => (outcome.1, { outcome.2 with
      document := s.document ++ [.namespace keyword name outcome.2.document] }))
    (fun _ => rfl) rfl (fun _ => rfl) (fun _ _ => rfl) (fun _ _ _ h => nomatch h) rfl fun _ => rfl⟩

theorem sparing_rest {unit : α → PassM Item} (h : ∀ a, Sparing watch (unit a)) (items : List α) :
    Sparing watch (addEach.rest unit items) := by
  induction items with
  | nil => exact sparing_pure ()
  | cons a items ih =>
    exact sparing_bind (h a) fun made =>
      sparing_bind (sparing_add .blank) fun _ => sparing_bind (sparing_add made) fun _ => ih

theorem sparing_addEach {unit : α → PassM Item} (h : ∀ a, Sparing watch (unit a))
    (items : List α) : Sparing watch (addEach unit items) := by
  cases items with
  | nil => exact sparing_pure ()
  | cons a items =>
    exact sparing_bind (h a) fun made =>
      sparing_bind (sparing_add made) fun _ => sparing_rest h items

theorem sparing_passes (site : Site) (tables : List Table) :
    Sparing watch (passes site tables) := by
  have hrecords : Sparing watch (recordPass site tables) :=
    sparing_enclose (sparing_addEach (fun table =>
      sparing_map _ (sparing_ofCache (CacheM.sparing_recordAlias site table))) tables) _ _
  have helements : Sparing watch (elementPass site tables) :=
    sparing_enclose (sparing_addEach (fun _ => sparing_pure _) tables) _ _
  have hfields : Sparing watch (fieldsPass site tables) :=
    sparing_enclose (sparing_addEach (fun table => sparing_bind sparing_checkpoint fun _ =>
      sparing_map _ (sparing_ofCache (CacheM.sparing_fieldsInterface site table))) tables) _ _
  unfold passes
  exact sparing_bind sparing_checkpoint fun _ => sparing_bind hrecords fun _ =>
    sparing_bind sparing_checkpoint fun _ => sparing_bind (sparing_add .blank) fun _ =>
      sparing_bind helements fun _ => sparing_bind sparing_checkpoint fun _ =>
        sparing_bind (sparing_add .blank) fun _ => hfields

theorem sparing_headers (headers : List (List String)) :
    Sparing watch (headers.forM fun header => add (.comment header)) := by
  induction headers with
  | nil => exact sparing_pure ()
  | cons header headers ih => exact sparing_bind (sparing_add _) fun _ => ih

theorem sparing_renderGroup (site : Site) (tables : List Table) :
    Sparing watch (renderGroup site tables) := by
  unfold renderGroup
  cases site.group.enclosing? with
  | none => exact sparing_passes site tables
  | some name =>
    exact sparing_bind (sparing_ofCache (CacheM.sparing_scopeHeaders site.group tables))
      fun headers => sparing_bind (sparing_headers headers) fun _ =>
        sparing_enclose (sparing_passes site tables) _ name

theorem sparing_beginGroup : Sparing watch beginGroup := by
  refine fun c s => ⟨[], .nil (fun other _ => ?_) ?_ ?_⟩
  · rw [beginGroup_apply, beginGroup_apply]
  · rw [beginGroup_apply]
    rfl
  · rw [beginGroup_apply]
    rfl

theorem sparing_renderGroups (index : TableIndex) (groups : List (Group × List Table)) :
    Sparing watch (renderGroups index groups) := by
  induction groups with
  | nil => exact sparing_pure ()
  | cons entry rest ih =>
    exact sparing_bind sparing_checkpoint fun _ => sparing_bind sparing_beginGroup fun _ =>
      sparing_bind (sparing_renderGroup ⟨entry.1, index⟩ entry.2) fun _ => ih

end PassM

/-- What is made of the end of a pass over the groups. -/
def Rendering.ofOutcome (groups : List (Group × List Table))
    (outcome : Except Stop Unit × PassState) : Rendering where
  document := outcome.2.document
  session := outcome.2.lookups.session
  result :=
    let summary : RenderSummary :=
      { groups := outcome.2.groups, tables := (groups.flatMap (·.2)).length }
    match outcome.1 with
    | .ok () => .ok summary
    | .error .cancelled => .ok { summary with cancelled := true }
    | .error (.failed failure) => .error failure

/-- Of the lookups that a pass makes, none is made twice whose answer the cache keeps. -/
theorem exists_lookups_once (c : Connection) (mode : RenderMode) (tables : List Table)
    (session : Session) :
    ∃ made, c.Makes (fun other => render mode tables other session) (fun rendering failure =>
        rendering.result = .error failure) session.attempts made ∧
      (render mode tables c session).session.attempts = session.attempts + made.length ∧
      (made.filter Lookup.isKept).Nodup := by
  let groups := partition mode tables
  obtain ⟨made, hmade⟩ := PassM.sparing_renderGroups (.ofGroups groups) groups c
    { lookups := { session } }
  refine ⟨made, ?_, hmade.counted, hmade.nodup⟩
  refine hmade.run.map (Rendering.ofOutcome groups) fun outcome failure hfails => ?_
  show (Rendering.ofOutcome groups outcome).result = _
  simp only [Rendering.ofOutcome, hfails]
  rfl

/-- **The cache is transparent.**

Where lookups fail or not by what is looked up, calls on one cache are answered as they are without
it, and make one lookup for each name of a kind whose lookup does not fail. A call that fails leaves
the cache as it was. And a pass, wherever it is run, makes no lookup of a package, scope or scalar
type twice. -/
theorem cache_transparent :
    (∀ (c : Connection) (calls : List CacheCall) (session : Session), c.Steady →
      ∃ made, CacheCall.Transparent c calls { session } made) ∧
    (∀ (c : Connection) (call : CacheCall) (s s' : CachedSession) (failure : LookupFailure),
      call.run c s = (.error failure, s') → s'.cache = s.cache) ∧
    (∀ (c : Connection) (mode : RenderMode) (tables : List Table) (session : Session),
      ∃ made, c.Makes (fun other => render mode tables other session) (fun rendering failure =>
          rendering.result = .error failure) session.attempts made ∧
        (render mode tables c session).session.attempts = session.attempts + made.length ∧
        (made.filter Lookup.isKept).Nodup) := by
  refine ⟨fun c calls session hc => ?_, fun _ _ _ _ _ => CacheCall.cache_of_error,
    exists_lookups_once⟩
  exact CacheCall.exists_transparent hc calls (LookupCache.settled_empty c)

/-- One package is known, and the lookup of another one fails. -/
def Connection.packagesOnly : Connection where
  repository := Snapshot.repository { packages := .ofList [("core", none)] }
  failure? _ lookup := if lookup = .package "lost" then some ⟨"no answer"⟩ else none

/-- What is found, and what is not, is looked up once, and what fails each time. -/
theorem cache_transparent_packagesOnly :
    let calls : List CacheCall := [.package (some "core"), .package (some "lost"), .scope none,
      .package (some " core "), .package (some "lost"), .scalarType "core", .scalarType "core"]
    ∃ made, CacheCall.Transparent .packagesOnly calls {} made ∧
      made.count (.package "core") = 1 ∧ made.count (.package "lost") = 2 ∧
      made.count (.scalarType "core") = 1 := by
  intro calls
  have hsteady : Connection.packagesOnly.Steady := fun _ _ => rfl
  obtain ⟨made, h⟩ := cache_transparent.1 .packagesOnly calls {} hsteady
  refine ⟨made, h, ?_, ?_, ?_⟩
  · rw [h.served _ (by decide)]
    decide +kernel
  · rw [h.failed _ ⟨"no answer"⟩ (by decide)]
    decide +kernel
  · rw [h.served _ (by decide)]
    decide +kernel

end Ambient
