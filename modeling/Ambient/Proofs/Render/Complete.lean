import Ambient.Proofs.Document.Cut
import Ambient.Proofs.Repository.Chain
import Ambient.Render.Generator

/-!
# The complete document

What a pass writes when nothing goes wrong is a function of the repository:
`Repository.document`. It is put together the way the passes are, without looking
anything up, and everything that is said about the output of a complete run is said
about it.

What a pass writes when it is stopped, by a lookup that fails or because it was
cancelled, is a cut of the same document. The two facts are proved together, by one
rule for each way in which passes are composed.
-/

namespace Ambient

open TypeScript (Alias Cut Document Interface Item Member)

namespace Repository

/-- The package that an attribute names, if it names one that is known. -/
def packageOf (repository : Repository) (name : Option String) : Option Package :=
  (Text.present? name).bind repository.package?

def recordAlias (repository : Repository) (site : Site) (table : Table) : Alias :=
  site.recordAlias table (repository.packageOf table.package)

def elementDoc (repository : Repository) (element : Element) : List String :=
  Doc.elementDoc element ((Text.present? (some element.typeName)).bind repository.scalarType?)
    (repository.packageOf element.package) (Scalar.isExplicit element.typeName)

/-- The entry for an element in the interface of its table. -/
def member? (repository : Repository) (site : Site) (ancestors : List String)
    (pair : InheritedPair) : Option Member :=
  site.member? pair.element (pair.element.disposition (Site.declaredCounterpart ancestors pair))
    (repository.elementDoc pair.element)

/-- The entries for the elements of a table, in element order. -/
def members (repository : Repository) (site : Site) (table : Table) : List Member :=
  (repository.fieldInheritance table).pairs.filterMap
    (repository.member? site (site.index.declaredAncestors table))

def fieldsInterface (repository : Repository) (site : Site) (table : Table) : Interface :=
  site.fieldsInterface table (repository.superTable? table).isNone (repository.members site table)

/-- What one of the three passes over a group declares for a table. -/
def declaration (repository : Repository) (site : Site) (kind : NamespaceKind) (table : Table) :
    Item :=
  match kind with
  | .records => .alias (repository.recordAlias site table)
  | .elements => .alias (site.elementAlias table)
  | .fields => .interface (repository.fieldsInterface site table)

/-- One of the three namespaces of a group. -/
def kindNamespace (repository : Repository) (site : Site) (tables : List Table)
    (kind : NamespaceKind) : Item :=
  .namespace site.group.namespaceKeyword (site.group.namespaceName kind)
    ((tables.map (repository.declaration site kind)).intersperse .blank)

/-- The three namespaces of a group. -/
def passesDocument (repository : Repository) (site : Site) (tables : List Table) : Document :=
  [repository.kindNamespace site tables .records, .blank,
    repository.kindNamespace site tables .elements, .blank,
    repository.kindNamespace site tables .fields]

def scopeHeaders (repository : Repository) (group : Group) (tables : List Table) :
    List (List String) :=
  (sortNames (tables.filterMap Table.scopeKey?)).filterMap fun key =>
    ((Text.present? (some key)).bind repository.scope?).bind group.scopeHeader?

def groupDocument (repository : Repository) (site : Site) (tables : List Table) : Document :=
  match site.group.enclosing? with
  | none => repository.passesDocument site tables
  | some name =>
    (repository.scopeHeaders site.group tables).map .comment
      ++ [.namespace "declare namespace" name (repository.passesDocument site tables)]

/-- The documents of some groups; `begun` tells that there is a group above them. -/
def groupsDocument (repository : Repository) (index : TableIndex) :
    (begun : Bool) → List (Group × List Table) → Document
  | _, [] => []
  | begun, (group, members) :: rest =>
    (if begun then [.blank] else []) ++ repository.groupDocument { group, index } members
      ++ repository.groupsDocument index true rest

/-- **The complete document** of some tables. -/
def document (repository : Repository) (mode : RenderMode) (tables : List Table) : Document :=
  repository.groupsDocument (.ofGroups (partition mode tables)) false (partition mode tables)

end Repository

/-! ## Declarations -/

namespace CacheM

variable {α : Type}

theorem answers_recordAlias (site : Site) (table : Table) :
    Answers (recordAlias site table) (·.recordAlias site table) :=
  Task.answers_map (site.recordAlias table) (answers_package table.package)

theorem answers_elementDoc (element : Element) :
    Answers (elementDoc element) (·.elementDoc element) := by
  let doc (type : Option ScalarType) (package : Option Package) : List String :=
    Doc.elementDoc element type package (Scalar.isExplicit element.typeName)
  unfold elementDoc
  refine Task.answers_bind (g := fun type r => doc type (r.packageOf element.package))
    (answers_scalarType element.typeName) fun type => ?_
  exact Task.answers_map (f := (·.packageOf element.package)) (doc type)
    (answers_package element.package)

theorem answers_member? (site : Site) (ancestors : List String) (pair : InheritedPair) :
    Answers (member? site ancestors pair) (·.member? site ancestors pair) := by
  unfold member? Repository.member?
  have hdoc := answers_elementDoc pair.element
  cases pair.element.disposition (Site.declaredCounterpart ancestors pair) with
  | inherited => exact Task.answers_pure none
  | own => exact Task.answers_map (site.member? pair.element .own) hdoc
  | redocumented => exact Task.answers_map (site.member? pair.element .redocumented) hdoc
  | redeclared => exact Task.answers_map (site.member? pair.element .redeclared) hdoc

theorem answers_fieldsInterface (site : Site) (table : Table) :
    Answers (fieldsInterface site table) (·.fieldsInterface site table) := by
  let made (inheritance : FieldInheritance) (r : Repository) : List (Option Member) :=
    inheritance.pairs.map (r.member? site (site.index.declaredAncestors table))
  let interface (inheritance : FieldInheritance) (members : List (Option Member)) : Interface :=
    site.fieldsInterface table inheritance.rootedAtBase (members.filterMap id)
  unfold fieldsInterface
  refine Task.Answers.congr (f := fun r =>
    interface (r.fieldInheritance table) (made (r.fieldInheritance table) r)) ?_ fun r => ?_
  · refine Task.answers_bind (g := fun inheritance r => interface inheritance (made inheritance r))
      (answers_ofLookup (LookupM.answers_fieldInheritance table)) fun inheritance => ?_
    exact Task.answers_map (f := made inheritance) (interface inheritance)
      (Task.answers_mapM (answers_member? site (site.index.declaredAncestors table))
        inheritance.pairs)
  · show site.fieldsInterface table _ (List.filterMap id (List.map _ _)) = _
    rw [List.filterMap_map]
    rfl

theorem answers_scopeHeaders (group : Group) (tables : List Table) :
    Answers (PassM.scopeHeaders group tables) (·.scopeHeaders group tables) := by
  refine (Task.answers_map
    (fun scopes => scopes.filterMap fun scope => scope.bind group.scopeHeader?)
    (Task.answers_mapM (fun key => answers_scope (some key))
      (sortNames (tables.filterMap Table.scopeKey?)))).congr fun r => ?_
  show List.filterMap _ (List.map _ _) = _
  rw [List.filterMap_map]
  rfl

end CacheM

/-! ## Passes -/

/-- A pass is calm until it is cancelled. -/
def PassState.Calm (state : PassState) : Prop := state.lookups.session.cancelled = false

/-- Every answer that the cache of the pass keeps is the repository's own. -/
def PassState.Kept (repository : Repository) (state : PassState) : Prop :=
  state.lookups.cache.Kept repository

namespace PassM

variable {α β : Type}

/-- What a task of a pass answers that adds nothing and begins no group. -/
abbrev Asks (task : PassM α) (f : Repository → α) : Prop :=
  ∀ (document : Document) (groups : Nat),
    Task.Answers (fun r s => s.Kept r ∧ s.document = document ∧ s.groups = groups)
      PassState.Calm task f

/-- How a task that adds items ends: it adds all of `whole` and begins `begun` groups, or stops
and leaves a cut of it. -/
inductive Adds (c : Connection) (s : PassState) (task : PassM Unit) (whole : Document)
    (begun : Nat) : Prop where
  | ended {s' : PassState} : task c s = (.ok (), s') → s'.Kept c.repository →
      s'.document = s.document ++ whole → s'.groups = s.groups + begun →
      (c.Quiet → s.Calm → s'.Calm) → Adds c s task whole begun
  | stopped {e : Stop} {s' : PassState} {cut : Document} : task c s = (.error e, s') →
      s'.document = s.document ++ cut → Cut cut whole → ¬ (c.Quiet ∧ s.Calm) →
      Adds c s task whole begun

/-- Wherever it is run, the task adds `whole` of the repository unless it is stopped. -/
def Writes (task : PassM Unit) (whole : Repository → Document) : Prop :=
  ∀ (c : Connection) (s : PassState), s.Kept c.repository → Adds c s task (whole c.repository) 0

theorem asks_ofCache {task : CacheM α} {f : Repository → α} (h : CacheM.Answers task f) :
    Asks (ofCache task) f := fun _ _ =>
  Task.answers_within h (fun hk => hk.1) (fun hk hk' => ⟨hk', hk.2⟩) (fun hc => hc) (fun hc => hc)

theorem checkpoint_apply (c : Connection) (s : PassState) :
    checkpoint c s =
      if s.lookups.session.cancelled then (.error .cancelled, s) else (.ok (), s) := by
  unfold checkpoint
  rw [Task.bind_of_ok (Task.get_apply c s)]
  split <;> rfl

theorem asks_checkpoint : Asks checkpoint (fun _ => ()) := by
  intro document groups c s hk
  have hrun := checkpoint_apply c s
  by_cases hcancelled : s.lookups.session.cancelled = true
  · rw [if_pos hcancelled] at hrun
    refine .stopped hrun hk fun h => ?_
    rw [PassState.Calm, hcancelled] at h
    exact nomatch h.2
  · rw [if_neg hcancelled] at hrun
    exact .ended hrun hk fun _ hcalm => hcalm

theorem Asks.map {task : PassM α} {f : Repository → α} (h : Asks task f) (g : α → β) :
    Asks (do return g (← task)) (fun r => g (f r)) := fun document groups =>
  Task.answers_map g (h document groups)

theorem Asks.afterCheckpoint {task : PassM α} {f : Repository → α} (h : Asks task f) :
    Asks (do checkpoint; task) f := fun document groups =>
  Task.answers_bind (asks_checkpoint document groups) fun _ => h document groups

theorem writes_nil : Writes (pure ()) (fun _ => []) := fun _ s hk =>
  .ended rfl hk (List.append_nil s.document).symm rfl fun _ hcalm => hcalm

theorem writes_add (item : Item) : Writes (add item) (fun _ => [item]) := fun c s hk =>
  .ended (Task.modify_apply _ c s) hk rfl rfl fun _ hcalm => hcalm

/-- First a question, then what is added on its answer. -/
theorem Adds.ask {c : Connection} {s : PassState} {task : PassM α} {f : Repository → α}
    {next : α → PassM Unit} {whole : Document} {begun : Nat} (hk : s.Kept c.repository)
    (ht : Asks task f)
    (hnext : ∀ s', s'.Kept c.repository → s'.groups = s.groups →
      Adds c s' (next (f c.repository)) whole begun) :
    Adds c s (task >>= next) whole begun := by
  cases ht s.document s.groups c s ⟨hk, rfl, rfl⟩ with
  | stopped hrun hk' hstop =>
    refine .stopped (Task.bind_of_error hrun) ?_ (.stop _) hstop
    rw [hk'.2.1, List.append_nil]
  | ended hrun hk' hcalm =>
    obtain ⟨hkept, hdocument, hgroups⟩ := hk'
    cases hnext _ hkept hgroups with
    | ended hrun' hk'' hdoc hgroups' hcalm' =>
      refine .ended (by rw [Task.bind_of_ok hrun, hrun']) hk'' ?_ (by rw [hgroups', hgroups])
        fun hq hc => hcalm' hq (hcalm hq hc)
      rw [hdoc, hdocument]
    | stopped hrun' hdoc hcut hstop =>
      refine .stopped (by rw [Task.bind_of_ok hrun, hrun']) ?_ hcut
        fun h => hstop ⟨h.1, hcalm h.1 h.2⟩
      rw [hdoc, hdocument]

/-- One task after the other: a stop of the first one leaves nothing of the second. -/
theorem Adds.bind {c : Connection} {s : PassState} {first second : PassM Unit}
    {whole whole' : Document} {begun begun' : Nat} (h : Adds c s first whole begun)
    (hnext : ∀ s', s'.Kept c.repository → s'.groups = s.groups + begun →
      Adds c s' second whole' begun') :
    Adds c s (first >>= fun _ => second) (whole ++ whole') (begun + begun') := by
  cases h with
  | stopped hrun hdoc hcut hstop =>
    exact .stopped (Task.bind_of_error hrun) hdoc (hcut.append_right whole') hstop
  | ended hrun hk hdoc hgroups hcalm =>
    cases hnext _ hk hgroups with
    | ended hrun' hk' hdoc' hgroups' hcalm' =>
      refine .ended (by rw [Task.bind_of_ok hrun, hrun']) hk' ?_ (by omega)
        fun hq hc => hcalm' hq (hcalm hq hc)
      rw [hdoc', hdoc, List.append_assoc]
    | stopped hrun' hdoc' hcut hstop =>
      refine .stopped (by rw [Task.bind_of_ok hrun, hrun']) ?_ (hcut.append_left whole)
        fun h => hstop ⟨h.1, hcalm h.1 h.2⟩
      rw [hdoc', hdoc, List.append_assoc]

theorem writes_ask {task : PassM α} {f : Repository → α} {next : α → PassM Unit}
    {whole : α → Repository → Document} (ht : Asks task f)
    (hn : ∀ a, Writes (next a) (whole a)) : Writes (task >>= next) (fun r => whole (f r) r) :=
  fun c _ hk => Adds.ask hk ht fun s' hk' _ => hn _ c s' hk'

theorem writes_bind {first second : PassM Unit} {whole whole' : Repository → Document}
    (h : Writes first whole) (h' : Writes second whole') :
    Writes (first >>= fun _ => second) (fun r => whole r ++ whole' r) := fun c s hk =>
  (h c s hk).bind fun s' hk' _ => h' c s' hk'

/-- A namespace is closed whether or not its body comes to its end. -/
theorem writes_enclose {body : PassM Unit} {whole : Repository → Document} (h : Writes body whole)
    (keyword name : String) :
    Writes (enclose keyword name body) (fun r => [.namespace keyword name (whole r)]) := by
  intro c s hk
  have hrun : enclose keyword name body c s =
      ((body c { s with document := [] }).1,
        { (body c { s with document := [] }).2 with
          document := s.document ++
            [.namespace keyword name (body c { s with document := [] }).2.document] }) := rfl
  cases h c { s with document := [] } hk with
  | ended hbody hk' hdoc hgroups hcalm =>
    rw [hbody, hdoc] at hrun
    exact .ended hrun hk' rfl hgroups hcalm
  | stopped hbody hdoc hcut hstop =>
    rw [hbody, hdoc] at hrun
    exact .stopped hrun rfl (.inside keyword name [] hcut) hstop

theorem Writes.congr {task : PassM Unit} {whole whole' : Repository → Document}
    (h : Writes task whole) (heq : ∀ r, whole r = whole' r) : Writes task whole' :=
  funext heq ▸ h

/-- Each item after the first one follows what stands between them. -/
theorem intersperse_cons (item apart : α) (items : List α) :
    (item :: items).intersperse apart = item :: items.flatMap fun next => [apart, next] := by
  induction items generalizing item with
  | nil => rfl
  | cons next items ih => rw [List.intersperse_cons_cons, ih next]; rfl

theorem writes_rest {unit : α → PassM Item} {f : α → Repository → Item}
    (h : ∀ a, Asks (unit a) (f a)) (items : List α) :
    Writes (addEach.rest unit items) (fun r => items.flatMap fun a => [.blank, f a r]) := by
  induction items with
  | nil => exact writes_nil
  | cons a items ih =>
    exact writes_ask (h a) fun made =>
      writes_bind (writes_add .blank) (writes_bind (writes_add made) ih)

theorem writes_addEach {unit : α → PassM Item} {f : α → Repository → Item}
    (h : ∀ a, Asks (unit a) (f a)) (items : List α) :
    Writes (addEach unit items) (fun r => (items.map (f · r)).intersperse .blank) := by
  cases items with
  | nil => exact writes_nil
  | cons a items =>
    refine (writes_ask (h a) fun made => writes_bind (writes_add made) (writes_rest h items)).congr
      fun r => ?_
    rw [List.map_cons, intersperse_cons, List.flatMap_map]
    rfl

/-! ## Groups -/

theorem writes_recordPass (site : Site) (tables : List Table) :
    Writes (recordPass site tables) (fun r => [r.kindNamespace site tables .records]) :=
  writes_enclose (writes_addEach (f := fun table r => r.declaration site .records table)
    (fun table => (asks_ofCache (CacheM.answers_recordAlias site table)).map Item.alias) tables) _ _

theorem writes_elementPass (site : Site) (tables : List Table) :
    Writes (elementPass site tables) (fun r => [r.kindNamespace site tables .elements]) :=
  writes_enclose (writes_addEach (f := fun table r => r.declaration site .elements table)
    (fun _ _ _ => Task.answers_pure _) tables) _ _

theorem writes_fieldsPass (site : Site) (tables : List Table) :
    Writes (fieldsPass site tables) (fun r => [r.kindNamespace site tables .fields]) :=
  writes_enclose (writes_addEach (f := fun table r => r.declaration site .fields table)
    (fun table => ((asks_ofCache
      (CacheM.answers_fieldsInterface site table)).map Item.interface).afterCheckpoint) tables) _ _

/-- A checkpoint adds nothing of its own. -/
theorem Writes.afterCheckpoint {task : PassM Unit} {whole : Repository → Document}
    (h : Writes task whole) : Writes (do checkpoint; task) whole :=
  writes_ask (f := fun _ => ()) asks_checkpoint fun _ => h

theorem writes_passes (site : Site) (tables : List Table) :
    Writes (passes site tables) (·.passesDocument site tables) := by
  have hfields := writes_bind (writes_add .blank) (writes_fieldsPass site tables)
  have helements := writes_bind (writes_add .blank)
    (writes_bind (writes_elementPass site tables) hfields.afterCheckpoint)
  exact (writes_bind (writes_recordPass site tables) helements.afterCheckpoint).afterCheckpoint

theorem writes_headers (headers : List (List String)) :
    Writes (headers.forM fun header => add (.comment header))
      (fun _ => headers.map .comment) := by
  induction headers with
  | nil => exact writes_nil
  | cons header headers ih => exact writes_bind (writes_add _) ih

theorem writes_renderGroup (site : Site) (tables : List Table) :
    Writes (renderGroup site tables) (·.groupDocument site tables) := by
  unfold renderGroup Repository.groupDocument
  cases site.group.enclosing? with
  | none => exact writes_passes site tables
  | some name =>
    exact writes_ask (asks_ofCache (CacheM.answers_scopeHeaders site.group tables)) fun headers =>
      writes_bind (writes_headers headers)
        (writes_enclose (writes_passes site tables) "declare namespace" name)

/-- The first group stands at the top, each further one is set off by a blank line. -/
theorem beginGroup_apply (c : Connection) (s : PassState) :
    beginGroup c s =
      (.ok (), { s with
        document := s.document ++ if s.groups ≠ 0 then [.blank] else []
        groups := s.groups + 1 }) := by
  unfold beginGroup
  rw [Task.bind_of_ok (Task.get_apply c s)]
  by_cases h : s.groups ≠ 0
  · rw [if_pos h, if_pos h]
    rfl
  · rw [if_neg h, if_neg h, List.append_nil]
    rfl

theorem adds_beginGroup {c : Connection} {s : PassState} (hk : s.Kept c.repository) :
    Adds c s beginGroup (if s.groups ≠ 0 then [.blank] else []) 1 :=
  .ended (beginGroup_apply c s) hk rfl rfl fun _ hcalm => hcalm

theorem adds_renderGroups (index : TableIndex) (groups : List (Group × List Table))
    {c : Connection} {s : PassState} (hk : s.Kept c.repository) :
    Adds c s (renderGroups index groups)
      (c.repository.groupsDocument index (decide (s.groups ≠ 0)) groups) groups.length := by
  induction groups generalizing s with
  | nil => exact .ended rfl hk (List.append_nil _).symm rfl fun _ hcalm => hcalm
  | cons first rest ih =>
    obtain ⟨group, members⟩ := first
    refine Adds.ask hk asks_checkpoint fun s₁ hk₁ hgroups₁ => ?_
    -- a group was begun, so the rest is written as what has a group above it
    have hrest : ∀ s', s'.Kept c.repository → s'.groups = s₁.groups + 1 →
        Adds c s' (renderGroups index rest) (c.repository.groupsDocument index true rest)
          rest.length := by
      intro s' hk' hgroups'
      have hbegun : decide (s'.groups ≠ 0) = true := decide_eq_true (by omega)
      exact hbegun ▸ ih hk'
    have hall := (adds_beginGroup hk₁).bind fun s₂ hk₂ hgroups₂ =>
      (writes_renderGroup { group, index } members c s₂ hk₂).bind fun s₃ hk₃ hgroups₃ =>
        hrest s₃ hk₃ (by omega)
    simp only [hgroups₁] at hall
    have hcount : rest.length + 1 = 1 + (0 + rest.length) := by omega
    rw [Repository.groupsDocument, List.append_assoc, List.length_cons, hcount]
    simpa only [decide_eq_true_eq] using hall

end PassM

/-! ## Renderings -/

section Render

variable (mode : RenderMode) (tables : List Table) (c : Connection) (session : Session)

theorem adds_render :
    PassM.Adds c { lookups := { session } }
      (PassM.renderGroups (.ofGroups (partition mode tables)) (partition mode tables))
      (c.repository.document mode tables) (partition mode tables).length :=
  PassM.adds_renderGroups _ _ (LookupCache.kept_empty c.repository)

/-- **What rendering leaves is a cut of the complete document**, wherever it was stopped. -/
theorem cut_render :
    Cut (render mode tables c session).document (c.repository.document mode tables) := by
  unfold render
  cases adds_render mode tables c session with
  | ended hrun _ hdoc _ _ =>
    rw [List.nil_append] at hdoc
    simp only [hrun, hdoc]
    exact Cut.refl _
  | stopped hrun hdoc hcut _ =>
    rw [List.nil_append] at hdoc
    simp only [hrun, hdoc]
    exact hcut

variable {c session}

/-- **Where nothing goes wrong, all of it is written**, and the summary counts it. -/
theorem render_of_quiet (hq : c.Quiet) (hcalm : session.cancelled = false) :
    (render mode tables c session).document = c.repository.document mode tables ∧
      (render mode tables c session).result = .ok
        { groups := (partition mode tables).length
          tables := ((partition mode tables).flatMap (·.2)).length } := by
  unfold render
  cases adds_render mode tables c session with
  | ended hrun _ hdoc hgroups _ =>
    rw [List.nil_append] at hdoc
    rw [Nat.zero_add] at hgroups
    simp only [hrun, hdoc, hgroups]
    exact ⟨trivial, trivial⟩
  | stopped _ _ _ hstop => exact absurd ⟨hq, hcalm⟩ hstop

end Render

/-- With nothing in its way, a rendering leaves the complete document. -/
theorem document_render (r : Repository) (mode : RenderMode) (tables : List Table) :
    (render mode tables { repository := r } {}).document = r.document mode tables :=
  (render_of_quiet mode tables r.quiet rfl).1

end Ambient
