import Ambient.Command.Generate
import Ambient.Proofs.Files.Tree
import Ambient.Proofs.Layout.Partition

/-!
# What generating does to files

Opening a target either changes nothing or leaves an empty file that the target's path
leads to, and writing then fills that file. So generating changes one file at most. What
that file holds in the end is the text of the rendering, whatever became of the
rendering.
-/

namespace Ambient

open FileTree (PutFile key)
open Workspace (WorkspaceM)

namespace Workspace

/-- The run of a task on a workspace. -/
def run {α : Type} (w : Workspace) (task : WorkspaceM α) : α × Workspace := task w

/-- With a new tree, and one more file open at its beginning. -/
def opened (w : Workspace) (location : Location) (tree : FileTree) : Workspace :=
  { w with tree, openFiles := w.openFiles ++ [{ location }] }

variable (w : Workspace)

theorem run_bind {α β : Type} (task : WorkspaceM α) (next : α → WorkspaceM β) :
    w.run (task >>= next) = (w.run task).2.run (next (w.run task).1) := rfl

theorem run_pathExists (path : String) :
    w.run (Host.pathExists path) = (w.tree.contains path, w) := rfl

theorem run_isDirectory (path : String) :
    w.run (Host.isDirectory path) = (w.tree.isDirectory path, w) := rfl

theorem run_create? (path : String) :
    w.run (Host.create? path) =
      match w.tree.create? path with
      | none => (none, w)
      | some (location, tree) => (some w.openFiles.length, w.opened location tree) := by
  show (match w.tree.create? path with
    | none => (pure none : WorkspaceM (Option Nat))
    | some (location, tree) => do
      set (w.opened location tree)
      return some w.openFiles.length) w = _
  cases w.tree.create? path with
  | none => rfl
  | some made => rfl

end Workspace

/-! ## Opening and writing -/

/-- Why the check refuses a target, if it does. -/
def OutputTarget.refusal? (tree : FileTree) : OutputTarget → Option OutputError
  | .standardOutput => none
  | .file path overwrite =>
    if tree.contains path && overwrite = .never then some (.destinationExists path)
    else
      match Path.parent? path with
      | some parent =>
        if parent.isEmpty then none
        else if tree.isDirectory parent then none
        else some (.parentMissing path)
      | none => none

/-- The check looks at the files and leaves them as they are. -/
theorem run_check (w : Workspace) (target : OutputTarget) :
    w.run target.check =
      ((match target.refusal? w.tree with | some error => .error error | none => .ok ()), w) := by
  cases target with
  | standardOutput => rfl
  | file path overwrite =>
    rw [OutputTarget.check, OutputTarget.refusal?, Workspace.run_bind, Workspace.run_pathExists]
    by_cases hexists : (w.tree.contains path && decide (overwrite = .never)) = true
    · rw [if_pos hexists, if_pos hexists]
      rfl
    · rw [if_neg hexists, if_neg hexists]
      cases Path.parent? path with
      | none => rfl
      | some parent =>
        simp only
        by_cases hempty : parent.isEmpty = true
        · rw [if_pos hempty, if_pos hempty]
          rfl
        · rw [if_neg hempty, if_neg hempty, Workspace.run_bind, Workspace.run_isDirectory]
          by_cases hdirectory : w.tree.isDirectory parent = true
          · rw [if_pos hdirectory, if_pos hdirectory]
            rfl
          · rw [if_neg hdirectory, if_neg hdirectory]
            rfl

/-- The check lets a file pass that need not be kept and whose directory is there. -/
theorem refusal?_file_eq_none_iff {tree : FileTree} {path : String} {overwrite : Overwrite} :
    (OutputTarget.file path overwrite).refusal? tree = none ↔
      (overwrite = .never → tree.contains path = false) ∧
        ∀ parent ∈ Path.parent? path, parent.isEmpty = true ∨ tree.isDirectory parent = true := by
  have hkept : (tree.contains path && decide (overwrite = .never)) = true ↔
      ¬ (overwrite = .never → tree.contains path = false) := by
    rw [Bool.and_eq_true, decide_eq_true_eq, Classical.not_imp, Bool.not_eq_false, and_comm]
  rw [OutputTarget.refusal?]
  by_cases hexists : (tree.contains path && decide (overwrite = .never)) = true
  · rw [if_pos hexists]
    exact ⟨nofun, fun h => absurd h.1 (hkept.mp hexists)⟩
  · rw [if_neg hexists, and_iff_right (Classical.not_not.mp (mt hkept.mpr hexists))]
    cases Path.parent? path with
    | none => exact ⟨fun _ => nofun, fun _ => rfl⟩
    | some parent => simpa using Decidable.or_iff_not_imp_left.symm

/-- What comes of opening a target: the check comes first, and then a file is made. -/
inductive Opens (w : Workspace) :
    OutputTarget → Except OutputError (Sink Nat) × Workspace → Prop where
  | refused {target : OutputTarget} {error : OutputError} :
      target.refusal? w.tree = some error → Opens w target (.error error, w)
  | unwritable {path : String} {overwrite : Overwrite} :
      (OutputTarget.file path overwrite).refusal? w.tree = none → w.tree.create? path = none →
      Opens w (.file path overwrite) (.error (.unwritable path), w)
  | standardOutput : Opens w .standardOutput (.ok .standardOutput, w)
  | file {path : String} {overwrite : Overwrite} {location : Location} {tree : FileTree} :
      (OutputTarget.file path overwrite).refusal? w.tree = none →
      w.tree.create? path = some (location, tree) →
      Opens w (.file path overwrite)
        (.ok (.file path w.openFiles.length), w.opened location tree)

theorem opens_openSink (w : Workspace) (target : OutputTarget) :
    Opens w target (w.run target.openSink) := by
  unfold OutputTarget.openSink
  rw [Workspace.run_bind, run_check]
  cases hrefusal : target.refusal? w.tree with
  | some error => exact .refused hrefusal
  | none =>
    cases target with
    | standardOutput => exact .standardOutput
    | file path overwrite =>
      simp only
      rw [Workspace.run_bind, Workspace.run_create?]
      cases hcreate : w.tree.create? path with
      | none => exact .unwritable hrefusal hcreate
      | some made => exact .file hrefusal hcreate

/-- What is written into a file that was just made. -/
theorem putFile_write {w : Workspace} {path : String} {location : Location} {tree : FileTree}
    (h : w.tree.create? path = some (location, tree)) (text : String) :
    let after := (w.opened location tree).writeTo w.openFiles.length text
    PutFile w.tree location text.toUTF8 after.tree ∧
      after.tree.locate? path = some location := by
  intro after
  obtain ⟨hmade, hlocate⟩ := FileTree.create?_eq_some h
  have hafter : after.tree = tree.writeAt location 0 text.toUTF8 := by
    show ((w.opened location tree).writeTo w.openFiles.length text).tree = _
    rw [Workspace.writeTo, Workspace.opened, List.getElem?_concat_length]
  have hwritten := FileTree.putFile_writeAt hmade.node?_self 0 text.toUTF8
  rw [FileTree.overwriteBytes_empty, ← hafter] at hwritten
  exact ⟨hmade.trans hwritten, hwritten.locate?_of_before hlocate⟩

/-! ## Summaries -/

section Summary

variable {mode : RenderMode} {tables : List Table}

theorem length_partition_eq_zero_iff (mode : RenderMode) :
    ((partition mode tables).flatMap (·.2)).length = 0 ↔ tables = [] := by
  constructor
  · intro h
    refine List.eq_nil_iff_forall_not_mem.mpr fun table ht => ?_
    have hpart : (mode.groupOf table, _) ∈ partition mode tables :=
      mem_partition.mpr ⟨List.mem_map_of_mem ht, rfl⟩
    have hempty := List.flatMap_eq_nil_iff.mp (List.length_eq_zero_iff.mp h) _ hpart
    exact members_ne_nil hpart hempty
  · rintro rfl
    rfl

/-- However many groups were begun, all tables are counted. -/
theorem tables_of_render_ok {c : Connection} {session : Session} {summary : RenderSummary}
    (h : (render mode tables c session).result = .ok summary) :
    summary.tables = ((partition mode tables).flatMap (·.2)).length := by
  unfold render at h
  cases hrun : PassM.renderGroups (.ofGroups (partition mode tables)) (partition mode tables) c
      { lookups := { session } } with
  | mk outcome s =>
    simp only [hrun] at h
    cases outcome with
    | ok _ => rw [← Except.ok.inj h]
    | error stop =>
      cases stop with
      | cancelled => rw [← Except.ok.inj h]
      | failed failure => exact nomatch h

end Summary

/-- The report says that nothing was written. -/
def GenerateReport.TellsNothingWritten (report : GenerateReport) : Prop :=
  .warning "no tables selected; nothing was written" ∈ report.lines

theorem GenerateReport.tellsNothingWritten_iff (report : GenerateReport) :
    report.TellsNothingWritten ↔ report.summary.tables = 0 := by
  unfold TellsNothingWritten lines
  by_cases htables : report.summary.tables = 0
  · simp [htables]
  · cases report.summary.cancelled <;> simp [htables]

/-! ## Generating -/

section Generate

variable (mode : RenderMode) (tables : List Table) (target : OutputTarget) (c : Connection)
  (session : Session) (w : Workspace)

/-- With tables, the target is opened first, and then all is rendered and written. -/
theorem run_generate (hne : tables ≠ []) :
    let rendering := render mode tables c session
    w.run (generate mode tables target c session) =
      match w.run target.openSink with
      | (.error error, w') => ({ result := .error (.output error), session }, w')
      | (.ok sink, w') =>
        ({ result := rendering.result.mapError .lookup, session := rendering.session },
          (w'.run (sink.write rendering.document.text)).2) := by
  have hempty : tables.isEmpty = false := by
    cases tables with
    | nil => exact absurd rfl hne
    | cons table rest => rfl
  intro rendering
  unfold generate
  simp only [hempty, Bool.false_eq_true, if_false]
  rw [Workspace.run_bind]
  obtain ⟨outcome, w'⟩ := w.run target.openSink
  cases outcome <;> rfl

end Generate

/-- No file is changed but the one that the path of the target leads to. -/
structure ChangesOnly (target : OutputTarget) (before after : FileTree) : Prop where
  entries : ∀ name, (∀ path overwrite, target = .file path overwrite →
      (after.locate? path).map key ≠ some name) →
    after.entries.get? name = before.entries.get? name
  /-- Every path that does not lead there leads where it led, and reads what it read. -/
  paths : ∀ other, (∀ path overwrite, target = .file path overwrite →
      (after.locate? other).map key ≠ (after.locate? path).map key) →
    after.locate? other = before.locate? other ∧ after.read? other = before.read? other

theorem changesOnly_of_eq {target : OutputTarget} {before after : FileTree}
    (h : after = before) : ChangesOnly target before after := by
  subst h
  exact ⟨fun _ _ => rfl, fun _ _ => ⟨rfl, rfl⟩⟩

theorem changesOnly_of_putFile {path : String} {overwrite : Overwrite} {before after : FileTree}
    {location : Location} {content : ByteArray} (h : PutFile before location content after)
    (hlocate : after.locate? path = some location) :
    ChangesOnly (.file path overwrite) before after where
  entries name hname := by
    have hne := hname path overwrite rfl
    rw [hlocate] at hne
    exact h.others name fun heq => hne (congrArg some heq.symm)
  paths other hother := by
    have hne := hother path overwrite rfl
    rw [hlocate] at hne
    exact ⟨h.locate?_eq hne, h.read?_eq hne⟩

/-- What a run of `generate` comes to: what it answers, and the workspace it leaves. The cases are
told by the files there were before, by what the check says of them and by whether a file can be
made. -/
structure GeneratesInto (mode : RenderMode) (tables : List Table) (target : OutputTarget)
    (c : Connection) (session : Session) (w : Workspace) (generation : Generation)
    (w' : Workspace) : Prop where
  /-- Without tables nothing is changed and nothing looked up. -/
  empty : tables = [] → w' = w ∧ generation.session = session ∧ generation.result = .ok {}
  /-- The same goes for a target that the check refuses, but that is an error. -/
  refused : ∀ error, tables ≠ [] → target.refusal? w.tree = some error →
    w' = w ∧ generation.session = session ∧ generation.result = .error (.output error)
  /-- It goes for a file, too, that passes the check and cannot be made. -/
  unwritable : ∀ path overwrite, target = .file path overwrite → tables ≠ [] →
    target.refusal? w.tree = none → w.tree.create? path = none →
      w' = w ∧ generation.session = session ∧
        generation.result = .error (.output (.unwritable path))
  /-- A file that is there stays as it is where it is not to be overwritten. -/
  kept : ∀ path, target = .file path .never → w.tree.contains path = true → w' = w
  /-- In every other case the file holds what was rendered, however the rendering ended. -/
  written : ∀ path overwrite made, target = .file path overwrite → tables ≠ [] →
    target.refusal? w.tree = none → w.tree.create? path = some made →
      w'.tree.read? path = some (render mode tables c session).document.text.toUTF8
  /-- The answer is that of the rendering, and so are the lookups. -/
  answered : tables ≠ [] → target.refusal? w.tree = none →
    (∀ path overwrite, target = .file path overwrite → w.tree.create? path ≠ none) →
      generation.session = (render mode tables c session).session ∧
        generation.result = (render mode tables c session).result.mapError .lookup
  frame : ChangesOnly target w.tree w'.tree
  /-- The report tells that nothing was written exactly where there was no table. -/
  told : ∀ summary, generation.result = .ok summary →
    (GenerateReport.TellsNothingWritten { target, summary } ↔ tables = [])

section Outcomes

variable {mode : RenderMode} {tables : List Table} {target : OutputTarget} {c : Connection}
  {session : Session} {w w' : Workspace}

theorem generatesInto_nil :
    GeneratesInto mode [] target c session w { result := .ok {}, session } w where
  empty _ := ⟨rfl, rfl, rfl⟩
  refused _ hne := absurd rfl hne
  unwritable _ _ _ hne := absurd rfl hne
  kept _ _ _ := rfl
  written _ _ _ _ hne := absurd rfl hne
  answered hne := absurd rfl hne
  frame := changesOnly_of_eq rfl
  told summary hresult := by
    rw [GenerateReport.tellsNothingWritten_iff, ← Except.ok.inj hresult]
    exact ⟨fun _ => rfl, fun _ => rfl⟩

theorem generatesInto_of_refused {error : OutputError} (hne : tables ≠ [])
    (hrefusal : target.refusal? w.tree = some error) :
    GeneratesInto mode tables target c session w { result := .error (.output error), session }
      w where
  empty hempty := absurd hempty hne
  refused other _ hother := by
    rw [hrefusal] at hother
    rw [Option.some.inj hother]
    exact ⟨rfl, rfl, rfl⟩
  unwritable _ _ _ _ hpasses := by
    rw [hrefusal] at hpasses
    exact nomatch hpasses
  kept _ _ _ := rfl
  written _ _ _ _ _ hpasses := by
    rw [hrefusal] at hpasses
    exact nomatch hpasses
  answered _ hpasses := by
    rw [hrefusal] at hpasses
    exact nomatch hpasses
  frame := changesOnly_of_eq rfl
  told _ hresult := nomatch hresult

theorem generatesInto_of_unwritable {path : String} {overwrite : Overwrite} (hne : tables ≠ [])
    (hrefusal : (OutputTarget.file path overwrite).refusal? w.tree = none)
    (hcreate : w.tree.create? path = none) :
    GeneratesInto mode tables (.file path overwrite) c session w
      { result := .error (.output (.unwritable path)), session } w where
  empty hempty := absurd hempty hne
  refused _ _ hother := by
    rw [hrefusal] at hother
    exact nomatch hother
  unwritable _ _ htarget _ _ _ := by
    rw [(OutputTarget.file.inj htarget).1]
    exact ⟨rfl, rfl, rfl⟩
  kept _ _ _ := rfl
  written _ _ _ htarget _ _ hmade := by
    rw [← (OutputTarget.file.inj htarget).1, hcreate] at hmade
    exact nomatch hmade
  answered _ _ hopens := absurd hcreate (hopens path overwrite rfl)
  frame := changesOnly_of_eq rfl
  told _ hresult := nomatch hresult

/-- Once the target is open, what it takes to be shown is about the files only. -/
theorem generatesInto_of_opens (hne : tables ≠ []) (hrefusal : target.refusal? w.tree = none)
    (hmade : ∀ path overwrite, target = .file path overwrite → w.tree.create? path ≠ none)
    (hwritten : ∀ path overwrite, target = .file path overwrite →
      w'.tree.read? path = some (render mode tables c session).document.text.toUTF8)
    (hframe : ChangesOnly target w.tree w'.tree) :
    GeneratesInto mode tables target c session w
      { result := (render mode tables c session).result.mapError .lookup
        session := (render mode tables c session).session } w' where
  empty hempty := absurd hempty hne
  refused _ _ herror := by
    rw [hrefusal] at herror
    exact nomatch herror
  unwritable path overwrite htarget _ _ hcreate :=
    absurd hcreate (hmade path overwrite htarget)
  kept path htarget hexists := by
    subst htarget
    rw [(refusal?_file_eq_none_iff.mp hrefusal).1 rfl] at hexists
    exact nomatch hexists
  written path overwrite _ htarget _ _ _ := hwritten path overwrite htarget
  answered _ _ _ := ⟨rfl, rfl⟩
  frame := hframe
  told summary hresult := by
    rw [GenerateReport.tellsNothingWritten_iff, ← length_partition_eq_zero_iff mode]
    cases hrendered : (render mode tables c session).result with
    | error failure =>
      rw [hrendered] at hresult
      exact nomatch hresult
    | ok found =>
      rw [hrendered] at hresult
      rw [← Except.ok.inj hresult, tables_of_render_ok hrendered]

end Outcomes

/-- **Generating changes the target's file and no other**, and fills it with what was rendered.

That is so for every state of the files, whatever fails or is cancelled on the way. -/
theorem generatesInto_generate (mode : RenderMode) (tables : List Table) (target : OutputTarget)
    (c : Connection) (session : Session) (w : Workspace) :
    let outcome := w.run (generate mode tables target c session)
    GeneratesInto mode tables target c session w outcome.1 outcome.2 := by
  intro outcome
  by_cases hne : tables = []
  · subst hne
    exact generatesInto_nil
  have houtcome : outcome = _ := run_generate mode tables target c session w hne
  have hopens := opens_openSink w target
  generalize w.run target.openSink = opened at hopens houtcome
  rw [houtcome]
  cases hopens with
  | refused hrefusal => exact generatesInto_of_refused hne hrefusal
  | unwritable hrefusal hcreate => exact generatesInto_of_unwritable hne hrefusal hcreate
  | standardOutput =>
    exact generatesInto_of_opens hne rfl (fun _ _ h => nomatch h) (fun _ _ h => nomatch h)
      (changesOnly_of_eq rfl)
  | @file path overwrite location tree hrefusal hcreate =>
    obtain ⟨hput, hlocate⟩ :=
      putFile_write hcreate (render mode tables c session).document.text
    refine generatesInto_of_opens hne hrefusal ?_ ?_ (changesOnly_of_putFile hput hlocate)
    · rintro other _ ⟨⟩
      rw [hcreate]
      exact Option.some_ne_none _
    · rintro other _ ⟨⟩
      exact hput.read?_self hlocate

end Ambient
