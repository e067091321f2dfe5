import Ambient.Command.Program
import Ambient.Proofs.Command.Arguments
import Ambient.Proofs.Command.Generated
import Ambient.Proofs.Render.Complete
import Ambient.Proofs.Selection.Selected

/-!
# Dry runs

A dry run differs from a run that writes a file in its target alone. What is selected and
what is rendered is found out in the same way, and standard output is a target that nothing
is in the way of. So what a dry run shows is what the file gets, if the file gets anything.
-/

namespace Ambient

open Program (ExitCode runGenerate printReport)

/-! ## Printing -/

namespace Workspace

/-- With more on the standard output. -/
def printed (w : Workspace) (text : String) : Workspace :=
  { w with output := w.output ++ text }

/-- With one more line beside it. -/
def notified (w : Workspace) (text : String) : Workspace :=
  { w with notices := w.notices ++ [text] }

/-- The files are those of `before`, and no others are open. -/
def SameFiles (before after : Workspace) : Prop :=
  after.tree = before.tree ∧ after.openFiles = before.openFiles

theorem run_read? (w : Workspace) (path : String) :
    w.run (Host.read? path) = (w.tree.read? path, w) := rfl

theorem SameFiles.trans {first second third : Workspace} (h : SameFiles first second)
    (h' : SameFiles second third) : SameFiles first third :=
  ⟨h'.1.trans h.1, h'.2.trans h.2⟩

theorem sameFiles_print (w : Workspace) (line : ReportLine) :
    SameFiles w (w.run (line.print (m := WorkspaceM))).2 := by
  cases line <;> exact ⟨rfl, rfl⟩

theorem sameFiles_printReport (w : Workspace) (lines : List ReportLine) :
    SameFiles w (w.run (printReport lines)).2 := by
  induction lines generalizing w with
  | nil => exact ⟨rfl, rfl⟩
  | cons line rest ih => exact (sameFiles_print w line).trans (ih _)

theorem length_openFiles_writeTo (w : Workspace) (handle : Nat) (text : String) :
    (w.writeTo handle text).openFiles.length = w.openFiles.length := by
  unfold writeTo
  cases w.openFiles[handle]? with
  | none => rfl
  | some file => exact List.length_set

end Workspace

open Workspace (SameFiles)

/-! ## Selections -/

/-- Of known names there is a selection, and it is empty only where there is nothing to select. -/
theorem exists_selectTables (r : Repository) {names : List String}
    (hknown : r.unknown? names = none) :
    ∃ tables session, selectTables names { repository := r } {} = (.ok tables, session) ∧
      session.cancelled = false ∧ (tables = [] ↔ names = [] ∧ r.allTables = []) := by
  have hcalm : (selectTables names { repository := r } {}).2.cancelled = false :=
    calm_of_selectTables r.quiet rfl
  by_cases hnames : names = []
  · subst hnames
    exact ⟨r.allTables, _, Prod.ext (selectTables_nil r) rfl, hcalm, by simp⟩
  · obtain ⟨tables, hok, hleast⟩ := exists_selected r hnames hknown
    refine ⟨tables, _, Prod.ext hok rfl, hcalm, ?_⟩
    obtain ⟨name, hname⟩ := List.exists_mem_of_ne_nil names hnames
    have hthere : r.table? name ≠ none := by simpa using List.find?_eq_none.mp hknown name hname
    obtain ⟨named, hnamed⟩ := Option.ne_none_iff_exists'.mp hthere
    have hmem : named ∈ tables := (hleast.mem_iff named).mpr ⟨name, hname, named, hnamed, .refl⟩
    exact ⟨fun hempty => absurd hmem (hempty ▸ List.not_mem_nil), fun h => absurd h.1 hnames⟩

/-! ## Runs of the command -/

/-- A command line that asks to generate leads to the command, if there is a snapshot. -/
theorem run_of_generate {w : Workspace} {line : List String} {path : String}
    {options : GenerateOptions} {snapshot : Snapshot}
    (hparse : Arguments.parse line = .ok (.generate path options))
    (hread : Snapshot.ofFile path (w.tree.read? path) = .ok snapshot) :
    w.run (Program.run line) =
      w.run (runGenerate options { repository := snapshot.repository }) := by
  unfold Program.run
  rw [hparse]
  show w.run (Program.withSnapshot path (runGenerate options)) = _
  unfold Program.withSnapshot
  rw [Workspace.run_bind, Workspace.run_read?]
  simp only [hread]

section Runs

variable {r : Repository} {options : GenerateOptions} {tables : List Table} {session : Session}
  (w : Workspace)

/-- Nobody can cancel a run of the program, and its lookups do not fail. -/
theorem uncancelled_repository (r : Repository) :
    Connection.uncancelled { repository := r } = { repository := r } := rfl

theorem run_runGenerate_of_error {error : SelectError}
    (hselect : selectTables options.tables { repository := r } {} = (.error error, session)) :
    w.run (runGenerate options { repository := r }) = (.failure, w.notified error.message) := by
  unfold runGenerate generateSelected
  simp only [uncancelled_repository, hselect]
  rfl

/-- A selection is generated, and of success there is a report. -/
theorem run_runGenerate_of_ok
    (hselect : selectTables options.tables { repository := r } {} = (.ok tables, session)) :
    w.run (runGenerate options { repository := r }) =
      match w.run (generate options.mode tables options.target { repository := r } session) with
      | (generation, w') =>
        match generation.result with
        | .error error => (.failure, w'.notified (CommandError.generate error).message)
        | .ok summary =>
          let report : GenerateReport := { target := options.target, summary }
          (.success,
            if report.writtenToFile then (w'.run (printReport report.lines)).2 else w') := by
  unfold runGenerate generateSelected
  simp only [uncancelled_repository, hselect]
  rw [Workspace.run_bind, Workspace.run_bind]
  obtain ⟨⟨result, after⟩, w'⟩ :=
    w.run (generate options.mode tables options.target { repository := r } session)
  cases result with
  | error error => rfl
  | ok summary =>
    generalize options.target = target
    cases target <;> rfl

/-- Without tables there is at most a warning. -/
theorem run_runGenerate_of_nil
    (hselect : selectTables options.tables { repository := r } {} = (.ok [], session)) :
    w.run (runGenerate options { repository := r }) = (.success,
      if options.output.isSome then w.notified "warning: no tables selected; nothing was written"
      else w) := by
  rw [run_runGenerate_of_ok w hselect]
  unfold GenerateOptions.target
  cases options.output <;> rfl

/-- With tables, the document of the selection is written, if the target can be opened. -/
theorem run_runGenerate_of_ne_nil (hne : tables ≠ []) (hcalm : session.cancelled = false)
    (hselect : selectTables options.tables { repository := r } {} = (.ok tables, session)) :
    ∃ summary, w.run (runGenerate options { repository := r }) =
      match w.run options.target.openSink with
      | (.error error, w') =>
        (.failure, w'.notified (CommandError.generate (.output error)).message)
      | (.ok sink, opened) =>
        let report : GenerateReport := { target := options.target, summary }
        let w' := (opened.run (sink.write (r.document options.mode tables).text)).2
        (.success, if report.writtenToFile then (w'.run (printReport report.lines)).2 else w') := by
  obtain ⟨hdocument, hresult⟩ := render_of_quiet options.mode tables r.quiet hcalm
  refine ⟨{
    groups := (partition options.mode tables).length
    tables := ((partition options.mode tables).flatMap (·.2)).length }, ?_⟩
  rw [run_runGenerate_of_ok w hselect, run_generate _ _ _ _ _ _ hne, hdocument, hresult]
  obtain ⟨opened, w'⟩ := w.run options.target.openSink
  cases opened <;> rfl

end Runs

/-- What a dry run tells of the run that may write a file, both from the same workspace and for the
same tables. -/
structure Foretells (w : Workspace) (r : Repository) (options : GenerateOptions)
    (dry wet : ExitCode × Workspace) : Prop where
  /-- A dry run leaves all files as they are, and opens none. -/
  unchanged : SameFiles w dry.2
  /-- It does not fail for anything that is in the way of the output. -/
  succeeds : dry.1 = .success ↔ ∀ name ∈ options.tables, r.table? name ≠ none
  /-- What it shows is what a file holds in the end that is opened otherwise. -/
  shown : ∃ text, dry.2.output = w.output ++ text ∧ ∀ path, options.output = some path →
    wet.2.openFiles ≠ w.openFiles → wet.2.tree.read? path = some text.toUTF8
  /-- A file is opened by every run that does not fail, if it has something to write. -/
  writes : ∀ path, options.output = some path → (wet.2.openFiles ≠ w.openFiles ↔
    wet.1 = .success ∧ ¬ (options.tables = [] ∧ r.allTables = []))
  /-- Without a file that is opened, none is changed. -/
  untouched : wet.2.openFiles = w.openFiles → wet.2.tree = w.tree
  /-- Where there is nothing to select, nothing is shown and nothing is written. -/
  empty : options.tables = [] → r.allTables = [] → dry = (.success, w) ∧
    wet.1 = .success ∧ SameFiles w wet.2 ∧ wet.2.output = w.output
  /-- With an unknown table both runs are the same: they name it and fail. -/
  unknown : (∃ name ∈ options.tables, r.table? name = none) → wet = dry ∧
    ∃ name ∈ options.tables, r.table? name = none ∧
      dry = (.failure, w.notified (SelectError.unknownTable name).message)

section Outcomes

variable {w : Workspace} {r : Repository} {options : GenerateOptions}

theorem foretells_of_unknown {name : String} (hname : name ∈ options.tables)
    (hnone : r.table? name = none) :
    let outcome := (ExitCode.failure, w.notified (SelectError.unknownTable name).message)
    Foretells w r options outcome outcome where
  unchanged := ⟨rfl, rfl⟩
  succeeds := ⟨fun h => (nomatch h), fun hknown => absurd hnone (hknown name hname)⟩
  shown := ⟨"", String.append_empty.symm, fun _ _ hopened => absurd rfl hopened⟩
  writes _ _ := ⟨fun hopened => absurd rfl hopened, fun h => nomatch h.1⟩
  untouched _ := rfl
  empty hnames _ := by
    rw [hnames] at hname
    exact absurd hname List.not_mem_nil
  unknown _ := ⟨rfl, name, hname, hnone, rfl⟩

theorem foretells_of_empty {wet : Workspace} (hnames : options.tables = [])
    (htables : r.allTables = []) (hfiles : SameFiles w wet) (houtput : wet.output = w.output) :
    Foretells w r options (.success, w) (.success, wet) where
  unchanged := ⟨rfl, rfl⟩
  succeeds := by
    rw [hnames]
    exact ⟨fun _ _ hname => absurd hname List.not_mem_nil, fun _ => rfl⟩
  shown := ⟨"", String.append_empty.symm, fun _ _ hopened => absurd hfiles.2 hopened⟩
  writes _ _ := ⟨fun hopened => absurd hfiles.2 hopened, fun h => absurd ⟨hnames, htables⟩ h.2⟩
  untouched _ := hfiles.1
  empty _ _ := ⟨rfl, rfl, hfiles, houtput⟩
  unknown := by
    rintro ⟨name, hname, -⟩
    rw [hnames] at hname
    exact absurd hname List.not_mem_nil

/-- How a run ends that has a text to write and a file to write it to: the text is all that the file
holds, or the run fails and leaves the files as they were. -/
inductive WritesOrFails (w : Workspace) (path text : String) : ExitCode × Workspace → Prop where
  | fails {after : Workspace} : SameFiles w after → WritesOrFails w path text (.failure, after)
  | writes {after : Workspace} : after.openFiles ≠ w.openFiles →
      after.tree.read? path = some text.toUTF8 → WritesOrFails w path text (.success, after)

/-- With known tables, the dry run shows the text that there is to write. -/
theorem foretells_of_tables {text : String} {wet : ExitCode × Workspace}
    (hknown : ∀ name ∈ options.tables, r.table? name ≠ none)
    (hsome : ¬ (options.tables = [] ∧ r.allTables = []))
    (hwet : ∀ path, options.output = some path → WritesOrFails w path text wet)
    (hshown : options.output = none → SameFiles w wet.2) :
    Foretells w r options (.success, w.printed text) wet where
  unchanged := ⟨rfl, rfl⟩
  succeeds := ⟨fun _ => hknown, fun _ => rfl⟩
  shown := by
    refine ⟨text, rfl, fun path houtput hopened => ?_⟩
    cases hwet path houtput with
    | fails hfiles => exact absurd hfiles.2 hopened
    | writes _ hread => exact hread
  writes path houtput := by
    rw [and_iff_left hsome]
    cases hwet path houtput with
    | fails hfiles => exact ⟨fun hopened => absurd hfiles.2 hopened, fun h => nomatch h⟩
    | writes hopened _ => exact ⟨fun _ => rfl, fun _ => hopened⟩
  untouched hfiles := by
    cases houtput : options.output with
    | none => exact (hshown houtput).1
    | some path =>
      cases hwet path houtput with
      | fails hsame => exact hsame.1
      | writes hopened _ => exact absurd hfiles hopened
  empty hnames htables := absurd ⟨hnames, htables⟩ hsome
  unknown := by
    rintro ⟨name, hname, hnone⟩
    exact absurd hnone (hknown name hname)

end Outcomes

/-- With tables, the run without an output shows the document. -/
theorem run_runGenerate_toStandardOutput {w : Workspace} {r : Repository}
    {options : GenerateOptions} {tables : List Table} {session : Session} (hne : tables ≠ [])
    (hcalm : session.cancelled = false)
    (hselect : selectTables options.tables { repository := r } {} = (.ok tables, session)) :
    w.run (runGenerate options.toStandardOutput { repository := r }) =
      (.success, w.printed (r.document options.mode tables).text) := by
  have hdry : selectTables options.toStandardOutput.tables { repository := r } {} = _ := hselect
  obtain ⟨summary, hrun⟩ := run_runGenerate_of_ne_nil w hne hcalm hdry
  exact hrun

theorem writesOrFails_runGenerate {w : Workspace} {r : Repository} {options : GenerateOptions}
    {tables : List Table} {session : Session} {path : String} (houtput : options.output = some path)
    (hne : tables ≠ []) (hcalm : session.cancelled = false)
    (hselect : selectTables options.tables { repository := r } {} = (.ok tables, session)) :
    WritesOrFails w path (r.document options.mode tables).text
      (w.run (runGenerate options { repository := r })) := by
  obtain ⟨summary, hrun⟩ := run_runGenerate_of_ne_nil w hne hcalm hselect
  obtain ⟨overwrite, htarget⟩ : ∃ overwrite, options.target = .file path overwrite := by
    rw [GenerateOptions.target, houtput]
    exact ⟨_, rfl⟩
  rw [htarget] at hrun
  have hopens := opens_openSink w (.file path overwrite)
  generalize w.run (OutputTarget.file path overwrite).openSink = opened at hopens hrun
  rw [hrun]
  cases hopens with
  | refused => exact .fails ⟨rfl, rfl⟩
  | unwritable => exact .fails ⟨rfl, rfl⟩
  | @file _ _ location tree hrefusal hcreate =>
    obtain ⟨hput, hlocate⟩ := putFile_write hcreate (r.document options.mode tables).text
    -- The report is printed after that, and touches no file.
    obtain ⟨htree, hopened⟩ := Workspace.sameFiles_printReport
      ((w.opened location tree).writeTo w.openFiles.length (r.document options.mode tables).text)
      (GenerateReport.mk (.file path overwrite) summary).lines
    refine .writes ?_ ?_
    · refine fun heq => absurd (congrArg List.length (hopened.symm.trans heq)) ?_
      rw [Workspace.length_openFiles_writeTo]
      simp [Workspace.opened]
    · have hread := hput.read?_self hlocate
      rw [← htree] at hread
      exact hread

/-- A run that generates is foretold by the same run without an output. -/
theorem foretells_runGenerate (w : Workspace) (r : Repository) (options : GenerateOptions) :
    Foretells w r options
      (w.run (runGenerate options.toStandardOutput { repository := r }))
      (w.run (runGenerate options { repository := r })) := by
  cases hunknown : r.unknown? options.tables with
  | some name =>
    have hmem := List.mem_of_find?_eq_some hunknown
    have hnone : r.table? name = none := by simpa using List.find?_some hunknown
    have hselect : selectTables options.tables { repository := r } {} = (.error _, _) :=
      Prod.ext (selectTables_of_unknown r (List.ne_nil_of_mem hmem) hunknown) rfl
    have hdry : selectTables options.toStandardOutput.tables { repository := r } {} = _ := hselect
    rw [run_runGenerate_of_error w hselect, run_runGenerate_of_error w hdry]
    exact foretells_of_unknown hmem hnone
  | none =>
    have hknown : ∀ name ∈ options.tables, r.table? name ≠ none := fun name hname => by
      simpa using List.find?_eq_none.mp hunknown name hname
    obtain ⟨tables, session, hselect, hcalm, hnil⟩ := exists_selectTables r hunknown
    by_cases hne : tables = []
    · subst hne
      obtain ⟨hnames, htables⟩ := hnil.mp rfl
      have hdry : selectTables options.toStandardOutput.tables { repository := r } {} = _ :=
        hselect
      rw [run_runGenerate_of_nil w hselect, run_runGenerate_of_nil w hdry]
      refine foretells_of_empty hnames htables ?_ ?_
      · cases options.output <;> exact ⟨rfl, rfl⟩
      · cases options.output <;> rfl
    · rw [run_runGenerate_toStandardOutput hne hcalm hselect]
      refine foretells_of_tables hknown (fun h => hne (hnil.mpr h))
        (fun path houtput => writesOrFails_runGenerate houtput hne hcalm hselect) fun houtput => ?_
      have hsame : options = options.toStandardOutput := by
        cases options
        cases houtput
        rfl
      rw [hsame, run_runGenerate_toStandardOutput hne hcalm hselect]
      exact ⟨rfl, rfl⟩

/-- **A dry run shows exactly what would be written.**

Wherever in a command line the flag stands, the line without it asks for the same but with an
output. The dry run leaves all files as they are and shows what the file of that output holds
after the other run, if that run opens it. Files that are in the way make no difference. Where
there is nothing to select neither run writes anything, and an unknown table fails both in the same
way. -/
theorem foretells_dryRun (w : Workspace) {front back : List String} {path : String}
    {dryOptions : GenerateOptions} {snapshot : Snapshot}
    (hparse : Arguments.parse (front ++ Arguments.dryRunFlag :: back) =
      .ok (.generate path dryOptions))
    (hread : Snapshot.ofFile path (w.tree.read? path) = .ok snapshot) :
    ∃ options : GenerateOptions, dryOptions = options.toStandardOutput ∧
      Arguments.parse (front ++ back) = .ok (.generate path options) ∧
      Foretells w snapshot.repository options
        (w.run (Program.run (front ++ Arguments.dryRunFlag :: back)))
        (w.run (Program.run (front ++ back))) := by
  obtain ⟨path', options, hrequest, hwet⟩ := Arguments.parse_dryRun hparse
  obtain ⟨rfl, rfl⟩ := Request.generate.inj hrequest
  refine ⟨options, rfl, hwet, ?_⟩
  rw [run_of_generate hparse hread, run_of_generate hwet hread]
  exact foretells_runGenerate w snapshot.repository options

/-- A snapshot of two tables in the working directory. -/
def Workspace.twoTables : Workspace where
  tree := FileTree.withFile {} "glide.json"
    "\x7b\"tables\":\x7b\"incident\":\x7b\"extends\":\"task\"\x7d,\"task\":\x7b\x7d\x7d\x7d".toUTF8

def Snapshot.twoTables : Snapshot where
  tables := .ofList
    [("incident", { attributes := { superName := some "task" } }), ("task", {})]

theorem foretells_dryRun_twoTables :
    let front := ["generate", "--snapshot=glide.json", "--output", "types.d.ts"]
    let back := ["-t", "incident"]
    let dryOptions : GenerateOptions := { tables := ["incident"] }
    let w := Workspace.twoTables
    Arguments.parse (front ++ Arguments.dryRunFlag :: back) =
        .ok (.generate "glide.json" dryOptions) ∧
      Snapshot.ofFile "glide.json" (w.tree.read? "glide.json") = .ok Snapshot.twoTables ∧
      ∃ options : GenerateOptions, dryOptions = options.toStandardOutput ∧
        Arguments.parse (front ++ back) = .ok (.generate "glide.json" options) ∧
        Foretells w Snapshot.twoTables.repository options
          (w.run (Program.run (front ++ Arguments.dryRunFlag :: back)))
          (w.run (Program.run (front ++ back))) := by
  intro front back dryOptions w
  have hparse : Arguments.parse (front ++ Arguments.dryRunFlag :: back) =
      .ok (.generate "glide.json" dryOptions) := by decide +kernel
  have hread : Snapshot.ofFile "glide.json" (w.tree.read? "glide.json") =
      .ok Snapshot.twoTables := by decide +kernel
  exact ⟨hparse, hread, foretells_dryRun w hparse hread⟩

end Ambient
