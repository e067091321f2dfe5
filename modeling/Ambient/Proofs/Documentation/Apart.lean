import Ambient.Proofs.Documentation.Erasure

/-!
# Documentation stays apart from code

Two snapshots that declare alike are rendered to the same code, whatever their
documentation says: what is left of the two texts without comments and blanks is the
same.
-/

namespace Ambient

open TypeScript (codeLines codeOf)

/-- The summary of a rendering that nothing stops. -/
def RenderMode.summary (mode : RenderMode) (tables : List Table) : RenderSummary where
  groups := (partition mode tables).length
  tables := ((partition mode tables).flatMap (·.2)).length

theorem RenderMode.summary_eq (mode : RenderMode) (r : Repository) :
    mode.summary r.allTables = mode.summary r.bare.allTables := by
  unfold summary
  rw [r.allTables_bare, partition_rewritten (Table.rewrites_bare mode), List.length_map,
    List.flatMap_map, ← List.map_flatMap, List.length_map]

/-- The code that a repository is rendered to is told from its bare repository. -/
theorem codeOf_document_eq {r : Repository} (hs : r.Selects r.allTables) (mode : RenderMode) :
    codeOf (r.document mode r.allTables).text =
      (codeLines (r.bare.document mode r.bare.allTables)).flatMap codeOf := by
  rw [codeOf_document hs, r.allTables_bare, codeLines_document_bare hs]

/-- **Documentation never changes a declaration.**

Valid snapshots that declare alike are both rendered to the end, with one summary, and what their
texts say without comments and blanks is the same. -/
theorem codeOf_render_eq {a b : Snapshot} (ha : a.violation? = none) (hb : b.violation? = none)
    (halike : a.repository.DeclareAlike b.repository) (mode : RenderMode) :
    let rendered (s : Snapshot) :=
      render mode s.repository.allTables { repository := s.repository } {}
    (∃ summary, (rendered a).result = .ok summary ∧ (rendered b).result = .ok summary) ∧
      codeOf (rendered a).document.text = codeOf (rendered b).document.text := by
  intro rendered
  have hall : ∀ s : Snapshot,
      (rendered s).document = s.repository.document mode s.repository.allTables ∧
        (rendered s).result = .ok (mode.summary s.repository.allTables) :=
    fun s => render_of_quiet mode _ s.repository.quiet rfl
  have hbare := halike.bare_eq
  have hsummary : mode.summary a.repository.allTables = mode.summary b.repository.allTables := by
    rw [mode.summary_eq a.repository, mode.summary_eq b.repository, hbare]
  refine ⟨⟨_, (hall a).2, hsummary ▸ (hall b).2⟩, ?_⟩
  have hselects := Snapshot.selects ha fun _ ht => ht
  have hselects' := Snapshot.selects hb fun _ ht => ht
  rw [(hall a).1, (hall b).1, codeOf_document_eq hselects, codeOf_document_eq hselects', hbare]

/-- Two tables in two scopes. One field is inherited, one has a name that has to be quoted. -/
def Snapshot.terse : Snapshot where
  tables := .ofList
    [("incident",
      { attributes := { superName := some "task", scope := some "x_app" }
        elements := .ofList
          [("number", { typeName := "string", maxLength := some 40 }),
           ("parent\"/*", { typeName := "reference", reference := some "incident" }),
           ("state", { typeName := "integer" })] }),
     ("task",
      { elements := .ofList [("number", { typeName := "string", maxLength := some 40 })] })]

/-- The same two tables, documented in a way that tries to get out of the comments. -/
def Snapshot.verbose : Snapshot where
  tables := .ofList
    [("incident",
      { attributes :=
          { label := "*/ export type Task = never; /*", superName := some " task "
            scope := some "x_app ", package := some "com.app", numberPrefix := some "'INC*/"
            extendable := true }
        elements := .ofList
          [("number",
            { label := "No. \"1\"", typeName := " STRING", maxLength := some 40
              comments := some "first line */\nimport \"x\";", defaultValue := some "'" }),
           ("parent\"/*",
            { typeName := "Reference", reference := some " incident", maxLength := some 0 }),
           ("state",
            { label := "State // or /* status", typeName := "integer", sizeClass := some 4
              flags := { mandatory := true } })] }),
     ("task",
      { attributes := { label := "Task", superName := some " ", scope := some "global" }
        elements := .ofList
          [("number", { label := "Number", typeName := "string", maxLength := some 40 })] })]
  packages := .ofList [("com.app", some "App */ \x7b")]
  scopes := .ofList [("x_app", some "*/ declare namespace x_app \x7b")]
  types := .ofList [("integer", some "Integer\n */")]

theorem Snapshot.declareAlike_verbose : terse.repository.DeclareAlike verbose.repository where
  tables := by decide +kernel
  superName := by decide +kernel
  scopeKey := by decide +kernel
  elements := by decide +kernel
  shape := by decide +kernel

theorem codeOf_render_eq_verbose :
    let rendered (s : Snapshot) :=
      render .scoped s.repository.allTables { repository := s.repository } {}
    (Snapshot.terse.violation? = none ∧ Snapshot.verbose.violation? = none ∧
        Snapshot.terse.repository.DeclareAlike Snapshot.verbose.repository) ∧
      (∃ summary, (rendered .terse).result = .ok summary ∧
        (rendered .verbose).result = .ok summary) ∧
      codeOf (rendered .terse).document.text = codeOf (rendered .verbose).document.text := by
  intro rendered
  have hterse : Snapshot.terse.violation? = none := by decide +kernel
  have hverbose : Snapshot.verbose.violation? = none := by decide +kernel
  exact ⟨⟨hterse, hverbose, Snapshot.declareAlike_verbose⟩,
    codeOf_render_eq hterse hverbose Snapshot.declareAlike_verbose .scoped⟩

end Ambient
