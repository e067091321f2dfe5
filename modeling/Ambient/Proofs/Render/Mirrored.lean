import Ambient.Proofs.Inheritance.Shape
import Ambient.Proofs.Render.Complete
import Ambient.Proofs.Selection.Faithful
import Ambient.Proofs.Selection.Mirrored

/-!
# Rendering a rewritten repository

A pass over rewritten tables on a rewritten repository adds what the pass over the tables
themselves adds, and makes the same lookups, also where it is cancelled or a lookup
fails (`render_rewritten`). So blanks around the attributes that refer to something never
matter.
-/

namespace Ambient

open TypeScript (Item)

variable {f : TableAttributes → TableAttributes} {g : ElementAttributes → ElementAttributes}

namespace PassM

open Ambient.Task (Mirrors mirrors_bind mirrors_id_iff mirrors_map mirrors_pure mirrors_within)

theorem mirrors_checkpoint : Mirrors f g id checkpoint checkpoint :=
  mirrors_id_iff.mpr fun c s => by rw [checkpoint_apply, checkpoint_apply]

theorem mirrors_add (item : Item) : Mirrors f g id (add item) (add item) :=
  mirrors_id_iff.mpr fun _ _ => rfl

theorem mirrors_beginGroup : Mirrors f g id beginGroup beginGroup :=
  mirrors_id_iff.mpr fun c s => by rw [beginGroup_apply, beginGroup_apply]

theorem mirrors_enclose {body body' : PassM Unit} (h : Mirrors f g id body body')
    (keyword name : String) :
    Mirrors f g id (enclose keyword name body) (enclose keyword name body') := by
  refine mirrors_id_iff.mpr fun c s => ?_
  unfold enclose
  rw [mirrors_id_iff.mp h]

section AddEach

variable {unit : Table → PassM Item}

theorem mirrors_rest (h : ∀ table, Mirrors f g id (unit table) (unit (Table.rewrite f table)))
    (tables : List Table) :
    Mirrors f g id (addEach.rest unit tables)
      (addEach.rest unit (tables.map (Table.rewrite f))) := by
  induction tables with
  | nil => exact mirrors_pure id ()
  | cons table tables ih =>
    exact mirrors_bind (h table) fun made =>
      mirrors_bind (mirrors_add .blank) fun _ => mirrors_bind (mirrors_add made) fun _ => ih

theorem mirrors_addEach (h : ∀ table, Mirrors f g id (unit table) (unit (Table.rewrite f table)))
    (tables : List Table) :
    Mirrors f g id (addEach unit tables) (addEach unit (tables.map (Table.rewrite f))) := by
  cases tables with
  | nil => exact mirrors_pure id ()
  | cons table tables =>
    exact mirrors_bind (h table) fun made =>
      mirrors_bind (mirrors_add made) fun _ => mirrors_rest h tables

end AddEach

theorem mirrors_headers (headers : List (List String)) :
    Mirrors f g id (headers.forM fun header => add (.comment header))
      (headers.forM fun header => add (.comment header)) := by
  induction headers with
  | nil => exact mirrors_pure id ()
  | cons header headers ih => exact mirrors_bind (mirrors_add _) fun _ => ih

section Site

variable (h : KeepsDeclarations f g) {site : Site} (hindex : site.index.contains "" = false)
  {tables : List Table}

include h hindex in
theorem mirrors_passes :
    Mirrors f g id (passes site tables) (passes site (tables.map (Table.rewrite f))) := by
  have hrecords : Mirrors f g id (recordPass site tables)
      (recordPass site (tables.map (Table.rewrite f))) :=
    mirrors_enclose (mirrors_addEach (fun table =>
      mirrors_map (mirrors_within (CacheM.mirrors_recordAlias h hindex table)) fun _ => rfl) tables)
      _ _
  have helements : Mirrors f g id (elementPass site tables)
      (elementPass site (tables.map (Table.rewrite f))) :=
    mirrors_enclose (mirrors_addEach (fun table => by
      rw [Site.elementAlias_rewritten h]
      exact mirrors_pure id (Item.alias (site.elementAlias table))) tables) _ _
  have hfields : Mirrors f g id (fieldsPass site tables)
      (fieldsPass site (tables.map (Table.rewrite f))) :=
    mirrors_enclose (mirrors_addEach (fun table => mirrors_bind mirrors_checkpoint fun _ =>
      mirrors_map (mirrors_within (CacheM.mirrors_fieldsInterface h hindex table)) fun _ => rfl)
      tables) _ _
  unfold passes
  exact mirrors_bind mirrors_checkpoint fun _ => mirrors_bind hrecords fun _ =>
    mirrors_bind mirrors_checkpoint fun _ => mirrors_bind (mirrors_add .blank) fun _ =>
      mirrors_bind helements fun _ => mirrors_bind mirrors_checkpoint fun _ =>
        mirrors_bind (mirrors_add .blank) fun _ => hfields

include h hindex in
/-- The scopes of tables show in the headers of a scope's namespace, and nowhere else. -/
theorem mirrors_renderGroup (hkeys : site.group.enclosing?.isSome →
    (tables.map (Table.rewrite f)).filterMap Table.scopeKey? = tables.filterMap Table.scopeKey?) :
    Mirrors f g id (renderGroup site tables)
      (renderGroup site (tables.map (Table.rewrite f))) := by
  unfold renderGroup
  cases henclosing : site.group.enclosing? with
  | none => exact mirrors_passes h hindex
  | some name =>
    have hheaders := CacheM.mirrors_scopeHeaders (g := g) site.group (hkeys (henclosing ▸ rfl))
    exact mirrors_bind (mirrors_within hheaders) fun headers =>
      mirrors_bind (mirrors_headers headers) fun _ =>
        mirrors_enclose (mirrors_passes h hindex) _ name

end Site

theorem mirrors_renderGroups (h : KeepsDeclarations f g) {index : TableIndex}
    (hindex : index.contains "" = false) {groups : List (Group × List Table)}
    (hkeys : ∀ entry ∈ groups, entry.1.enclosing?.isSome →
      (entry.2.map (Table.rewrite f)).filterMap Table.scopeKey? =
        entry.2.filterMap Table.scopeKey?) :
    Mirrors f g id (renderGroups index groups)
      (renderGroups index (groups.map fun entry => (entry.1, entry.2.map (Table.rewrite f)))) := by
  induction groups with
  | nil => exact mirrors_pure id ()
  | cons entry rest ih =>
    have hgroup : Mirrors f g id (renderGroup ⟨entry.1, index⟩ entry.2)
        (renderGroup ⟨entry.1, index⟩ (entry.2.map (Table.rewrite f))) :=
      mirrors_renderGroup h hindex (hkeys entry List.mem_cons_self)
    have hrest := ih fun entry hentry => hkeys entry (List.mem_cons_of_mem _ hentry)
    exact mirrors_bind mirrors_checkpoint fun _ => mirrors_bind mirrors_beginGroup fun _ =>
      mirrors_bind hgroup fun _ => hrest

end PassM

/-- The members of a scope's group keep their scope, where they keep their place. -/
theorem scopeKeys_rewrite {mode : RenderMode} {tables members : List Table} {group : Group}
    (hf : Table.Rewrites mode (Table.rewrite f)) (hpart : (group, members) ∈ partition mode tables)
    (hscoped : group.enclosing?.isSome) :
    (members.map (Table.rewrite f)).filterMap Table.scopeKey? =
      members.filterMap Table.scopeKey? := by
  obtain ⟨key, hkey⟩ := Option.isSome_iff_exists.mp hscoped
  rw [List.filterMap_map]
  refine List.filterMap_congr fun table ht => ?_
  have hgroup : mode.groupOf table = .scoped key :=
    (mem_of_mem_members hpart ht).2.trans (Group.eq_scoped_of_enclosing? hkey)
  have hgroup' : mode.groupOf (Table.rewrite f table) = .scoped key :=
    (hf.groupOf table).trans hgroup
  rw [Function.comp_apply, RenderMode.scopeKey?_of_groupOf hgroup,
    RenderMode.scopeKey?_of_groupOf hgroup']

/-- Rendering rewritten tables comes to the same on every connection: to the same document, with
the same result, in the same session. -/
theorem render_rewritten (h : KeepsDeclarations f g) {mode : RenderMode}
    (hf : Table.Rewrites mode (Table.rewrite f)) {r : Repository} {tables : List Table}
    (hs : r.Selects tables) (c : Connection) (session : Session) :
    render mode (tables.map (Table.rewrite f)) (c.rewrite f g) session =
      render mode tables c session := by
  have hindex := TableIndex.contains_empty_ofTables hs mode
  have hkeys : ∀ entry ∈ partition mode tables, entry.1.enclosing?.isSome →
      (entry.2.map (Table.rewrite f)).filterMap Table.scopeKey? =
        entry.2.filterMap Table.scopeKey? := fun _ hentry => scopeKeys_rewrite hf hentry
  have hmirrors := PassM.mirrors_renderGroups h hindex hkeys
  have hrun := Task.mirrors_id_iff.mp hmirrors c { lookups := { session } }
  have hofTables := TableIndex.ofTables_rewritten hf tables
  have hcount : ∀ groups : List (Group × List Table),
      ((groups.map fun entry => (entry.1, entry.2.map (Table.rewrite f))).flatMap (·.2)).length =
        (groups.flatMap (·.2)).length := by
    intro groups
    rw [List.flatMap_map, List.length_flatMap, List.length_flatMap]
    simp only [List.length_map]
  unfold TableIndex.ofTables at hofTables hrun
  rw [partition_rewritten hf] at hofTables
  unfold render
  simp only [partition_rewritten hf, hofTables, hrun, hcount]

/-! ## Trimmed repositories -/

theorem render_trimmed {r : Repository} {tables : List Table} (hs : r.Selects tables)
    (mode : RenderMode) (c : Connection) (session : Session) :
    render mode (tables.map Table.trimmed)
        (c.rewrite TableAttributes.trimmed ElementAttributes.trimmed) session =
      render mode tables c session :=
  render_rewritten keepsDeclarations_trimmed (Table.rewrites_trimmed mode) hs c session

/-- **Blanks around the attributes that refer to something never matter.**

With all of them trimmed, and left out where nothing remains, a valid snapshot is as valid as
before. On every connection the same tables are selected from it, or the same error is met; they
are listed in the same groups; and rendering them gives the same document and the same summary. The
session is the same each time, so the lookups are as many. -/
theorem blanks_never_matter {snapshot : Snapshot} (hvalid : snapshot.violation? = none) :
    snapshot.trimmed.violation? = none ∧
      ∀ (c : Connection) (mode : RenderMode) (names : List String) (session : Session),
        let before : Connection := { c with repository := snapshot.repository }
        let after : Connection := { c with repository := snapshot.trimmed.repository }
        listGroups mode names after session = listGroups mode names before session ∧
          (∀ error left, selectTables names before session = (.error error, left) →
            selectTables names after session = (.error error, left)) ∧
          ∀ tables left, selectTables names before session = (.ok tables, left) →
            ∃ trimmed, selectTables names after session = (.ok trimmed, left) ∧
              render mode trimmed after left = render mode tables before left := by
  refine ⟨by rw [Snapshot.violation?_trimmed, hvalid], ?_⟩
  intro c mode names session before after
  have hlist := Task.mirrors_id_iff.mp (mirrors_listGroups mode names) before session
  have hselect := mirrors_selectTables names before session
  refine ⟨hlist, fun error left herror => ?_, fun tables left htables => ?_⟩
  · rw [herror] at hselect
    exact hselect
  · rw [htables] at hselect
    have hselects := Repository.selects_of_selectTables (Snapshot.wellNamed hvalid) htables
    exact ⟨_, hselect, render_trimmed hselects mode before left⟩

/-- A table whose attributes all have blanks around them, or are blank. -/
def Snapshot.padded : Snapshot where
  tables := .ofList
    [("incident",
      { attributes :=
          { superName := some " task\t", package := some "\n", numberPrefix := some " INC ",
            scope := some "\u2003global " }
        elements := .ofList
          [("caller", { typeName := " Reference ", reference := some "task ",
                        package := some " core" })] }),
     ("task", { attributes := { scope := some "  " } })]
  packages := .ofList [("core", none)]

theorem blanks_never_matter_padded :
    Snapshot.padded.violation? = none ∧ Snapshot.padded.trimmed ≠ Snapshot.padded ∧
      render .scoped Snapshot.padded.trimmed.repository.allTables
          { repository := Snapshot.padded.trimmed.repository } {} =
        render .scoped Snapshot.padded.repository.allTables
          { repository := Snapshot.padded.repository } {} := by
  have hvalid : Snapshot.padded.violation? = none := by decide +kernel
  obtain ⟨trimmed, hselect, hrender⟩ := ((blanks_never_matter hvalid).2
    { repository := Snapshot.padded.repository } .scoped [] {}).2.2
    Snapshot.padded.repository.allTables {} rfl
  have htrimmed : trimmed = Snapshot.padded.trimmed.repository.allTables :=
    (Except.ok.inj (congrArg Prod.fst hselect)).symm
  rw [htrimmed] at hrender
  exact ⟨hvalid, by decide +kernel, hrender⟩

end Ambient
