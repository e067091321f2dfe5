import Ambient.Proofs.Document.Shorter
import Ambient.Proofs.Render.Stages

/-!
# Renderings that are cancelled

A rendering on which no lookup fails does its stages one after the other and stops
before the first stage that would begin with the work cancelled. `told_of_cancelled`
says what is left then, and that the summary tells the truth about it: it reports a
cancellation exactly if something is missing from the text.
-/

namespace Ambient

open TypeScript (Document Item Shorter)

/-! ## Before the last stage something is missing -/

namespace Repository

variable {r : Repository} {site : Site} {tables : List Table} {done : Nat}

/-- The declarations of some tables lack those of the others. -/
theorem shorter_intersperse {α : Type} (f : α → Item) {items : List α}
    (h : done + 1 < items.length) :
    Shorter (((items.take (done + 1)).map f).intersperse .blank)
      ((items.map f).intersperse .blank) := by
  cases items with
  | nil => exact absurd h (Nat.not_lt_zero _)
  | cons first rest =>
    obtain ⟨next, left, hdrop⟩ : ∃ next left, rest.drop done = next :: left :=
      List.exists_cons_of_ne_nil (List.ne_nil_of_length_pos (by
        rw [List.length_drop]
        rw [List.length_cons] at h
        omega))
    have hsplit : (rest.flatMap fun item => [.blank, f item]) =
        ((rest.take done).flatMap fun item => [.blank, f item])
          ++ (next :: left).flatMap fun item => [.blank, f item] := by
      rw [← hdrop, ← List.flatMap_append, List.take_append_drop]
    rw [List.take_succ_cons, List.map_cons, List.map_cons, PassM.intersperse_cons,
      PassM.intersperse_cons, List.flatMap_map, List.flatMap_map, hsplit]
    have hmissing : Shorter [] ((next :: left).flatMap fun item => [.blank, f item]) :=
      .stop (List.mem_flatMap.mpr ⟨next, List.mem_cons_self, List.mem_cons_self⟩) rfl
    have hrest := hmissing.append_left ((rest.take done).flatMap fun item => [.blank, f item])
    rw [List.append_nil] at hrest
    exact .item _ hrest

theorem shorter_passesUpTo (h : done < tables.length + 1) :
    Shorter (r.passesUpTo site tables done) (r.passesDocument site tables) := by
  match done with
  | 0 => exact .stop (List.mem_cons_of_mem _ List.mem_cons_self) rfl
  | 1 => exact .item _ (.stop List.mem_cons_self rfl)
  | done + 2 =>
    exact .item _ (.item _ (.item _ (.item _ (.inside _ _ [] (shorter_intersperse _ (by omega))))))

theorem shorter_groupUpTo (h : done < tables.length + 1) :
    Shorter (r.groupUpTo site tables done) (r.groupDocument site tables) := by
  unfold groupUpTo groupDocument
  cases site.group.enclosing? with
  | none => exact shorter_passesUpTo h
  | some name => exact (Shorter.inside _ name [] (shorter_passesUpTo h)).append_left _

theorem exists_mem_groupDocument (r : Repository) (site : Site) (tables : List Table) :
    ∃ item ∈ r.groupDocument site tables, item.isComment = false := by
  unfold groupDocument
  cases site.group.enclosing? with
  | none => exact ⟨_, List.mem_cons_self, rfl⟩
  | some name => exact ⟨_, List.mem_append_right _ List.mem_cons_self, rfl⟩

end Repository

theorem length_stages (site : Site) (tables : List Table) :
    (site.stages tables).length = tables.length + 2 := by
  rw [Site.stages, List.length_cons, PassM.length_declaring]

theorem length_stagesOf_cons (index : TableIndex) (group : Group) (members : List Table)
    (rest : List (Group × List Table)) :
    (stagesOf index ((group, members) :: rest)).length =
      members.length + 2 + (stagesOf index rest).length := by
  rw [stagesOf, List.flatMap_cons, List.length_append, length_stages]
  rfl

namespace Repository

variable {r : Repository} {index : TableIndex} {groups : List (Group × List Table)}

/-- Once all stages are done, all is written. -/
theorem groupsUpTo_length (hne : ∀ entry ∈ groups, entry.2 ≠ []) (begun : Bool) :
    r.groupsUpTo index begun groups (stagesOf index groups).length =
      r.groupsDocument index begun groups := by
  induction groups generalizing begun with
  | nil => rfl
  | cons first rest ih =>
    obtain ⟨group, members⟩ := first
    have hrest := ih (fun entry hentry => hne entry (List.mem_cons_of_mem _ hentry)) true
    have hmembers : members ≠ [] := hne _ List.mem_cons_self
    have hlength : (stagesOf index ((group, members) :: rest)).length =
        members.length + 1 + (stagesOf index rest).length + 1 := by
      rw [length_stagesOf_cons]
      omega
    rw [hlength, groupsUpTo, groupsDocument, groupUpTo_of_le hmembers (Nat.le_add_right _ _),
      Nat.add_sub_cancel_left, hrest]

/-- As long as a stage is to come, something is missing. -/
theorem shorter_groupsUpTo (hne : ∀ entry ∈ groups, entry.2 ≠ []) (begun : Bool) {done : Nat}
    (h : done < (stagesOf index groups).length) :
    Shorter (r.groupsUpTo index begun groups done) (r.groupsDocument index begun groups) := by
  induction groups generalizing begun done with
  | nil => exact absurd h (Nat.not_lt_zero _)
  | cons first rest ih =>
    obtain ⟨group, members⟩ := first
    have hmembers : members ≠ [] := hne _ List.mem_cons_self
    rw [length_stagesOf_cons] at h
    cases done with
    | zero =>
      obtain ⟨item, hmem, hshown⟩ := exists_mem_groupDocument r ⟨group, index⟩ members
      exact .stop (List.mem_append_left _ (List.mem_append_right _ hmem)) hshown
    | succ done =>
      rw [groupsUpTo, groupsDocument]
      by_cases hdone : done < members.length + 1
      · rw [Nat.sub_eq_zero_of_le (Nat.le_of_lt hdone), groupsUpTo_zero, List.append_nil]
        exact ((shorter_groupUpTo hdone).append_left _).append_right _
      · rw [groupUpTo_of_le hmembers (Nat.not_lt.mp hdone)]
        exact (ih (fun entry hentry => hne entry (List.mem_cons_of_mem _ hentry)) true
          (by omega)).append_left _

variable {mode : RenderMode} {tables : List Table}

theorem documentUpTo_length :
    r.documentUpTo mode tables (stages mode tables).length = r.document mode tables :=
  groupsUpTo_length (fun _ h => members_ne_nil h) false

theorem shorter_documentUpTo {done : Nat} (h : done < (stages mode tables).length) :
    Shorter (r.documentUpTo mode tables done) (r.document mode tables) :=
  shorter_groupsUpTo (fun _ h => members_ne_nil h) false h

end Repository

/-! ## Renderings -/

/-- The lookups made, and what was kept of them, once some first stages of a pass are done. -/
def Connection.afterStages (c : Connection) (mode : RenderMode) (tables : List Table)
    (session : Session) (done : Nat) : CachedSession :=
  CachedSession.after { session } (((stages mode tables).take done).map (Stage.lookUp c))

/-- The number of groups that some first stages of a pass begin. -/
def groupsBegun (mode : RenderMode) (tables : List Table) (done : Nat) : Nat :=
  ((stages mode tables).take done).countP Stage.isHeader

/-- What is left of a rendering that did so many of its stages, each of them in full. -/
structure Rendering.StopsAfter (c : Connection) (mode : RenderMode) (tables : List Table)
    (session : Session) (done : Nat) (rendering : Rendering) : Prop where
  le : done ≤ (stages mode tables).length
  /-- No stage was begun after the work was cancelled. -/
  calm : ∀ n < done, (c.afterStages mode tables session n).session.cancelled = false
  /-- Stages are left out for one reason only. -/
  cancelled : done < (stages mode tables).length →
    (c.afterStages mode tables session done).session.cancelled = true
  /-- No lookup was made besides those of the stages that were done. -/
  lookups : rendering.session = (c.afterStages mode tables session done).session
  document : rendering.document = c.repository.documentUpTo mode tables done
  /-- The summary counts the groups that were begun, and all tables. -/
  result : rendering.result = .ok
    { groups := groupsBegun mode tables done
      tables := ((partition mode tables).flatMap (·.2)).length
      cancelled := decide (done < (stages mode tables).length) }

section Render

variable {c : Connection} {mode : RenderMode} {tables : List Table} {session : Session}

/-- What the course of a pass tells of the state it leaves, told of the rendering. -/
theorem stopsAfter_of_reaches {s : PassState} {done : Nat}
    (hreach : (PassM.groupsCourse c (.ofTables mode tables) false (partition mode tables)).Reaches c
      { lookups := { session } } s done)
    (hle : done ≤ (stages mode tables).length)
    (hcancelled : done < (stages mode tables).length → s.lookups.session.cancelled = true) :
    Rendering.StopsAfter c mode tables session done
      { document := s.document
        session := s.lookups.session
        result := .ok
          { groups := s.groups
            tables := ((partition mode tables).flatMap (·.2)).length
            cancelled := decide (done < (stages mode tables).length) } } := by
  have hafter : ∀ n, CachedSession.after { session }
      (((stages mode tables).map (Stage.lookUp c)).take n) =
        c.afterStages mode tables session n := fun n => by
    rw [← List.map_take]
    rfl
  have hlookups : s.lookups = c.afterStages mode tables session done :=
    hreach.lookups.trans (hafter done)
  refine ⟨hle, fun n hn => hafter n ▸ hreach.calm n hn, hlookups ▸ hcancelled,
    congrArg CachedSession.session hlookups, hreach.document, ?_⟩
  have hgroups : s.groups = groupsBegun mode tables done := hreach.groups.trans (Nat.zero_add _)
  rw [hgroups]

theorem exists_stopsAfter (hc : c.Unfailing) (mode : RenderMode) (tables : List Table)
    (session : Session) :
    ∃ done, (render mode tables c session).StopsAfter c mode tables session done := by
  have hgoes : PassM.Goes c { lookups := { session } }
      (PassM.renderGroups (.ofGroups (partition mode tables)) (partition mode tables))
      (PassM.groupsCourse c (.ofTables mode tables) false (partition mode tables)) :=
    PassM.goes_renderGroups hc _ _ (fun _ h => members_ne_nil h)
      (LookupCache.kept_empty c.repository)
  have hlength : (PassM.groupsCourse c (.ofTables mode tables) false
      (partition mode tables)).stints.length = (stages mode tables).length := List.length_map ..
  unfold render
  cases hgoes with
  | ended hrun hreach =>
    rw [hlength] at hreach
    have hall := stopsAfter_of_reaches hreach (Nat.le_refl _) fun h => absurd h (Nat.lt_irrefl _)
    rw [decide_eq_false (Nat.lt_irrefl _)] at hall
    simp only [hrun]
    exact ⟨_, hall⟩
  | stopped hrun hdone hreach hcancelled =>
    rw [hlength] at hdone
    have hsome := stopsAfter_of_reaches hreach (Nat.le_of_lt hdone) fun _ => hcancelled
    rw [decide_eq_true hdone] at hsome
    simp only [hrun]
    exact ⟨_, hsome⟩

end Render

/-- **A cancelled rendering finishes its stage, and tells the truth.**

The work may be cancelled before the first lookup or during any of them. The stage that is in
progress then is the last one that is done. The summary reports the cancellation if and only if the
text is not that of the pass without it, so not where only the last stage was left. -/
theorem told_of_cancelled (r : Repository) (mode : RenderMode) (tables : List Table)
    (session : Session) (cancels : Nat → Lookup → Bool) :
    let c : Connection := { repository := r, cancels }
    let rendering := render mode tables c session
    let undisturbed := render mode tables { repository := r } { session with cancelled := false }
    (∃ done, rendering.StopsAfter c mode tables session done) ∧
      ∃ summary whole, rendering.result = .ok summary ∧ undisturbed.result = .ok whole ∧
        (summary.cancelled = true ↔ rendering.document.text ≠ undisturbed.document.text) ∧
        whole.cancelled = false ∧ summary.tables = whole.tables := by
  intro c rendering undisturbed
  obtain ⟨done, hstops⟩ := exists_stopsAfter (c := c) (fun _ _ => rfl) mode tables session
  obtain ⟨hdocument, hresult⟩ :=
    @render_of_quiet mode tables { repository := r } { session with cancelled := false } r.quiet rfl
  refine ⟨⟨done, hstops⟩, _, _, hstops.result, hresult, ?_, rfl, rfl⟩
  have hleft : rendering.document = r.documentUpTo mode tables done := hstops.document
  rw [hleft, hdocument]
  show decide (done < (stages mode tables).length) = true ↔ _
  rw [decide_eq_true_iff]
  constructor
  · intro hmissing heq
    have hlt := (Repository.shorter_documentUpTo (r := r) hmissing).length_text_lt
    rw [heq] at hlt
    exact Nat.lt_irrefl _ hlt
  · intro hdiffers
    refine Nat.lt_of_le_of_ne hstops.le fun hall => hdiffers ?_
    rw [hall, Repository.documentUpTo_length]

end Ambient
