import Ambient.Proofs.Layout.Partition
import Ambient.Proofs.Render.Course

/-!
# The stages of a pass

Lookups are made in stages: for the headers of a group, for its record types, and for the
fields of one table after the other. Between two stages there is a checkpoint, within a
stage there is none. `goes_renderGroups` says that this is how a pass goes, what each
stage looks up, and what has been written by the time so many stages are done.
-/

namespace Ambient

open TypeScript (Document Item)

/-- What is done in one go. The element types of a group need no lookup, and are declared together
with the fields of its first table. -/
inductive Stage where
  /-- Begins a group; what the scopes of its tables are called is looked up for the headers. -/
  | header (site : Site) (tables : List Table)
  /-- The record types of a group. -/
  | records (site : Site) (tables : List Table)
  /-- The fields of a table. -/
  | interface (site : Site) (table : Table)

/-- The lookups for the headers of a group: none, unless a namespace encloses it. -/
def Site.lookUpScopes (c : Connection) (site : Site) (tables : List Table) : Stint :=
  match site.group.enclosing? with
  | none => id
  | some _ => fun s => (PassM.scopeHeaders site.group tables c s).2

namespace Stage

def isHeader : Stage → Bool
  | .header _ _ => true
  | _ => false

/-- What the stage looks up. -/
def lookUp (c : Connection) : Stage → Stint
  | .header site tables => site.lookUpScopes c tables
  | .records site tables =>
    fun s => tables.foldl (fun s table => (CacheM.recordAlias site table c s).2) s
  | .interface site table => fun s => (CacheM.fieldsInterface site table c s).2

end Stage

/-- The stages of a group after the one that begins it. -/
def Site.declaring (site : Site) (tables : List Table) : List Stage :=
  .records site tables :: tables.map (.interface site)

def Site.stages (site : Site) (tables : List Table) : List Stage :=
  .header site tables :: site.declaring tables

/-- The stages of some groups. -/
def stagesOf (index : TableIndex) (groups : List (Group × List Table)) : List Stage :=
  groups.flatMap fun (group, members) => Site.stages ⟨group, index⟩ members

/-- The stages of the pass over some tables. -/
def stages (mode : RenderMode) (tables : List Table) : List Stage :=
  stagesOf (.ofTables mode tables) (partition mode tables)

/-! ## What the first stages write -/

namespace Repository

/-- What the first stages after the one that begins a group make of its three namespaces. -/
def passesUpTo (r : Repository) (site : Site) (tables : List Table) : (done : Nat) → Document
  | 0 => []
  | 1 => [r.kindNamespace site tables .records]
  | done + 2 =>
    [r.kindNamespace site tables .records, .blank,
      r.kindNamespace site tables .elements, .blank,
      r.kindNamespace site (tables.take (done + 1)) .fields]

/-- A group that has been begun, and as many stages after that as are done. -/
def groupUpTo (r : Repository) (site : Site) (tables : List Table) (done : Nat) : Document :=
  match site.group.enclosing? with
  | none => r.passesUpTo site tables done
  | some name =>
    (r.scopeHeaders site.group tables).map .comment
      ++ [.namespace "declare namespace" name (r.passesUpTo site tables done)]

/-- What the first stages of some groups write; `begun` tells that there is a group above them. -/
def groupsUpTo (r : Repository) (index : TableIndex) :
    (begun : Bool) → List (Group × List Table) → (done : Nat) → Document
  | _, [], _ => []
  | _, _ :: _, 0 => []
  | begun, (group, members) :: rest, done + 1 =>
    (if begun then [.blank] else []) ++ r.groupUpTo ⟨group, index⟩ members done
      ++ r.groupsUpTo index true rest (done - (members.length + 1))

/-- What the first stages of the pass over some tables write. -/
def documentUpTo (r : Repository) (mode : RenderMode) (tables : List Table) (done : Nat) :
    Document :=
  r.groupsUpTo (.ofTables mode tables) false (partition mode tables) done

variable {r : Repository} {site : Site} {tables : List Table}

/-- A group is complete once the fields of its last table are declared. -/
theorem passesUpTo_of_le (hne : tables ≠ []) {done : Nat} (h : tables.length + 1 ≤ done) :
    r.passesUpTo site tables done = r.passesDocument site tables := by
  have hpos := List.length_pos_iff.mpr hne
  obtain ⟨done, rfl⟩ : ∃ n, done = n + 2 := ⟨done - 2, by omega⟩
  rw [passesUpTo, List.take_of_length_le (by omega)]
  rfl

theorem groupUpTo_of_le (hne : tables ≠ []) {done : Nat} (h : tables.length + 1 ≤ done) :
    r.groupUpTo site tables done = r.groupDocument site tables := by
  unfold groupUpTo groupDocument
  cases site.group.enclosing? with
  | none => exact passesUpTo_of_le hne h
  | some name => simp only [passesUpTo_of_le hne h]

theorem groupsUpTo_zero (index : TableIndex) (begun : Bool) (groups : List (Group × List Table)) :
    r.groupsUpTo index begun groups 0 = [] := by
  cases groups <;> rfl

end Repository

/-! ## Declarations one by one -/

namespace PassM

open Repository (groupUpTo groupUpTo_of_le groupsUpTo groupsUpTo_zero passesUpTo)

variable {α : Type} {c : Connection}

/-- First a task without a checkpoint. -/
theorem takes_before {first second : PassM Unit} {head : Stint} {added : Document} {course : Course}
    (h : Takes c first { head, left := fun _ => added }) (hnext : Takes c second course) :
    Takes c (first >>= fun _ => second)
      { course with
        head := fun s => course.head (head s)
        left := fun n => added ++ course.left n } := by
  refine (takes_bind h (.inl rfl) hnext).congr (Course.ext rfl rfl ?_ ?_)
  · exact funext fun n => Course.left_append_of_nil _ _ rfl n
  · exact funext fun n => (Course.begun_append_of_nil _ _ rfl n).trans (Nat.zero_add _)

section AddEach

variable {unit : α → PassM Item} {f : α → Item} {stint : α → Stint}

theorem takes_rest (h : ∀ a, LooksUp c (unit a) (f a) (stint a)) (items : List α) :
    Takes c (addEach.rest unit items)
      { head := fun s => items.foldl (fun s a => stint a s) s
        left := fun _ => items.flatMap fun a => [.blank, f a] } := by
  induction items with
  | nil => exact takes_nil c
  | cons a items ih =>
    exact takes_ask (h a) fun item =>
      takes_before (takes_add c .blank) (takes_before (takes_add c item) ih)

theorem takes_addEach (h : ∀ a, LooksUp c (unit a) (f a) (stint a)) (items : List α) :
    Takes c (addEach unit items)
      { head := fun s => items.foldl (fun s a => stint a s) s
        left := fun _ => (items.map f).intersperse .blank } := by
  cases items with
  | nil => exact takes_nil c
  | cons a items =>
    refine (takes_ask (h a) fun item =>
      takes_before (takes_add c item) (takes_rest h items)).congr (Course.ext rfl rfl ?_ rfl)
    rw [List.map_cons, intersperse_cons, List.flatMap_map]
    rfl

theorem takes_rest_checked (h : ∀ a, LooksUp c (unit a) (f a) (stint a)) (items : List α) :
    Takes c (addEach.rest (fun a => do checkpoint; unit a) items)
      { stints := items.map stint
        left := fun n => (items.take n).flatMap fun a => [.blank, f a] } := by
  induction items with
  | nil => exact (takes_nil c).congr (Course.ext rfl rfl (by simp) rfl)
  | cons a items ih =>
    rw [addEach.rest, bind_assoc]
    refine (takes_ask (h a) fun item => takes_before (takes_add c .blank)
      (takes_before (takes_add c item) ih)).afterCheckpoint.congr (Course.ext rfl rfl ?_ ?_)
    · funext n
      cases n <;> rfl
    · funext n
      cases n <;> rfl

/-- With a checkpoint before each item, the items are added stint by stint. -/
theorem takes_addEach_checked (h : ∀ a, LooksUp c (unit a) (f a) (stint a)) (items : List α) :
    Takes c (addEach (fun a => do checkpoint; unit a) items)
      { stints := items.map stint
        left := fun n => ((items.take n).map f).intersperse .blank } := by
  cases items with
  | nil => exact (takes_nil c).congr (Course.ext rfl rfl (by simp) rfl)
  | cons a items =>
    rw [addEach, bind_assoc]
    refine (takes_ask (h a) fun item => takes_before (takes_add c item)
      (takes_rest_checked h items)).afterCheckpoint.congr (Course.ext rfl rfl ?_ ?_)
    · funext n
      cases n with
      | zero => rfl
      | succ n =>
        show _ = List.intersperse _ (List.map _ (List.take (n + 1) (a :: items)))
        rw [List.take_succ_cons, List.map_cons, intersperse_cons, List.flatMap_map]
        rfl
    · funext n
      cases n <;> rfl

end AddEach

/-! ## Groups -/

variable (hc : c.Unfailing) (site : Site) (tables : List Table)

include hc

theorem takes_recordPass :
    Takes c (recordPass site tables)
      { head := (Stage.records site tables).lookUp c
        left := fun _ => [c.repository.kindNamespace site tables .records] } :=
  takes_enclose (takes_addEach (f := c.repository.declaration site .records)
    (fun table => (looksUp_ofCache (CacheM.answers_recordAlias site table)
      (CacheM.ends_recordAlias site table) hc).map Item.alias) tables) _ _

omit hc in
theorem takes_elementPass :
    Takes c (elementPass site tables)
      { left := fun _ => [c.repository.kindNamespace site tables .elements] } := by
  have hunit : ∀ table, LooksUp c (return .alias (site.elementAlias table))
      (c.repository.declaration site .elements table) id := fun _ _ hk => ⟨rfl, hk⟩
  have hidle : ∀ s : CachedSession, tables.foldl (fun s _ => id s) s = s := by
    intro s
    induction tables with
    | nil => rfl
    | cons _ _ ih => exact ih
  have h := takes_enclose (takes_addEach hunit tables) site.group.namespaceKeyword
    (site.group.namespaceName .elements)
  rw [show (fun s : CachedSession => tables.foldl (fun s _ => id s) s) = id from funext hidle] at h
  exact h

theorem takes_fieldsPass :
    Takes c (fieldsPass site tables)
      { stints := tables.map fun table => (Stage.interface site table).lookUp c
        left := fun n => [c.repository.kindNamespace site (tables.take n) .fields] } :=
  takes_enclose (takes_addEach_checked (f := c.repository.declaration site .fields)
    (fun table => (looksUp_ofCache (CacheM.answers_fieldsInterface site table)
      (CacheM.ends_fieldsInterface site table) hc).map Item.interface) tables) _ _

omit hc in
theorem map_lookUp_declaring (c : Connection) :
    (site.declaring tables).map (Stage.lookUp c) =
      (Stage.records site tables).lookUp c ::
        tables.map fun table => (Stage.interface site table).lookUp c := by
  rw [Site.declaring, List.map_cons, List.map_map]
  rfl

/-- The checkpoints before the element types and before the first interface have no lookup between
them, so they stop the pass at one place. -/
theorem takes_passes (hne : tables ≠ []) :
    Takes c (passes site tables)
      { stints := (site.declaring tables).map (Stage.lookUp c)
        left := c.repository.passesUpTo site tables } := by
  obtain ⟨table, rest, rfl⟩ := List.exists_cons_of_ne_nil hne
  have hfields := (takes_before (takes_add c .blank)
    (takes_fieldsPass hc site (table :: rest))).afterCheckpoint.joinIdle rfl
  have helements := (takes_before (takes_add c .blank)
    (takes_before (takes_elementPass site (table :: rest)) hfields)).afterCheckpoint.joinIdle rfl
  refine (takes_before (takes_recordPass hc site (table :: rest)) helements).afterCheckpoint.congr
    (Course.ext rfl ?_ ?_ ?_)
  · exact (map_lookUp_declaring site (table :: rest) c).symm
  · funext n
    match n with
    | 0 => rfl
    | 1 => rfl
    | n + 2 => rfl
  · funext n
    match n with
    | 0 => rfl
    | 1 => rfl
    | n + 2 => rfl

omit hc in
theorem takes_headers (c : Connection) (headers : List (List String)) :
    Takes c (headers.forM fun header => add (.comment header))
      { left := fun _ => headers.map .comment } := by
  induction headers with
  | nil => exact takes_nil c
  | cons header headers ih => exact takes_before (takes_add c (.comment header)) ih

omit hc in
/-- The course of a group that has been begun. -/
def groupCourse (c : Connection) (site : Site) (tables : List Table) : Course where
  head := (Stage.header site tables).lookUp c
  stints := (site.declaring tables).map (Stage.lookUp c)
  left := c.repository.groupUpTo site tables

/-- A group that has been begun goes on with its headers. -/
theorem takes_renderGroup (hne : tables ≠ []) :
    Takes c (renderGroup site tables) (groupCourse c site tables) := by
  have hpasses := takes_passes hc site tables hne
  show Takes c _ { head := site.lookUpScopes c tables, stints := _, left := _ }
  unfold renderGroup groupUpTo Site.lookUpScopes
  cases site.group.enclosing? with
  | none => exact hpasses
  | some name =>
    exact takes_ask (looksUp_ofCache (CacheM.answers_scopeHeaders site.group tables)
      (CacheM.ends_scopeHeaders site.group tables) hc) fun headers =>
        takes_before (takes_headers c headers) (takes_enclose hpasses "declare namespace" name)

/-! ## The pass -/

omit hc in
/-- How a group begins: the first one stands at the top, each further one is set off by a blank
line. -/
def beginCourse (begun : Bool) : Course where
  left _ := if begun then [.blank] else []
  begun _ := 1

omit hc in
theorem goes_beginGroup {s : PassState} (hk : s.Kept c.repository) :
    Goes c s beginGroup (beginCourse (decide (s.groups ≠ 0))) := by
  have hleft : (beginCourse (decide (s.groups ≠ 0))).left 0 =
      if s.groups ≠ 0 then [.blank] else [] := by
    rw [beginCourse]
    simp only [decide_eq_true_eq]
  exact .ended (beginGroup_apply c s) ⟨hk, rfl, congrArg (s.document ++ ·) hleft.symm, rfl, nofun⟩

omit hc in
/-- The course of the groups that are still to be begun. -/
def groupsCourse (c : Connection) (index : TableIndex) (begun : Bool)
    (groups : List (Group × List Table)) : Course where
  stints := (stagesOf index groups).map (Stage.lookUp c)
  left := c.repository.groupsUpTo index begun groups
  begun done := ((stagesOf index groups).take done).countP Stage.isHeader

omit hc in
theorem length_declaring : (site.declaring tables).length = tables.length + 1 := by
  rw [Site.declaring, List.length_cons, List.length_map]

omit hc in
/-- A group is begun by its first stage and by no other. -/
theorem countP_isHeader_stages (site : Site) (tables : List Table) (rest : List Stage)
    (done : Nat) :
    ((site.stages tables ++ rest).take (done + 1)).countP Stage.isHeader =
      1 + (rest.take (done - (tables.length + 1))).countP Stage.isHeader := by
  have hdeclaring : ∀ stage ∈ (site.declaring tables).take done, ¬ stage.isHeader = true := by
    intro stage hstage
    rcases List.mem_cons.mp (List.mem_of_mem_take hstage) with rfl | h
    · exact Bool.false_ne_true
    · obtain ⟨table, -, rfl⟩ := List.mem_map.mp h
      exact Bool.false_ne_true
  rw [Site.stages, List.cons_append, List.take_succ_cons, List.countP_cons, List.take_append,
    List.countP_append, List.countP_eq_zero.mpr hdeclaring, length_declaring, Nat.zero_add,
    Nat.add_comm]
  rfl

omit hc in
/-- The document left is that of the group while its stages are not all done, and goes on with the
other groups from there. -/
theorem left_groupCourse_append {index : TableIndex} (group : Group) (hne : tables ≠ [])
    (rest : List (Group × List Table)) (done : Nat) :
    ((groupCourse c ⟨group, index⟩ tables).append (groupsCourse c index true rest)).left done =
      c.repository.groupUpTo ⟨group, index⟩ tables done
        ++ c.repository.groupsUpTo index true rest (done - (tables.length + 1)) := by
  have hlength : (groupCourse c ⟨group, index⟩ tables).stints.length = tables.length + 1 := by
    rw [groupCourse, List.length_map, length_declaring]
  have hall : ∀ done, tables.length + 1 ≤ done →
      c.repository.groupUpTo ⟨group, index⟩ tables done =
        c.repository.groupDocument ⟨group, index⟩ tables := fun _ => groupUpTo_of_le hne
  by_cases h : done < tables.length + 1
  · rw [Course.left_append_of_lt (hlength ▸ h), Nat.sub_eq_zero_of_le (Nat.le_of_lt h),
      groupsUpTo_zero, List.append_nil]
    rfl
  · obtain ⟨more, rfl⟩ := Nat.exists_eq_add_of_le (Nat.not_lt.mp h)
    rw [← hlength, Course.left_append_add, hlength, Nat.add_sub_cancel_left]
    exact congrArg (· ++ _) ((hall _ (Nat.le_refl _)).trans (hall _ (Nat.le_add_right _ _)).symm)

omit hc in
theorem begun_groupCourse_append {index : TableIndex} (group : Group) (tables : List Table)
    (rest : List (Group × List Table)) (done : Nat) :
    ((groupCourse c ⟨group, index⟩ tables).append (groupsCourse c index true rest)).begun done =
      ((stagesOf index rest).take (done - (tables.length + 1))).countP Stage.isHeader := by
  have hlength : (groupCourse c ⟨group, index⟩ tables).stints.length = tables.length + 1 := by
    rw [groupCourse, List.length_map, length_declaring]
  by_cases h : done < tables.length + 1
  · rw [Course.begun_append_of_lt (hlength ▸ h), Nat.sub_eq_zero_of_le (Nat.le_of_lt h)]
    rfl
  · obtain ⟨more, rfl⟩ := Nat.exists_eq_add_of_le (Nat.not_lt.mp h)
    rw [← hlength, Course.begun_append_add, Nat.add_sub_cancel_left]
    exact Nat.zero_add _

omit hc in
/-- A checkpoint, the group, and then the other groups. -/
theorem groupsCourse_cons {index : TableIndex} (begun : Bool) (group : Group) (hne : tables ≠ [])
    (rest : List (Group × List Table)) :
    ((beginCourse begun).append
      ((groupCourse c ⟨group, index⟩ tables).append
        (groupsCourse c index true rest))).afterCheckpoint =
      groupsCourse c index begun ((group, tables) :: rest) := by
  have hstages : stagesOf index ((group, tables) :: rest) =
      Site.stages ⟨group, index⟩ tables ++ stagesOf index rest := List.flatMap_cons
  refine Course.ext rfl ?_ (funext fun done => ?_) (funext fun done => ?_)
  · show _ = (stagesOf index ((group, tables) :: rest)).map (Stage.lookUp c)
    rw [hstages, List.map_append]
    rfl
  · cases done with
    | zero => rfl
    | succ done =>
      refine (Course.left_append_of_nil (beginCourse begun) _ rfl done).trans ?_
      rw [left_groupCourse_append tables group hne, ← List.append_assoc]
      rfl
  · cases done with
    | zero => rfl
    | succ done =>
      refine (Course.begun_append_of_nil (beginCourse begun) _ rfl done).trans ?_
      show 1 + _ = ((stagesOf index ((group, tables) :: rest)).take (done + 1)).countP
        Stage.isHeader
      rw [begun_groupCourse_append, hstages, countP_isHeader_stages]

/-- **How a pass goes**: stage by stage, to its end or to the first checkpoint at which the work is
cancelled. -/
theorem goes_renderGroups (index : TableIndex) (groups : List (Group × List Table))
    (hne : ∀ entry ∈ groups, entry.2 ≠ []) {s : PassState} (hk : s.Kept c.repository) :
    Goes c s (renderGroups index groups) (groupsCourse c index (decide (s.groups ≠ 0)) groups) := by
  induction groups generalizing s with
  | nil =>
    refine (takes_nil c s hk).congr (Course.ext rfl rfl rfl ?_)
    exact funext fun done => congrArg (List.countP Stage.isHeader) (List.take_nil (i := done)).symm
  | cons first rest ih =>
    obtain ⟨group, members⟩ := first
    have hmembers : members ≠ [] := hne _ List.mem_cons_self
    have hrest : ∀ s', s'.Kept c.repository → s'.groups ≠ 0 →
        Goes c s' (renderGroups index rest) (groupsCourse c index true rest) := by
      intro s' hk' hgroups'
      have h := ih (fun entry hentry => hne entry (List.mem_cons_of_mem _ hentry)) hk'
      rwa [decide_eq_true hgroups'] at h
    rw [← groupsCourse_cons _ _ group hmembers rest]
    refine Goes.afterCheckpoint hk ((goes_beginGroup hk).bind (.inl rfl) fun s₁ hk₁ hgroups₁ =>
      (takes_renderGroup hc ⟨group, index⟩ members hmembers s₁ hk₁).bind (.inr rfl)
        fun s₂ hk₂ hgroups₂ => hrest s₂ hk₂ ?_)
    -- the group was begun, so the others have one above them
    have hbegun : s₂.groups = s.groups + 1 + 0 := hgroups₁ ▸ hgroups₂
    omega

end PassM

end Ambient
