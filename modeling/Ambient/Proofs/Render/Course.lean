import Ambient.Proofs.Repository.Unfailing
import Ambient.Proofs.Render.Complete

/-!
# The course of a pass

Between two checkpoints a pass goes straight on, whatever happens to the work in the
meantime. So its course is a list of stints: what is looked up before the first
checkpoint, and then one stint for each checkpoint, which is done in full or not begun.
How many are done depends on the connection, and all else on that number: the lookups
made, the document left and the groups begun.

`Goes` says so of one task, for a connection where no lookup fails, by one rule for each
way in which passes are composed.
-/

namespace Ambient

open TypeScript (Document Item)

/-- What goes on between two checkpoints, as far as the lookups are concerned. -/
abbrev Stint := CachedSession → CachedSession

namespace CachedSession

/-- The lookups once the stints are done. -/
def after (s : CachedSession) (stints : List Stint) : CachedSession :=
  stints.foldl (fun s stint => stint s) s

theorem after_append (s : CachedSession) (first second : List Stint) :
    s.after (first ++ second) = (s.after first).after second := List.foldl_append

end CachedSession

@[ext]
structure Course where
  /-- What is looked up before the first checkpoint. -/
  head : Stint := id
  stints : List Stint := []
  /-- What has been added when the pass stops after so many stints. -/
  left : Nat → Document
  /-- The groups begun by then. -/
  begun : Nat → Nat := fun _ => 0

namespace Course

variable (c : Connection) (s s' : PassState)

/-- The pass has come from `s` to `s'` with so many stints done, and no stint was begun after the
work was cancelled. -/
structure Reaches (course : Course) (done : Nat) : Prop where
  kept : s'.Kept c.repository
  lookups : s'.lookups = (course.head s.lookups).after (course.stints.take done)
  document : s'.document = s.document ++ course.left done
  groups : s'.groups = s.groups + course.begun done
  calm : ∀ n < done,
    ((course.head s.lookups).after (course.stints.take n)).session.cancelled = false

/-! ## Ways to compose courses -/

/-- One course after the other. Either the first has no checkpoint, or the second begins with
one. -/
def append (first second : Course) : Course where
  head := fun s => second.head (first.head s)
  stints := first.stints ++ second.stints
  left := fun n =>
    if n < first.stints.length then first.left n
    else first.left first.stints.length ++ second.left (n - first.stints.length)
  begun := fun n =>
    if n < first.stints.length then first.begun n
    else first.begun first.stints.length + second.begun (n - first.stints.length)

/-- The course with a checkpoint before it. -/
def afterCheckpoint (course : Course) : Course where
  stints := course.head :: course.stints
  left
    | 0 => []
    | n + 1 => course.left n
  begun
    | 0 => 0
    | n + 1 => course.begun n

/-- The course with a first stint that looks nothing up, taken as one with the stint after it. -/
def joinIdle (course : Course) (stints : List Stint) : Course where
  head := course.head
  stints := stints
  left
    | 0 => course.left 0
    | n + 1 => course.left (n + 2)
  begun
    | 0 => course.begun 0
    | n + 1 => course.begun (n + 2)

section Append

variable {first second : Course} {n : Nat}

theorem left_append_of_lt (h : n < first.stints.length) :
    (first.append second).left n = first.left n := if_pos h

theorem begun_append_of_lt (h : n < first.stints.length) :
    (first.append second).begun n = first.begun n := if_pos h

theorem left_append_add (first second : Course) (n : Nat) :
    (first.append second).left (first.stints.length + n) =
      first.left first.stints.length ++ second.left n := by
  refine (if_neg (Nat.not_lt.mpr (Nat.le_add_right _ _))).trans ?_
  rw [Nat.add_sub_cancel_left]

theorem begun_append_add (first second : Course) (n : Nat) :
    (first.append second).begun (first.stints.length + n) =
      first.begun first.stints.length + second.begun n := by
  refine (if_neg (Nat.not_lt.mpr (Nat.le_add_right _ _))).trans ?_
  rw [Nat.add_sub_cancel_left]

theorem left_append_of_nil (first second : Course) (h : first.stints = []) (n : Nat) :
    (first.append second).left n = first.left 0 ++ second.left n := by
  have hadd := left_append_add first second n
  rwa [h, List.length_nil, Nat.zero_add] at hadd

theorem begun_append_of_nil (first second : Course) (h : first.stints = []) (n : Nat) :
    (first.append second).begun n = first.begun 0 + second.begun n := by
  have hadd := begun_append_add first second n
  rwa [h, List.length_nil, Nat.zero_add] at hadd

end Append

end Course

namespace PassM

variable {α : Type} {c : Connection} {s : PassState}

/-- How a task that adds items goes on `c` from the state `s`: to the end of its course, or to the
first checkpoint at which the work is cancelled. -/
inductive Goes (c : Connection) (s : PassState) (task : PassM Unit) (course : Course) : Prop where
  | ended {s' : PassState} : task c s = (.ok (), s') →
      course.Reaches c s s' course.stints.length → Goes c s task course
  | stopped {s' : PassState} {n : Nat} : task c s = (.error .cancelled, s') →
      n < course.stints.length → course.Reaches c s s' n →
      s'.lookups.session.cancelled = true → Goes c s task course

/-- Wherever it is run, the task goes the course. -/
def Takes (c : Connection) (task : PassM Unit) (course : Course) : Prop :=
  ∀ s : PassState, s.Kept c.repository → Goes c s task course

/-- The task answers `a`, and all it does to the state is the stint. -/
def LooksUp (c : Connection) (task : PassM α) (a : α) (stint : Stint) : Prop :=
  ∀ s : PassState, s.Kept c.repository →
    task c s = (.ok a, { s with lookups := stint s.lookups }) ∧
      (stint s.lookups).cache.Kept c.repository

/-! ## Tasks without a checkpoint -/

theorem looksUp_ofCache {task : CacheM α} {f : Repository → α} (ht : CacheM.Answers task f)
    (hends : Task.Ends task) (hc : c.Unfailing) :
    LooksUp c (ofCache task) (f c.repository) (fun s => (task c s).2) := by
  intro s hk
  obtain ⟨hrun, hk'⟩ := ht.run_of_unfailing hends hk hc
  exact ⟨Task.within_of_ok hrun, hk'⟩

theorem LooksUp.map {β : Type} {task : PassM α} {a : α} {stint : Stint} (h : LooksUp c task a stint)
    (g : α → β) : LooksUp c (do return g (← task)) (g a) stint := by
  intro s hk
  obtain ⟨hrun, hk'⟩ := h s hk
  exact ⟨Task.bind_of_ok hrun, hk'⟩

/-- First a question, then what is added on its answer. -/
theorem takes_ask {task : PassM α} {a : α} {stint : Stint} {next : α → PassM Unit}
    {course : α → Course} (h : LooksUp c task a stint) (hnext : ∀ a, Takes c (next a) (course a)) :
    Takes c (task >>= next) { course a with head := fun s => (course a).head (stint s) } := by
  intro s hk
  obtain ⟨hrun, hk'⟩ := h s hk
  have hbind : (task >>= next) c s = next a c { s with lookups := stint s.lookups } :=
    Task.bind_of_ok hrun
  cases hnext a { s with lookups := stint s.lookups } hk' with
  | ended hrun' hreach =>
    exact .ended (hbind.trans hrun') ⟨hreach.kept, hreach.lookups, hreach.document, hreach.groups,
      hreach.calm⟩
  | stopped hrun' hdone hreach hcancelled =>
    exact .stopped (hbind.trans hrun') hdone ⟨hreach.kept, hreach.lookups, hreach.document,
      hreach.groups, hreach.calm⟩ hcancelled

theorem takes_nil (c : Connection) : Takes c (pure ()) { left := fun _ => [] } := fun s hk =>
  .ended rfl ⟨hk, rfl, (List.append_nil s.document).symm, rfl, nofun⟩

theorem takes_add (c : Connection) (item : Item) : Takes c (add item) { left := fun _ => [item] } :=
  fun s hk => .ended (Task.modify_apply _ c s) ⟨hk, rfl, rfl, rfl, nofun⟩

/-! ## Composition -/

theorem Goes.congr {task : PassM Unit} {course course' : Course} (h : Goes c s task course)
    (heq : course = course') : Goes c s task course' := heq ▸ h

theorem Takes.congr {task : PassM Unit} {course course' : Course} (h : Takes c task course)
    (heq : course = course') : Takes c task course' := heq ▸ h

/-- One task after the other. -/
theorem Goes.bind {first second : PassM Unit} {course next : Course}
    (h : Goes c s first course) (happart : course.stints = [] ∨ next.head = id)
    (hnext : ∀ s' : PassState, s'.Kept c.repository →
      s'.groups = s.groups + course.begun course.stints.length → Goes c s' second next) :
    Goes c s (first >>= fun _ => second) (course.append next) := by
  -- where the second task starts, the head of both is done, and the stints of the first
  have hstart : ∀ s' : PassState,
      s'.lookups = (course.head s.lookups).after (course.stints.take course.stints.length) →
        ((course.append next).head s.lookups).after course.stints = next.head s'.lookups := by
    intro s' hlookups
    rw [List.take_length] at hlookups
    rcases happart with hstints | hhead
    · rw [hlookups, hstints]
      rfl
    · rw [hlookups, hhead]
      show (next.head (course.head s.lookups)).after course.stints = _
      rw [hhead]
      rfl
  have hhead : ∀ n < course.stints.length,
      (course.append next).head s.lookups = course.head s.lookups := by
    intro n hn
    rcases happart with hstints | hhead
    · rw [hstints] at hn
      exact absurd hn (Nat.not_lt_zero n)
    · show next.head _ = _
      rw [hhead]
      rfl
  have htake : ∀ n < course.stints.length,
      (course.append next).stints.take n = course.stints.take n :=
    fun n hn => List.take_append_of_le_length (Nat.le_of_lt hn)
  cases h with
  | @stopped s' done hrun hdone hreach hcancelled =>
    refine .stopped (n := done) (Task.bind_of_error hrun) ?_ ⟨hreach.kept, ?_, ?_, ?_, ?_⟩
      hcancelled
    · exact Nat.lt_of_lt_of_le hdone (List.length_append ▸ Nat.le_add_right _ _)
    · rw [hhead _ hdone, htake _ hdone, hreach.lookups]
    · rw [hreach.document, Course.left_append_of_lt hdone]
    · rw [hreach.groups, Course.begun_append_of_lt hdone]
    · intro n hn
      rw [hhead _ hdone, htake n (Nat.lt_trans hn hdone)]
      exact hreach.calm n hn
  | @ended s' hrun hreach =>
    have hreaches : ∀ {s'' : PassState} {done : Nat}, next.Reaches c s' s'' done →
        (course.append next).Reaches c s s'' (course.stints.length + done) := by
      intro s'' done hnext
      have hafter : ∀ n, ((course.append next).head s.lookups).after
          ((course.append next).stints.take (course.stints.length + n)) =
            (next.head s'.lookups).after (next.stints.take n) := by
        intro n
        show CachedSession.after _ (List.take _ (course.stints ++ next.stints)) = _
        rw [List.take_length_add_append, CachedSession.after_append, hstart s' hreach.lookups]
      refine ⟨hnext.kept, ?_, ?_, ?_, fun n hn => ?_⟩
      · rw [hnext.lookups, hafter]
      · rw [hnext.document, hreach.document, List.append_assoc, Course.left_append_add]
      · rw [hnext.groups, hreach.groups, Nat.add_assoc, Course.begun_append_add]
      · by_cases hfirst : n < course.stints.length
        · rw [hhead n hfirst, htake n hfirst]
          exact hreach.calm n hfirst
        · obtain ⟨m, rfl⟩ := Nat.exists_eq_add_of_le (Nat.not_lt.mp hfirst)
          rw [hafter]
          exact hnext.calm m (Nat.lt_of_add_lt_add_left hn)
    have hlength : (course.append next).stints.length =
        course.stints.length + next.stints.length := List.length_append
    cases hnext s' hreach.kept hreach.groups with
    | ended hrun' hreach' =>
      refine .ended ((Task.bind_of_ok hrun).trans hrun') ?_
      rw [hlength]
      exact hreaches hreach'
    | stopped hrun' hdone hreach' hcancelled =>
      refine .stopped ((Task.bind_of_ok hrun).trans hrun') ?_ (hreaches hreach') hcancelled
      rw [hlength]
      exact Nat.add_lt_add_left hdone _

theorem takes_bind {first second : PassM Unit} {course next : Course} (h : Takes c first course)
    (happart : course.stints = [] ∨ next.head = id) (hnext : Takes c second next) :
    Takes c (first >>= fun _ => second) (course.append next) := fun s hk =>
  (h s hk).bind happart fun s' hk' _ => hnext s' hk'

/-- A checkpoint begins a stint of its own. -/
theorem Goes.afterCheckpoint {task : PassM Unit} {course : Course} (hk : s.Kept c.repository)
    (h : Goes c s task course) : Goes c s (do checkpoint; task) course.afterCheckpoint := by
  have hcheck := checkpoint_apply c s
  by_cases hcancelled : s.lookups.session.cancelled = true
  · rw [if_pos hcancelled] at hcheck
    exact .stopped (n := 0) (Task.bind_of_error hcheck) (Nat.zero_lt_succ _)
      ⟨hk, rfl, (List.append_nil s.document).symm, rfl, nofun⟩ hcancelled
  · rw [if_neg hcancelled] at hcheck
    have hreaches : ∀ {s' : PassState} {done : Nat}, course.Reaches c s s' done →
        course.afterCheckpoint.Reaches c s s' (done + 1) := by
      intro s' done hreach
      refine ⟨hreach.kept, hreach.lookups, hreach.document, hreach.groups, fun n hn => ?_⟩
      cases n with
      | zero => exact Bool.eq_false_iff.mpr hcancelled
      | succ n => exact hreach.calm n (Nat.lt_of_succ_lt_succ hn)
    cases h with
    | ended hrun hreach => exact .ended ((Task.bind_of_ok hcheck).trans hrun) (hreaches hreach)
    | stopped hrun hdone hreach hstop =>
      exact .stopped ((Task.bind_of_ok hcheck).trans hrun) (Nat.succ_lt_succ hdone)
        (hreaches hreach) hstop

theorem Takes.afterCheckpoint {task : PassM Unit} {course : Course} (h : Takes c task course) :
    Takes c (do checkpoint; task) course.afterCheckpoint :=
  fun s hk => (h s hk).afterCheckpoint hk

/-- A stint that looks nothing up cannot be the last one that is done: if the work was not cancelled
before it, it is not cancelled after it. -/
theorem Takes.joinIdle {task : PassM Unit} {course : Course} {stint : Stint} {rest : List Stint}
    (h : Takes c task course) (hstints : course.stints = id :: stint :: rest) :
    Takes c task (course.joinIdle (stint :: rest)) := by
  intro s hk
  have hafter : ∀ n, (course.head s.lookups).after (course.stints.take (n + 1)) =
      (course.head s.lookups).after ((stint :: rest).take n) := by
    intro n
    rw [hstints]
    rfl
  have hreaches : ∀ {s' : PassState} {done : Nat}, course.Reaches c s s' (done + 2) →
      (course.joinIdle (stint :: rest)).Reaches c s s' (done + 1) := by
    intro s' done hreach
    refine ⟨hreach.kept, hreach.lookups.trans (hafter _), hreach.document, hreach.groups,
      fun n hn => ?_⟩
    exact hafter n ▸ hreach.calm (n + 1) (by omega)
  cases h s hk with
  | ended hrun hreach =>
    rw [hstints] at hreach
    exact .ended hrun (hreaches hreach)
  | @stopped s' done hrun hdone hreach hcancelled =>
    rw [hstints] at hdone
    match done with
    | 0 =>
      exact .stopped (n := 0) hrun (Nat.zero_lt_succ _)
        ⟨hreach.kept, hreach.lookups, hreach.document, hreach.groups, nofun⟩ hcancelled
    | 1 =>
      -- the one stint that is done has left the lookups as they were
      have hcalm := hreach.calm 0 Nat.zero_lt_one
      have hidle : s'.lookups = course.head s.lookups := hreach.lookups.trans (hafter 0)
      rw [hidle] at hcancelled
      exact absurd hcancelled (Bool.eq_false_iff.mp hcalm)
    | done + 2 =>
      exact .stopped hrun (Nat.lt_of_succ_lt_succ hdone) (hreaches hreach) hcancelled

/-- A namespace is closed wherever its body stops. -/
theorem takes_enclose {body : PassM Unit} {course : Course} (h : Takes c body course)
    (keyword name : String) :
    Takes c (enclose keyword name body)
      { course with left := fun n => [.namespace keyword name (course.left n)] } := by
  intro s hk
  have hrun : enclose keyword name body c s =
      ((body c { s with document := [] }).1,
        { (body c { s with document := [] }).2 with
          document := s.document ++
            [.namespace keyword name (body c { s with document := [] }).2.document] }) := rfl
  cases h { s with document := [] } hk with
  | ended hbody hreach =>
    have hdocument : _ = course.left course.stints.length := hreach.document
    rw [hbody, hdocument] at hrun
    exact .ended hrun ⟨hreach.kept, hreach.lookups, rfl, hreach.groups, hreach.calm⟩
  | @stopped s' done hbody hdone hreach hcancelled =>
    have hdocument : s'.document = course.left done := hreach.document
    rw [hbody, hdocument] at hrun
    exact .stopped hrun hdone ⟨hreach.kept, hreach.lookups, rfl, hreach.groups, hreach.calm⟩
      hcancelled

end PassM

end Ambient
