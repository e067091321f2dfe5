import Ambient.Proofs.Repository.Answers

/-!
# Which lookups a run makes

A session counts lookups and does not list them. But a run takes notice of a
connection at its lookups, and there only. So a list is the list of the lookups that
a run makes if it is against every connection that treats these lookups alike the
same run, and fails against every connection that fails one of them.

What is made by one task after the other is made by the first and then by the second.
-/

namespace Ambient

namespace Connection

variable {β γ : Type}

/-- The other connection has the same repository and treats the lookups `made` alike, made one after
the other when `start` were tried before. -/
structure Agrees (c : Connection) (start : Nat) (made : List Lookup) (other : Connection) :
    Prop where
  repository : other.repository = c.repository
  hooks : ∀ i lookup, made[i]? = some lookup →
    other.cancels (start + i) lookup = c.cancels (start + i) lookup ∧
      other.failure? (start + i) lookup = c.failure? (start + i) lookup

/-- Against `c` a run makes the lookups `made`, one after the other, when `start` were tried
before. -/
structure Makes (c : Connection) (run : Connection → β) (fails : β → LookupFailure → Prop)
    (start : Nat) (made : List Lookup) : Prop where
  /-- The run takes notice of no other lookup. -/
  only : ∀ other, c.Agrees start made other → run other = run c
  /-- It takes notice of each of these: one that fails fails the run. -/
  each : ∀ i lookup, made[i]? = some lookup →
    ∀ other failure, c.Agrees start (made.take i) other →
      other.failure? (start + i) lookup = some failure → fails (run other) failure

theorem agrees_append {c other : Connection} {start : Nat} {first second : List Lookup} :
    c.Agrees start (first ++ second) other ↔
      c.Agrees start first other ∧ c.Agrees (start + first.length) second other := by
  constructor
  · intro h
    refine ⟨⟨h.repository, fun i lookup hi => h.hooks i lookup ?_⟩,
      ⟨h.repository, fun i lookup hi => ?_⟩⟩
    · rw [List.getElem?_append_left (List.getElem?_eq_some_iff.mp hi).1]
      exact hi
    · have hshift := h.hooks (first.length + i) lookup
      rw [List.getElem?_append_right (Nat.le_add_right _ _), Nat.add_sub_cancel_left] at hshift
      rw [Nat.add_assoc]
      exact hshift hi
  · rintro ⟨h, h'⟩
    refine ⟨h.repository, fun i lookup hi => ?_⟩
    rcases Nat.lt_or_ge i first.length with hlt | hge
    · rw [List.getElem?_append_left hlt] at hi
      exact h.hooks i lookup hi
    · rw [List.getElem?_append_right hge] at hi
      have hshift := h'.hooks _ _ hi
      rw [Nat.add_assoc, Nat.add_sub_cancel' hge] at hshift
      exact hshift

namespace Makes

variable {c : Connection} {run : Connection → β} {fails : β → LookupFailure → Prop} {start : Nat}
  {made : List Lookup}

/-- A run that depends on the repository alone makes no lookup. -/
theorem nil (h : ∀ other, other.repository = c.repository → run other = run c) :
    c.Makes run fails start [] where
  only other hagrees := h other hagrees.repository
  each _ _ hmade := nomatch hmade

/-- What is made of a run makes the same lookups. -/
theorem map {fails' : γ → LookupFailure → Prop} (h : c.Makes run fails start made) (g : β → γ)
    (hfails : ∀ outcome failure, fails outcome failure → fails' (g outcome) failure) :
    c.Makes (fun other => g (run other)) fails' start made where
  only other hagrees := congrArg g (h.only other hagrees)
  each i lookup hmade other failure hagrees hfailure :=
    hfails _ _ (h.each i lookup hmade other failure hagrees hfailure)

/-- A run, and what comes after it where it ends as it does on `c`. -/
theorem append {whole rest : Connection → γ} {fails' : γ → LookupFailure → Prop}
    {made' : List Lookup} (h : c.Makes run fails start made)
    (hrest : c.Makes rest fails' (start + made.length) made')
    (hwhole : ∀ other, run other = run c → whole other = rest other)
    (hfails : ∀ other failure, fails (run other) failure → fails' (whole other) failure) :
    c.Makes whole fails' start (made ++ made') where
  only other hagrees := by
    obtain ⟨hfirst, hsecond⟩ := agrees_append.mp hagrees
    rw [hwhole other (h.only other hfirst), hwhole c rfl]
    exact hrest.only other hsecond
  each i lookup hmade other failure hagrees hfailure := by
    rw [List.take_append] at hagrees
    obtain ⟨hfirst, hsecond⟩ := agrees_append.mp hagrees
    rcases Nat.lt_or_ge i made.length with hlt | hge
    · rw [List.getElem?_append_left hlt] at hmade
      exact hfails other failure (h.each i lookup hmade other failure hfirst hfailure)
    · rw [List.getElem?_append_right hge] at hmade
      rw [List.take_of_length_le hge] at hfirst hsecond
      rw [hwhole other (h.only other hfirst)]
      refine hrest.each _ lookup hmade other failure hsecond ?_
      rw [Nat.add_assoc, Nat.add_sub_cancel' hge]
      exact hfailure

/-- **The list is determined by the run**, where no outcome tells of every failure. -/
theorem unique {made' : List Lookup} (h : c.Makes run fails start made)
    (h' : c.Makes run fails start made') (hlength : made'.length = made.length)
    (hfails : ∀ outcome, ∃ failure, ¬ fails outcome failure) : made' = made := by
  refine List.ext_getElem hlength fun i hi' hi => Classical.byContradiction fun hne => ?_
  obtain ⟨failure, hnot⟩ := hfails (run c)
  -- one list has this lookup fail and the other one has it not made
  let other : Connection := { c with
    failure? := fun n lookup =>
      if n = start + i ∧ lookup = made'[i] then some failure else c.failure? n lookup }
  have hagrees : ∀ lookups : List Lookup, lookups[i]? ≠ some made'[i] →
      c.Agrees start lookups other := by
    intro lookups hother
    refine ⟨rfl, fun j lookup hj => ⟨rfl, if_neg fun hsame => ?_⟩⟩
    obtain rfl : j = i := Nat.add_left_cancel hsame.1
    exact hother (hj.trans (congrArg _ hsame.2))
  have hsame : run other = run c := h.only other (hagrees made fun heq =>
    hne (Option.some.inj (heq.symm.trans (List.getElem?_eq_getElem hi))))
  refine hnot (hsame ▸ h'.each i made'[i] (List.getElem?_eq_getElem hi') other failure
    (hagrees _ fun heq => ?_) (if_pos ⟨rfl, rfl⟩))
  rw [List.getElem?_take, if_neg (Nat.lt_irrefl i)] at heq
  exact nomatch heq

end Makes

end Connection

/-! ## Tasks -/

/-- How the lookups of a task are watched: where the state has its session, how a failure is
raised, and which names the state knows. -/
structure Watch (σ ε : Type) where
  session : σ → Session
  raise : LookupFailure → ε
  knows : σ → Lookup → Bool

namespace Task

variable {σ τ ε ε' α β : Type} {w : Watch σ ε} {c : Connection} {s s' : σ}

/-- Run from `s`, the task makes the lookups `made`, and the session counts them. -/
structure Makes (w : Watch σ ε) (c : Connection) (task : Task σ ε α) (s : σ)
    (made : List Lookup) : Prop where
  run : c.Makes (fun other => task other s) (fun outcome failure =>
    outcome.1 = .error (w.raise failure)) (w.session s).attempts made
  counted : (w.session (task c s).2).attempts = (w.session s).attempts + made.length

theorem Makes.congr {task task' : Task σ ε α} {made : List Lookup} (h : Makes w c task s made)
    (heq : ∀ other, other.repository = c.repository → task' other s = task other s) :
    Makes w c task' s made where
  run := {
    only := by
      intro other hagrees
      show task' other s = task' c s
      rw [heq other hagrees.repository, heq c rfl]
      exact h.run.only other hagrees
    each := by
      intro i lookup hmade other failure hagrees hfailure
      show (task' other s).1 = _
      rw [heq other hagrees.repository]
      exact h.run.each i lookup hmade other failure hagrees hfailure }
  counted := by
    rw [heq c rfl]
    exact h.counted

/-- A task that depends on the repository and the state alone makes no lookup. -/
theorem Makes.nil {task : Task σ ε α}
    (h : ∀ other, other.repository = c.repository → task other s = task c s)
    (hs : (w.session (task c s).2).attempts = (w.session s).attempts) : Makes w c task s [] :=
  ⟨.nil h, hs⟩

theorem error_bind {task : Task σ ε α} {e : ε} (next : α → Task σ ε β)
    (h : (task c s).1 = .error e) : ((task >>= next) c s).1 = .error e := by
  rw [bind_apply]
  cases hrun : task c s with
  | mk result left =>
    rw [hrun] at h
    cases h
    rfl

theorem Makes.bind {task : Task σ ε α} {next : α → Task σ ε β} {a : α} {made made' : List Lookup}
    (h : Makes w c task s made) (hrun : task c s = (.ok a, s')) (h' : Makes w c (next a) s' made') :
    Makes w c (task >>= next) s (made ++ made') := by
  have hcounted := h.counted
  rw [hrun] at hcounted
  have hrest := h'.run
  rw [hcounted] at hrest
  refine ⟨h.run.append hrest (fun other hsame => ?_) fun _ _ => error_bind next, ?_⟩
  · exact bind_of_ok (hsame.trans hrun)
  · rw [bind_of_ok hrun, h'.counted, hcounted, List.length_append, Nat.add_assoc]

/-- What would come after a task that ends early is not begun. -/
theorem Makes.bind_of_error {task : Task σ ε α} (next : α → Task σ ε β) {e : ε}
    {made : List Lookup} (h : Makes w c task s made) (hrun : task c s = (.error e, s')) :
    Makes w c (task >>= next) s made := by
  have hbind : (task >>= next) c s = _ := Task.bind_of_error hrun
  refine ⟨⟨fun other hagrees => ?_, fun i lookup hmade other failure hagrees hfailure => ?_⟩, ?_⟩
  · have hsame := h.run.only other hagrees
    show (task >>= next) other s = (task >>= next) c s
    rw [hbind, Task.bind_of_error (hsame.trans hrun)]
  · exact error_bind next (h.run.each i lookup hmade other failure hagrees hfailure)
  · have hcounted := h.counted
    rw [hrun] at hcounted
    rw [hbind, hcounted]

/-- A task that runs another one, on a state of its own, and makes its end from the other one's. -/
theorem Makes.through {w' : Watch τ ε'} {inner : Task τ ε' α} {task : Task σ ε β} {t : τ}
    {made : List Lookup} (h : Makes w' c inner t made)
    (g : Except ε' α × τ → Except ε β × σ) (hrun : ∀ other, task other s = g (inner other t))
    (hsession : w.session s = w'.session t)
    (hsession' : ∀ outcome, w.session (g outcome).2 = w'.session outcome.2)
    (hraise : ∀ failure t', (g (.error (w'.raise failure), t')).1 = .error (w.raise failure)) :
    Makes w c task s made where
  run := by
    rw [hsession, funext hrun]
    refine h.run.map g fun outcome failure hfails => ?_
    obtain ⟨result, t'⟩ := outcome
    obtain rfl : result = _ := hfails
    exact hraise failure t'
  counted := by
    rw [hrun, hsession', h.counted, hsession]

end Task

/-! ## Lookups -/

/-- A lookup whose answer the cache keeps. -/
def Lookup.isKept : Lookup → Bool
  | .table _ | .elements _ => false
  | .package _ | .scope _ | .scalarType _ => true

/-- A session by itself has no cache, and no kept lookup should be made with it: they all count as
known. -/
def LookupM.watch : Watch Session LookupFailure := ⟨id, id, fun _ => Lookup.isKept⟩

theorem LookupM.makes_lookUp {α : Type} (lookup : Lookup) (answer : Repository → α)
    (c : Connection) (s : Session) : Task.Makes watch c (lookUp lookup answer) s [lookup] where
  run := by
    refine ⟨fun other hagrees => ?_, fun i found hi other failure _ hfailure => ?_⟩
    · obtain ⟨hcancels, hfailure⟩ := hagrees.hooks 0 lookup rfl
      change other.cancels s.attempts lookup = c.cancels s.attempts lookup at hcancels
      change other.failure? s.attempts lookup = c.failure? s.attempts lookup at hfailure
      simp only [lookUp_apply, hagrees.repository, hcancels, hfailure]
    · obtain ⟨hlt, rfl⟩ := List.getElem?_eq_some_iff.mp hi
      obtain rfl : i = 0 := Nat.lt_one_iff.mp hlt
      change other.failure? s.attempts lookup = some failure at hfailure
      show (lookUp lookup answer other s).1 = _
      rw [lookUp_apply, hfailure]
      rfl
  counted := by
    show (lookUp lookup answer c s).2.attempts = s.attempts + 1
    rw [lookUp_apply]
    cases c.failure? s.attempts lookup <;> rfl

end Ambient
