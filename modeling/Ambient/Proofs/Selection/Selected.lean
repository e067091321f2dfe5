import Ambient.Command.Select
import Ambient.Proofs.Repository.Reached
import Mathlib.Data.List.Sort

/-!
# What a selection holds

A selection holds what is reached from the named tables by going from tables to super
tables. The walk from one name ends at the first table that was selected before; the
tables selected so far are closed under super tables, so nothing is lost by that
(`exists_chosen`).

Where nothing goes wrong with the lookups, selecting is a function of the repository,
and what is chosen is given in name order. A list in strict name order is known by its
members, so how the names of the wanted tables are ordered or repeated makes no
difference to the selection.
-/

namespace Ambient

open LookupM (leftUnmet)

/-! ## One walk after the other -/

namespace Repository

variable {r : Repository} {unmet : List String} {table : Table} {name : String}
  {names : List String}

/-- The tables that `names` add to a selection where the tables called `unmet` are not selected yet.
The first name that is no table is an error. -/
def chosen (r : Repository) (unmet : List String) : List String → Except SelectError (List Table)
  | [] => .ok []
  | name :: names =>
    match r.table? name with
    | none => .error (.unknownTable name)
    | some table =>
      let chain := r.chainFrom unmet table
      (r.chosen (leftUnmet unmet chain) names).map (chain ++ ·)

/-- The first of the names that is no table. -/
def unknown? (r : Repository) (names : List String) : Option String :=
  names.find? fun name => (r.table? name).isNone

/-- `table` is reached from one of the tables that are named. -/
def ReachedFrom (r : Repository) (names : List String) (table : Table) : Prop :=
  ∃ name ∈ names, ∃ named, r.table? name = some named ∧ r.Reaches named table

theorem chosen_of_none (h : r.table? name = none) :
    r.chosen unmet (name :: names) = .error (.unknownTable name) := by
  rw [chosen, h]

theorem chosen_of_some (h : r.table? name = some table) :
    r.chosen unmet (name :: names) =
      (r.chosen (leftUnmet unmet (r.chainFrom unmet table)) names).map
        (r.chainFrom unmet table ++ ·) := by
  rw [chosen, h]

theorem chosen_of_unknown (h : r.unknown? names = some name) :
    r.chosen unmet names = .error (.unknownTable name) := by
  induction names generalizing unmet with
  | nil => exact nomatch h
  | cons first names ih =>
    rw [unknown?, List.find?_cons] at h
    cases hfirst : r.table? first with
    | none =>
      rw [hfirst] at h
      rw [chosen_of_none hfirst, Option.some.inj h]
    | some table =>
      rw [hfirst] at h
      have hrest : r.unknown? names = some name := h
      rw [chosen_of_some hfirst, ih hrest]
      rfl

/-- **What the walks choose together**: all that is reached from the names and was not met before
the first walk. -/
theorem exists_chosen (hclosed : r.MetClosed unmet) (hnodup : unmet.Nodup)
    (hnames : r.unknown? names = none) :
    ∃ tables, r.chosen unmet names = .ok tables ∧
      ∀ table, table ∈ tables ↔ table.name ∈ unmet ∧ r.ReachedFrom names table := by
  induction names generalizing unmet with
  | nil =>
    refine ⟨[], rfl, fun table => ⟨fun h => absurd h List.not_mem_nil, ?_⟩⟩
    rintro ⟨-, name, hname, -⟩
    exact absurd hname List.not_mem_nil
  | cons first names ih =>
    obtain ⟨hfirst, hrest⟩ := List.forall_mem_cons.mp (List.find?_eq_none.mp hnames)
    obtain ⟨start, hstart⟩ : ∃ start, r.table? first = some start :=
      Option.ne_none_iff_exists'.mp (by simpa using hfirst)
    have hknown := mem_allTables_of_table? hstart
    -- the other names are walked from with more tables met, which are closed again
    obtain ⟨rest, hchosen, hmem⟩ := ih (hclosed.leftUnmet hnodup hknown) (nodup_leftUnmet hnodup)
      (List.find?_eq_none.mpr hrest)
    refine ⟨r.chainFrom unmet start ++ rest, ?_, fun table => ?_⟩
    · rw [chosen_of_some hstart, hchosen]
      rfl
    · rw [List.mem_append, hmem, mem_chainFrom_iff hclosed hnodup hknown]
      constructor
      · rintro (⟨hunmet, hreached⟩ | ⟨hleft, name, hname, hreached⟩)
        · exact ⟨hunmet, first, List.mem_cons_self, start, hstart, hreached⟩
        · exact ⟨((mem_leftUnmet hnodup).mp hleft).1, name, List.mem_cons_of_mem _ hname, hreached⟩
      · rintro ⟨hunmet, name, hname, named, hnamed, hreached⟩
        rcases List.mem_cons.mp hname with rfl | hname
        · rw [hstart] at hnamed
          exact .inl ⟨hunmet, Option.some.inj hnamed ▸ hreached⟩
        · -- the first walk may have been there already
          by_cases hleft : table.name ∈ leftUnmet unmet (r.chainFrom unmet start)
          · exact .inr ⟨hleft, name, hname, named, hnamed, hreached⟩
          · have htable := known_of_reaches (mem_allTables_of_table? hnamed) hreached
            have hvisited := mem_chainFrom_of_met hnodup hknown htable hunmet hleft
            exact .inl (reaches_of_mem_chainFrom hvisited)

theorem known_of_reachedFrom (h : r.ReachedFrom names table) : table ∈ r.allTables := by
  obtain ⟨name, -, named, hnamed, hreached⟩ := h
  exact known_of_reaches (mem_allTables_of_table? hnamed) hreached

/-- `selected` is the least set of tables, in strict name order, that holds the named ones and is
closed under super tables. -/
structure LeastSelection (r : Repository) (names : List String) (selected : List Table) : Prop where
  sorted : selected.Pairwise fun a b => a.name < b.name
  mem_iff : ∀ table, table ∈ selected ↔ r.ReachedFrom names table
  /-- With a table its super table is selected, if there is one. -/
  closed : ∀ table ∈ selected, ∀ parent, r.superTable? table = some parent → parent ∈ selected
  least : ∀ other : Table → Prop, (∀ name ∈ names, ∀ named ∈ r.table? name, other named) →
    (∀ table parent, other table → r.superTable? table = some parent → other parent) →
    ∀ table ∈ selected, other table

/-- What is reached is the least that is closed. -/
theorem leastSelection_of_mem_iff {selected : List Table}
    (hsorted : selected.Pairwise fun a b => a.name < b.name)
    (hmem : ∀ table, table ∈ selected ↔ r.ReachedFrom names table) :
    r.LeastSelection names selected where
  sorted := hsorted
  mem_iff := hmem
  closed := by
    intro table htable parent hparent
    obtain ⟨name, hname, named, hnamed, hreached⟩ := (hmem table).mp htable
    exact (hmem parent).mpr ⟨name, hname, named, hnamed, hreached.tail hparent⟩
  least := by
    intro other hnamed hclosed table htable
    obtain ⟨name, hname, start, hstart, hreached⟩ := (hmem table).mp htable
    induction hreached with
    | refl => exact hnamed name hname start hstart
    | tail hbefore hstep ih =>
      have hbelow := (hmem _).mpr ⟨name, hname, start, hstart, hbefore⟩
      exact hclosed _ _ (ih hbelow) hstep

end Repository

/-! ## Name order -/

/-- The tables in name order. -/
def byName (tables : List Table) : List Table :=
  (NameMap.ofList (tables.map fun table => (table.name, table))).values

section ByName

variable {tables : List Table} {table : Table}

theorem get?_byName (hrows : OneRowEach tables) {name : String} :
    (NameMap.ofList (tables.map fun table => (table.name, table))).get? name = some table ↔
      table ∈ tables ∧ table.name = name := by
  rw [NameMap.get?_ofList, Option.map_eq_some_iff]
  constructor
  · rintro ⟨⟨key, row⟩, hfind, rfl⟩
    have hmem := List.mem_reverse.mp (List.mem_of_find?_eq_some hfind)
    obtain ⟨other, hother, heq⟩ := List.mem_map.mp hmem
    obtain ⟨rfl, rfl⟩ := Prod.mk.inj heq
    exact ⟨hother, by simpa using List.find?_some hfind⟩
  · rintro ⟨hmem, rfl⟩
    have hentry := List.mem_reverse.mpr (List.mem_map_of_mem (f := fun row => (row.name, row)) hmem)
    refine ⟨_, find?_eq_some_of_unique hentry (beq_self_eq_true _) ?_, rfl⟩
    intro entry hother hname
    obtain ⟨other, hmem', rfl⟩ := List.mem_map.mp (List.mem_reverse.mp hother)
    rw [hrows hmem' hmem (beq_iff_eq.mp hname)]

theorem mem_byName (hrows : OneRowEach tables) : table ∈ byName tables ↔ table ∈ tables := by
  rw [byName, NameMap.mem_values_iff]
  constructor
  · rintro ⟨name, h⟩
    exact ((get?_byName hrows).mp h).1
  · intro h
    exact ⟨table.name, (get?_byName hrows).mpr ⟨h, rfl⟩⟩

theorem pairwise_byName (hrows : OneRowEach tables) :
    (byName tables).Pairwise fun a b => a.name < b.name := by
  refine List.pairwise_map.mpr ((NameMap.sorted _).imp_of_mem fun ha hb hlt => ?_)
  have hname := ((get?_byName hrows).mp (NameMap.mem_entries_iff.mp ha)).2
  have hname' := ((get?_byName hrows).mp (NameMap.mem_entries_iff.mp hb)).2
  rw [hname, hname']
  exact hlt

/-- A list in strict name order is known by its members. -/
theorem eq_of_pairwise_name {a b : List Table} (ha : a.Pairwise fun x y => x.name < y.name)
    (hb : b.Pairwise fun x y => x.name < y.name) (h : ∀ table, table ∈ a ↔ table ∈ b) : a = b := by
  have hirrefl : Std.Irrefl fun x y : Table => x.name < y.name :=
    ⟨fun x => String.lt_irrefl x.name⟩
  have hantisymm : Std.Antisymm fun x y : Table => x.name < y.name :=
    ⟨fun x y hxy hyx => absurd (String.lt_trans hxy hyx) (String.lt_irrefl x.name)⟩
  exact ha.eq_of_mem_iff hb h

end ByName

/-! ## Selecting -/

/-- A walk that visits nothing but the tables themselves lists the chain. -/
theorem LookupM.answers_climb_pure (unmet : List String) (current : Table) :
    Answers (climb pure unmet current) fun r =>
      (r.chainFrom unmet current, leftUnmet unmet (r.chainFrom unmet current)) := by
  have hclimb := answers_climb (fun table => Task.answers_pure table) unmet current
  refine hclimb.congr fun r => ?_
  rw [List.map_id']

namespace SelectM

variable {c : Connection} {s : Session}

/-- How the walks end: with what they choose on the repository, or stopped by a lookup. -/
inductive Chosen (c : Connection) (s : Session) (unmet names : List String) : Prop where
  | ended {s' : Session} : chains unmet names c s = (c.repository.chosen unmet names, s') →
      (c.Quiet → s.cancelled = false → s'.cancelled = false) → Chosen c s unmet names
  | stopped {e : SelectError} {s' : Session} : chains unmet names c s = (.error e, s') →
      ¬ (c.Quiet ∧ s.cancelled = false) → Chosen c s unmet names

section Walk

variable {unmet names left : List String} {name : String} {table : Table} {chain : List Table}
  {s₁ s₂ : Session}

theorem chains_of_known (hfind : ofLookup (LookupM.table name) c s = (.ok (some table), s₁))
    (hwalk : ofLookup (LookupM.climb pure unmet table) c s₁ = (.ok (chain, left), s₂)) :
    chains unmet (name :: names) c s = (do return chain ++ (← chains left names)) c s₂ := by
  rw [chains, Task.bind_of_ok hfind]
  exact Task.bind_of_ok hwalk

theorem chains_of_failed (hfind : ofLookup (LookupM.table name) c s = (.ok (some table), s₁))
    {e : SelectError}
    (hwalk : ofLookup (LookupM.climb pure unmet table) c s₁ = (.error e, s₂)) :
    chains unmet (name :: names) c s = (.error e, s₂) := by
  rw [chains, Task.bind_of_ok hfind]
  exact Task.bind_of_error hwalk

end Walk

theorem chosen_chains (unmet names : List String) : Chosen c s unmet names := by
  induction names generalizing unmet s with
  | nil => exact .ended rfl fun _ hs => hs
  | cons name names ih =>
    cases LookupM.answers_table name c s trivial with
    | stopped hfail _ hstop =>
      have hfind : ofLookup (LookupM.table name) c s = _ := Task.within_of_error hfail
      exact .stopped (by rw [chains, Task.bind_of_error hfind]) hstop
    | @ended s₁ hended _ hcalm =>
      have hfind : ofLookup (LookupM.table name) c s = (.ok (c.repository.table? name), s₁) :=
        Task.within_of_ok hended
      cases hfound : c.repository.table? name with
      | none =>
        rw [hfound] at hfind
        refine .ended ?_ hcalm
        rw [chains, Task.bind_of_ok hfind, Repository.chosen_of_none hfound]
        rfl
      | some table =>
        rw [hfound] at hfind
        cases LookupM.answers_climb_pure unmet table c s₁ trivial with
        | stopped hfail _ hstop =>
          refine .stopped (chains_of_failed hfind (Task.within_of_error hfail)) fun h => ?_
          exact hstop ⟨h.1, hcalm h.1 h.2⟩
        | ended hclimb _ hcalm' =>
          have hwalk : chains unmet (name :: names) c s = _ :=
            chains_of_known hfind (Task.within_of_ok hclimb)
          cases ih (LookupM.leftUnmet unmet (c.repository.chainFrom unmet table)) with
          | stopped hfail hstop =>
            refine .stopped (hwalk.trans (Task.bind_of_error hfail)) fun h => ?_
            exact hstop ⟨h.1, hcalm' h.1 (hcalm h.1 h.2)⟩
          | ended hchosen hcalm'' =>
            refine .ended (hwalk.trans ?_) fun hq hs => hcalm'' hq (hcalm' hq (hcalm hq hs))
            rw [Task.bind_apply, hchosen, Repository.chosen_of_some hfound]
            cases c.repository.chosen _ names with
            | error e => rfl
            | ok tables => rfl

/-- Where nothing goes wrong, the walks choose what they choose on the repository. -/
theorem run_chains (hq : c.Quiet) (unmet names : List String) (hs : s.cancelled = false) :
    ∃ s', chains unmet names c s = (c.repository.chosen unmet names, s') ∧
      s'.cancelled = false := by
  cases chosen_chains unmet names with
  | ended hrun hcalm => exact ⟨_, hrun, hcalm hq hs⟩
  | stopped _ hstop => exact absurd ⟨hq, hs⟩ hstop

/-- Walks that come to their end have chosen what they choose where nothing goes wrong. -/
theorem chosen_of_chains {s' : Session} {unmet names : List String} {tables : List Table}
    (hrun : chains unmet names c s = (.ok tables, s')) :
    c.repository.chosen unmet names = .ok tables := by
  cases chosen_chains unmet names with
  | ended hended _ =>
    rw [hended] at hrun
    exact congrArg Prod.fst hrun
  | stopped hstopped _ =>
    rw [hstopped] at hrun
    exact nomatch congrArg Prod.fst hrun

end SelectM

section Select

variable {names : List String} (r : Repository)

/-- Of names the walks choose the selection, in name order. -/
theorem selectTables_of_names (hnames : names ≠ []) :
    (selectTables names { repository := r } {}).1 =
      (r.chosen r.tables.keys names).map byName := by
  obtain ⟨s', hrun, -⟩ :=
    SelectM.run_chains (c := { repository := r }) (s := {}) r.quiet r.tables.keys names rfl
  have hsome : ¬ names.isEmpty = true := by simpa using hnames
  rw [selectTables, if_neg hsome, Task.bind_of_ok (Task.read_apply _ _), Task.bind_apply, hrun]
  cases r.chosen r.tables.keys names with
  | error e => rfl
  | ok tables => rfl

theorem selectTables_nil : (selectTables [] { repository := r } {}).1 = .ok r.allTables := rfl

/-- Known tables have a selection: what is reached from them, in name order. -/
theorem exists_selected (hnames : names ≠ []) (hknown : r.unknown? names = none) :
    ∃ selected, (selectTables names { repository := r } {}).1 = .ok selected ∧
      r.LeastSelection names selected := by
  obtain ⟨tables, hchosen, hmem⟩ :=
    Repository.exists_chosen r.metClosed_keys r.nodup_keys hknown
  have hreached : ∀ table, table ∈ tables ↔ r.ReachedFrom names table := by
    intro table
    rw [hmem]
    refine ⟨And.right, fun h => ⟨?_, h⟩⟩
    exact Repository.mem_keys_of_mem_allTables (Repository.known_of_reachedFrom h)
  have hrows : OneRowEach tables := oneRowEach_of_subset fun table htable =>
    Repository.known_of_reachedFrom ((hreached table).mp htable)
  refine ⟨byName tables, ?_, ?_⟩
  · rw [selectTables_of_names r hnames, hchosen]
    rfl
  · refine Repository.leastSelection_of_mem_iff (pairwise_byName hrows) fun table => ?_
    rw [mem_byName hrows, hreached]

theorem selectTables_of_unknown (hnames : names ≠ []) {name : String}
    (hunknown : r.unknown? names = some name) :
    (selectTables names { repository := r } {}).1 = .error (.unknownTable name) := by
  rw [selectTables_of_names r hnames, Repository.chosen_of_unknown hunknown]
  rfl

/-- The order and the repetition of the names make no difference. -/
theorem selectTables_congr {names' : List String} {selected : List Table} (hnames : names ≠ [])
    (hknown : r.unknown? names = none) (hleast : r.LeastSelection names selected)
    (hsame : ∀ name, name ∈ names' ↔ name ∈ names) :
    (selectTables names' { repository := r } {}).1 = .ok selected := by
  have hnames' : names' ≠ [] := by
    obtain ⟨name, hname⟩ := List.exists_mem_of_ne_nil names hnames
    exact List.ne_nil_of_mem ((hsame name).mpr hname)
  have hknown' : r.unknown? names' = none := List.find?_eq_none.mpr fun name hname =>
    List.find?_eq_none.mp hknown name ((hsame name).mp hname)
  obtain ⟨selected', hok, hleast'⟩ := exists_selected r hnames' hknown'
  rw [hok]
  refine congrArg _ (eq_of_pairwise_name hleast'.sorted hleast.sorted fun table => ?_)
  rw [hleast'.mem_iff, hleast.mem_iff]
  simp only [Repository.ReachedFrom, hsame]

end Select

/-- A selection that comes to its end is the one that is made where nothing goes wrong. -/
theorem selectTables_of_ok {names : List String} {tables : List Table} {c : Connection}
    {s s' : Session} (hrun : selectTables names c s = (.ok tables, s')) :
    (selectTables names { repository := c.repository } {}).1 = .ok tables := by
  by_cases hnames : names = []
  · subst hnames
    exact congrArg Prod.fst hrun
  · have hsome : ¬ names.isEmpty = true := by simpa using hnames
    rw [selectTables, if_neg hsome, Task.bind_of_ok (Task.read_apply c s)] at hrun
    obtain ⟨chosen, s₁, hchosen, hrun⟩ := Task.exists_of_bind_eq_ok hrun
    rw [selectTables_of_names _ hnames, SelectM.chosen_of_chains hchosen]
    exact congrArg Prod.fst hrun

/-- Selecting does not cancel anything where nothing else does. -/
theorem calm_of_selectTables {names : List String} {c : Connection} {s : Session} (hq : c.Quiet)
    (hs : s.cancelled = false) : (selectTables names c s).2.cancelled = false := by
  unfold selectTables
  by_cases hnames : names.isEmpty = true
  · rw [if_pos hnames]
    exact hs
  · obtain ⟨s', hrun, hcalm⟩ := SelectM.run_chains hq c.repository.tables.keys names hs
    rw [if_neg hnames, Task.bind_of_ok (Task.read_apply c s), Task.bind_apply, hrun]
    cases c.repository.chosen c.repository.tables.keys names with
    | error e => exact hcalm
    | ok tables => exact hcalm

/-- **A selection is the least set of tables that holds the named ones and every super table that is
known.**

It fails exactly where a name is no table, and then for the first one of these. Otherwise the
tables that are reached from the named ones come in strict name order, and the order and the
repetition of the names make no difference. -/
theorem selectTables_eq_reached (snapshot : Snapshot) {names : List String} (hnames : names ≠ []) :
    let r := snapshot.repository
    let outcome := (selectTables names { repository := r } {}).1
    ((∃ error, outcome = .error error) ↔ ∃ name ∈ names, r.table? name = none) ∧
      (∀ error, outcome = .error error → ∃ name,
        names.find? (fun name => (r.table? name).isNone) = some name ∧
          error = .unknownTable name) ∧
      ∀ selected, outcome = .ok selected → r.LeastSelection names selected ∧
        ∀ names', (∀ name, name ∈ names' ↔ name ∈ names) →
          (selectTables names' { repository := r } {}).1 = .ok selected := by
  intro r outcome
  cases hunknown : r.unknown? names with
  | some name =>
    have hfail : outcome = .error (.unknownTable name) := selectTables_of_unknown r hnames hunknown
    have hnone : r.table? name = none := by simpa using List.find?_some hunknown
    have hmem := List.mem_of_find?_eq_some hunknown
    refine ⟨⟨fun _ => ⟨name, hmem, hnone⟩, fun _ => ⟨_, hfail⟩⟩, ?_, ?_⟩
    · intro error herror
      rw [hfail] at herror
      exact ⟨name, hunknown, (Except.error.inj herror).symm⟩
    · intro selected hselected
      rw [hfail] at hselected
      exact nomatch hselected
  | none =>
    obtain ⟨tables, hok, hleast⟩ := exists_selected r hnames hunknown
    have hok' : outcome = .ok tables := hok
    refine ⟨⟨?_, ?_⟩, ?_, ?_⟩
    · rintro ⟨error, herror⟩
      rw [hok'] at herror
      exact nomatch herror
    · rintro ⟨name, hname, hnone⟩
      have hsome := List.find?_eq_none.mp hunknown name hname
      rw [hnone] at hsome
      exact absurd rfl hsome
    · intro error herror
      rw [hok'] at herror
      exact nomatch herror
    · intro selected hselected
      obtain rfl : tables = selected := by
        rw [hok'] at hselected
        exact Except.ok.inj hselected
      exact ⟨hleast, fun _ hsame => selectTables_congr r hnames hunknown hleast hsame⟩

/-- Two tables that extend each other, one that leads to them, and one that extends a table that is
not there. -/
def Snapshot.crossroads : Snapshot where
  tables := .ofList
    [("alpha", { attributes := { superName := some "beta" } }),
     ("beta", { attributes := { superName := some "alpha" } }),
     ("gamma", { attributes := { superName := some " beta " } }),
     ("omega", { attributes := { superName := some "gone" } })]

theorem selectTables_eq_reached_crossroads :
    let r := Snapshot.crossroads.repository
    let names := ["omega", "gamma", "omega"]
    let outcome := (selectTables names { repository := r } {}).1
    names ≠ [] ∧
      ((∃ error, outcome = .error error) ↔ ∃ name ∈ names, r.table? name = none) ∧
      (∀ error, outcome = .error error → ∃ name,
        names.find? (fun name => (r.table? name).isNone) = some name ∧
          error = .unknownTable name) ∧
      ∀ selected, outcome = .ok selected → r.LeastSelection names selected ∧
        ∀ names', (∀ name, name ∈ names' ↔ name ∈ names) →
          (selectTables names' { repository := r } {}).1 = .ok selected := by
  intro r names outcome
  have hnames : names ≠ [] := by decide
  exact ⟨hnames, selectTables_eq_reached Snapshot.crossroads hnames⟩

end Ambient
