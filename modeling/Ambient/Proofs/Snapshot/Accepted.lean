import Ambient.Proofs.TypeScript.Names

/-!
# Which snapshots are valid

Validation demands one thing after the other of a snapshot: names that are fit for where
they are declared, and of a table that it does not extend itself. `Snapshot.demands` is
the list of all of them, in the order in which they are looked at. A snapshot is valid
exactly when every demand is met, and is otherwise refused for the first one that is not.

What an identifier is, is said twice: once as a test, where a property is declared, and
once as a search for the first fault of a name. The search also looks for blanks, which
the test does not mention; the two agree because no character of an identifier is blank.
-/

namespace Ambient

open TypeScript (isIdentifier isIdentifierRest isIdentifierStart)

/-! ## The first of a list -/

section First

variable {α : Type} {p : α → Prop} {a first : α} {as : List α}

/-- The first of `as` that `p` holds of. -/
def IsFirst (p : α → Prop) (as : List α) (first : α) : Prop :=
  ∃ before after, as = before ++ first :: after ∧ p first ∧ ∀ earlier ∈ before, ¬ p earlier

theorem not_isFirst_nil : ¬ IsFirst p [] first := by
  rintro ⟨before, after, h, -⟩
  exact absurd h.symm (List.append_ne_nil_of_right_ne_nil before (List.cons_ne_nil first after))

theorem isFirst_cons :
    IsFirst p (a :: as) first ↔ p a ∧ first = a ∨ ¬ p a ∧ IsFirst p as first := by
  constructor
  · rintro ⟨before, after, h, hp, hbefore⟩
    cases before with
    | nil =>
      obtain ⟨rfl, -⟩ := List.cons.inj h
      exact .inl ⟨hp, rfl⟩
    | cons b before =>
      obtain ⟨rfl, rfl⟩ := List.cons.inj h
      obtain ⟨hb, hbefore⟩ := List.forall_mem_cons.mp hbefore
      exact .inr ⟨hb, before, after, rfl, hp, hbefore⟩
  · rintro (⟨hp, rfl⟩ | ⟨ha, before, after, rfl, hp, hbefore⟩)
    · exact ⟨[], as, rfl, hp, fun _ h => absurd h List.not_mem_nil⟩
    · exact ⟨a :: before, after, rfl, hp, List.forall_mem_cons.mpr ⟨ha, hbefore⟩⟩

theorem isFirst_append {bs : List α} :
    IsFirst p (as ++ bs) first ↔
      IsFirst p as first ∨ (∀ a ∈ as, ¬ p a) ∧ IsFirst p bs first := by
  induction as with
  | nil => simp [not_isFirst_nil]
  | cons a as ih =>
    rw [List.cons_append, isFirst_cons, isFirst_cons, ih, List.forall_mem_cons, and_or_left,
      or_assoc, and_assoc]

theorem exists_isFirst (h : ∃ a ∈ as, p a) : ∃ first, IsFirst p as first := by
  induction as with
  | nil => exact absurd h (by simp)
  | cons a as ih =>
    by_cases ha : p a
    · exact ⟨a, isFirst_cons.mpr (.inl ⟨ha, rfl⟩)⟩
    · obtain ⟨b, hb, hp⟩ := h
      rcases List.mem_cons.mp hb with rfl | hb
      · exact absurd hp ha
      · obtain ⟨first, hfirst⟩ := ih ⟨b, hb, hp⟩
        exact ⟨first, isFirst_cons.mpr (.inr ⟨ha, hfirst⟩)⟩

/-- A search for the first one finds none exactly where there is none. -/
theorem eq_none_iff_of_isFirst {found : Option α} (h : ∀ a, found = some a ↔ IsFirst p as a) :
    found = none ↔ ∀ a ∈ as, ¬ p a := by
  constructor
  · rintro rfl a ha hp
    obtain ⟨first, hfirst⟩ := exists_isFirst ⟨a, ha, hp⟩
    exact nomatch (h first).mpr hfirst
  · intro hnone
    refine Option.eq_none_iff_forall_ne_some.mpr fun a heq => ?_
    obtain ⟨before, after, rfl, hp, -⟩ := (h a).mp heq
    exact hnone a (List.mem_append_right _ List.mem_cons_self) hp

theorem findSome?_flatMap {β γ : Type} (as : List α) (parts : α → List β) (find : β → Option γ) :
    (as.flatMap parts).findSome? find = as.findSome? fun a => (parts a).findSome? find := by
  induction as with
  | nil => rfl
  | cons a as ih =>
    rw [List.flatMap_cons, List.findSome?_append, ih, List.findSome?_cons]
    cases (parts a).findSome? find <;> rfl

end First

/-! ## Names -/

/-- The characters of an identifier are ASCII. -/
theorem toNat_lt_of_isIdentifierRest {c : Char} (h : isIdentifierRest c = true) :
    c.toNat < 128 := by
  delta isIdentifierRest Char.isAlphanum Char.isAlpha Char.isUpper Char.isLower Char.isDigit at h
  simp only [Bool.or_eq_true, Bool.and_eq_true, decide_eq_true_eq, beq_iff_eq,
    UInt32.le_iff_toNat_le, ge_iff_le] at h
  rcases h with (((h | h) | h) | rfl) | rfl
  · exact Nat.lt_of_le_of_lt h.2 (by decide)
  · exact Nat.lt_of_le_of_lt h.2 (by decide)
  · exact Nat.lt_of_le_of_lt h.2 (by decide)
  · decide
  · decide

/-- No character of an identifier is blank. -/
theorem isBlank_of_isIdentifierRest {c : Char} (h : isIdentifierRest c = true) :
    Text.isBlank c = false := by
  have hall : ∀ n < 128,
      isIdentifierRest (Char.ofNat n) = true → Text.isBlank (Char.ofNat n) = false := by
    decide +kernel
  have hc := hall c.toNat (toNat_lt_of_isIdentifierRest h)
  rw [Char.ofNat_toNat] at hc
  exact hc h

namespace NameFault

/-- The fault is one that the name has. -/
def Of (name : String) : NameFault → Prop
  | .empty => name = ""
  | .blankInside => ∃ c ∈ name.toList, Text.isBlank c = true
  | .badStart => ∀ c, name.toList.head? = some c → isIdentifierStart c = false
  | .badCharacter => ∃ c ∈ name.toList.tail, isIdentifierRest c = false

end NameFault

theorem nameFault?_eq_some_iff {name : String} {fault : NameFault} :
    nameFault? name = some fault ↔ IsFirst (NameFault.Of name) [.empty, .blankInside] fault := by
  simp only [isFirst_cons, not_isFirst_nil, and_false, or_false]
  unfold nameFault?
  split
  · rename_i hempty
    have hhas : NameFault.Of name .empty := String.isEmpty_iff.mp hempty
    simp [hhas, eq_comm]
  · rename_i hempty
    have hnot : ¬ NameFault.Of name .empty := fun h => hempty (String.isEmpty_iff.mpr h)
    split
    · rename_i hblank
      have hhas : NameFault.Of name .blankInside := List.any_eq_true.mp hblank
      simp [hnot, hhas, eq_comm]
    · rename_i hblank
      have hnot' : ¬ NameFault.Of name .blankInside := fun h => hblank (List.any_eq_true.mpr h)
      simp [hnot, hnot']

theorem nameFault?_eq_none_iff {name : String} :
    nameFault? name = none ↔ name ≠ "" ∧ ∀ c ∈ name.toList, Text.isBlank c = false := by
  rw [eq_none_iff_of_isFirst fun _ => nameFault?_eq_some_iff]
  simp [NameFault.Of]

/-- The two rules about single characters, for a name that has some. -/
theorem characterFault?_eq_some_iff {name : String} {fault : NameFault} (h : name ≠ "") :
    (match name.toList with
      | [] => none
      | c :: cs =>
        if ! isIdentifierStart c then some NameFault.badStart
        else if ! cs.all isIdentifierRest then some .badCharacter
        else none) = some fault ↔
      IsFirst (NameFault.Of name) [.badStart, .badCharacter] fault := by
  simp only [isFirst_cons, not_isFirst_nil, and_false, or_false]
  cases hname : name.toList with
  | nil => exact absurd (String.toList_eq_nil_iff.mp hname) h
  | cons c cs =>
    have hstart : NameFault.Of name .badStart ↔ isIdentifierStart c = false := by
      simp [NameFault.Of, hname]
    have hrest : NameFault.Of name .badCharacter ↔ cs.all isIdentifierRest = false := by
      simp [NameFault.Of, hname]
    rw [hstart, hrest]
    dsimp only
    cases isIdentifierStart c with
    | false => simp [eq_comm (b := fault)]
    | true =>
      cases cs.all isIdentifierRest with
      | false => simp [eq_comm (b := fault)]
      | true => simp

theorem identifierFault?_eq_some_iff {name : String} {fault : NameFault} :
    identifierFault? name = some fault ↔
      IsFirst (NameFault.Of name) [.empty, .blankInside, .badStart, .badCharacter] fault := by
  have hnone : nameFault? name = none ↔
      ∀ fault ∈ [NameFault.empty, .blankInside], ¬ NameFault.Of name fault :=
    eq_none_iff_of_isFirst fun _ => nameFault?_eq_some_iff
  rw [show [NameFault.empty, .blankInside, .badStart, .badCharacter] =
    [.empty, .blankInside] ++ [.badStart, .badCharacter] from rfl, isFirst_append, ← hnone,
    ← nameFault?_eq_some_iff, identifierFault?, Option.or_eq_some_iff]
  refine or_congr_right (and_congr_right fun h => ?_)
  exact characterFault?_eq_some_iff (nameFault?_eq_none_iff.mp h).1

theorem isIdentifier_iff {name : String} :
    isIdentifier name = true ↔
      (∃ c, name.toList.head? = some c ∧ isIdentifierStart c = true) ∧
        ∀ c ∈ name.toList.tail, isIdentifierRest c = true := by
  unfold isIdentifier
  cases name.toList with
  | nil => simp
  | cons c cs => simp

/-- **The search finds no fault exactly where the test passes.** -/
theorem identifierFault?_eq_none_iff {name : String} :
    identifierFault? name = none ↔ isIdentifier name = true := by
  refine ⟨isIdentifier_of_identifierFault?, fun h => ?_⟩
  rw [eq_none_iff_of_isFirst fun _ => identifierFault?_eq_some_iff]
  obtain ⟨⟨first, hfirst, hstart⟩, hrest⟩ := isIdentifier_iff.mp h
  intro fault _ hfault
  cases fault with
  | empty => exact TypeScript.ne_empty_of_isIdentifier h hfault
  | blankInside =>
    obtain ⟨c, hc, hblank⟩ := hfault
    have hall := List.all_eq_true.mp (TypeScript.all_of_isIdentifier h) c hc
    exact Bool.eq_false_iff.mp (isBlank_of_isIdentifierRest hall) hblank
  | badStart => exact Bool.eq_false_iff.mp (hfault first hfirst) hstart
  | badCharacter =>
    obtain ⟨c, hc, hnot⟩ := hfault
    exact Bool.eq_false_iff.mp hnot (hrest c hc)

/-! ## Demands -/

namespace NameKind

/-- The faults that a name of this kind must not have, in the order in which they are looked for. -/
def faults : NameKind → List NameFault
  | .scope | .table => [.empty, .blankInside, .badStart, .badCharacter]
  | .elementOf _ => [.empty, .blankInside]

/-- The name is fit for what it is the name of. -/
def Fits (name : String) : NameKind → Prop
  | .scope | .table => isIdentifier name = true
  | .elementOf _ => name ≠ "" ∧ ∀ c ∈ name.toList, Text.isBlank c = false

/-- What is found wrong with a name of this kind. -/
def fault? (name : String) : NameKind → Option NameFault
  | .scope | .table => identifierFault? name
  | .elementOf _ => nameFault? name

variable {kind : NameKind} {name : String}

theorem fault?_eq_some_iff {fault : NameFault} :
    kind.fault? name = some fault ↔ IsFirst (NameFault.Of name) kind.faults fault := by
  cases kind with
  | scope => exact identifierFault?_eq_some_iff
  | table => exact identifierFault?_eq_some_iff
  | elementOf => exact nameFault?_eq_some_iff

theorem fault?_eq_none_iff : kind.fault? name = none ↔ kind.Fits name := by
  cases kind with
  | scope => exact identifierFault?_eq_none_iff
  | table => exact identifierFault?_eq_none_iff
  | elementOf => exact nameFault?_eq_none_iff

end NameKind

/-- One thing that validation demands of a snapshot. -/
inductive Demand where
  /-- A name is fit for what it is the name of. -/
  | fits (kind : NameKind) (name : String)
  /-- A table does not name itself as its super table. -/
  | notItself (table : String) (superName : Option String)

namespace Demand

def Met : Demand → Prop
  | .fits kind name => kind.Fits name
  | .notItself table superName => superName.map Text.trim ≠ some table

/-- How it is reported that the demand is not met: a name with the first of its faults. -/
def Reports (violation : Violation) : Demand → Prop
  | .fits kind name =>
    ∃ fault, IsFirst (NameFault.Of name) kind.faults fault ∧ violation = .badName kind name fault
  | .notItself table _ => violation = .extendsItself table

/-- What is found where the demand is looked at. -/
def violation? : Demand → Option Violation
  | .fits kind name => (kind.fault? name).map (.badName kind name)
  | .notItself table superName =>
    if superName.map Text.trim = some table then some (.extendsItself table) else none

variable {demand : Demand} {violation : Violation}

theorem violation?_eq_none_iff : demand.violation? = none ↔ demand.Met := by
  cases demand with
  | fits kind name => exact Option.map_eq_none_iff.trans NameKind.fault?_eq_none_iff
  | notItself table superName => simp [violation?, Met]

theorem violation?_eq_some_iff :
    demand.violation? = some violation ↔ ¬ demand.Met ∧ demand.Reports violation := by
  cases demand with
  | fits kind name =>
    rw [Met, ← NameKind.fault?_eq_none_iff, Reports, violation?, Option.map_eq_some_iff]
    simp only [← NameKind.fault?_eq_some_iff, eq_comm (a := violation)]
    constructor
    · rintro ⟨fault, h, heq⟩
      exact ⟨h ▸ Option.some_ne_none fault, fault, h, heq⟩
    · rintro ⟨-, fault, h, heq⟩
      exact ⟨fault, h, heq⟩
  | notItself table superName =>
    simp [violation?, Met, Reports, eq_comm]

end Demand

/-! ## Snapshots -/

/-- What is demanded of the table called `name`: of its name, its scope, its super table and its
elements, in this order. -/
def TableEntry.demands (entry : TableEntry) (name : String) : List Demand :=
  .fits .table name ::
    (Text.present? entry.attributes.scope).toList.map (.fits .scope) ++
    .notItself name entry.attributes.superName ::
    entry.elements.keys.map (.fits (.elementOf name))

/-- All that is demanded of a snapshot: of its scopes in name order, then of one table after the
other in name order. -/
def Snapshot.demands (snapshot : Snapshot) : List Demand :=
  snapshot.scopes.keys.map (.fits .scope) ++
    snapshot.tables.toList.flatMap fun (name, entry) => entry.demands name

theorem TableEntry.violation?_eq_findSome? (entry : TableEntry) (name : String) :
    entry.violation? name = (entry.demands name).findSome? Demand.violation? := by
  have hscope : entry.scopeViolation? =
      ((Text.present? entry.attributes.scope).toList.map (Demand.fits .scope)).findSome?
        Demand.violation? := by
    unfold scopeViolation?
    cases Text.present? entry.attributes.scope with
    | none => rfl
    | some scope =>
      simp [Demand.violation?, NameKind.fault?]
  have helements : entry.elementViolation? name =
      (entry.elements.keys.map (Demand.fits (.elementOf name))).findSome? Demand.violation? := by
    rw [List.findSome?_map]
    rfl
  have hextends : entry.extendsViolation? name =
      (Demand.notItself name entry.attributes.superName).violation? := rfl
  have hname : (identifierFault? name).map (.badName .table name) =
      (Demand.fits .table name).violation? := rfl
  rw [violation?, hname, hscope, hextends, helements, demands]
  simp only [List.cons_append, List.findSome?_cons, List.findSome?_append, Option.or_assoc]
  cases (Demand.fits .table name).violation? with
  | some violation => rfl
  | none =>
    rw [Option.none_or]
    cases (Demand.notItself name entry.attributes.superName).violation? <;> rfl

theorem Snapshot.violation?_eq_findSome? (snapshot : Snapshot) :
    snapshot.violation? = snapshot.demands.findSome? Demand.violation? := by
  have hscopes : (snapshot.scopes.keys.map (Demand.fits .scope)).findSome? Demand.violation? =
      snapshot.scopes.keys.findSome? fun scope =>
        (identifierFault? scope).map (.badName .scope scope) :=
    List.findSome?_map
  have htables : (snapshot.tables.toList.flatMap fun (name, entry) => entry.demands name).findSome?
        Demand.violation? =
      snapshot.tables.toList.findSome? fun (name, entry) => entry.violation? name := by
    rw [findSome?_flatMap]
    refine congrArg (List.findSome? · snapshot.tables.toList) (funext fun (name, entry) => ?_)
    exact (entry.violation?_eq_findSome? name).symm
  rw [violation?, demands, List.findSome?_append, hscopes, htables]

/-! ## Snapshots that are accepted -/

/-- A table that is fit to be declared: it and its scope are called by identifiers, it does not
extend itself, and its elements are called by names that are not empty and hold no blank. -/
structure TableEntry.Accepted (entry : TableEntry) (name : String) : Prop where
  identifier : isIdentifier name = true
  scope : ∀ scope, Text.present? entry.attributes.scope = some scope → isIdentifier scope = true
  superName : entry.attributes.superName.map Text.trim ≠ some name
  element : ∀ element ∈ entry.elements.keys,
    element ≠ "" ∧ ∀ c ∈ element.toList, Text.isBlank c = false

/-- Every scope is called by an identifier, and every table is fit to be declared. -/
structure Snapshot.Accepted (snapshot : Snapshot) : Prop where
  scope : ∀ key ∈ snapshot.scopes.keys, isIdentifier key = true
  table : ∀ name entry, (name, entry) ∈ snapshot.tables.toList → entry.Accepted name

theorem TableEntry.accepted_iff {entry : TableEntry} {name : String} :
    entry.Accepted name ↔ ∀ demand ∈ entry.demands name, demand.Met := by
  have hdemands : (∀ demand ∈ entry.demands name, demand.Met) ↔
      Demand.Met (.fits .table name) ∧
        (∀ scope, Text.present? entry.attributes.scope = some scope →
          Demand.Met (.fits .scope scope)) ∧
        Demand.Met (.notItself name entry.attributes.superName) ∧
        ∀ element ∈ entry.elements.keys, Demand.Met (.fits (.elementOf name) element) := by
    simp [demands, or_imp, forall_and]
  rw [hdemands]
  exact ⟨fun h => ⟨h.identifier, h.scope, h.superName, h.element⟩,
    fun h => ⟨h.1, h.2.1, h.2.2.1, h.2.2.2⟩⟩

theorem Snapshot.accepted_iff {snapshot : Snapshot} :
    snapshot.Accepted ↔ ∀ demand ∈ snapshot.demands, demand.Met := by
  have hdemands : (∀ demand ∈ snapshot.demands, demand.Met) ↔
      (∀ key ∈ snapshot.scopes.keys, Demand.Met (.fits .scope key)) ∧
        ∀ name entry, (name, entry) ∈ snapshot.tables.toList →
          ∀ demand ∈ entry.demands name, demand.Met := by
    rw [demands, List.forall_mem_append, List.forall_mem_map]
    refine and_congr_right fun _ => ?_
    constructor
    · intro h name entry hentry demand hdemand
      exact h demand (List.mem_flatMap.mpr ⟨(name, entry), hentry, hdemand⟩)
    · intro h demand hdemand
      obtain ⟨⟨name, entry⟩, hentry, hin⟩ := List.mem_flatMap.mp hdemand
      exact h name entry hentry demand hin
  simp only [hdemands, ← TableEntry.accepted_iff]
  exact ⟨fun h => ⟨h.scope, h.table⟩, fun h => ⟨h.1, h.2⟩⟩

/-- **A snapshot is valid exactly when it is accepted, and is else refused for the first demand that
is not met**, which is reported with the first fault of the name that it is about. -/
theorem Snapshot.violation?_of_first_unmet (snapshot : Snapshot) :
    (snapshot.violation? = none ↔ snapshot.Accepted) ∧
      ∀ violation, snapshot.violation? = some violation ↔
        ∃ demand, IsFirst (¬ ·.Met) snapshot.demands demand ∧ demand.Reports violation := by
  rw [violation?_eq_findSome?, accepted_iff]
  constructor
  · rw [List.findSome?_eq_none_iff]
    exact forall₂_congr fun demand _ => Demand.violation?_eq_none_iff
  · intro violation
    simp only [List.findSome?_eq_some_iff, Demand.violation?_eq_some_iff,
      Demand.violation?_eq_none_iff, IsFirst, Classical.not_not]
    constructor
    · rintro ⟨before, demand, after, heq, ⟨hunmet, hreports⟩, hbefore⟩
      exact ⟨demand, ⟨before, after, heq, hunmet, hbefore⟩, hreports⟩
    · rintro ⟨demand, ⟨before, after, heq, hunmet, hbefore⟩, hreports⟩
      exact ⟨before, demand, after, heq, ⟨hunmet, hreports⟩, hbefore⟩

-- of three faults in one table the first one counts
example : ({ tables := .ofList [("task",
    { attributes := { scope := some "x app", superName := some " task" }
      elements := .ofList [("due date", {})] })] } : Snapshot).violation? =
    some (.badName .scope "x app" .blankInside) := by decide +kernel

end Ambient
