import Ambient.Proofs.Inheritance.Marks
import Ambient.Proofs.Selection.Selected

/-!
# Rendering a selection

What is declared for a table depends on which other tables are rendered with it, and in
three ways only: through its super table, through the ancestors that are declared, and
through the tables that its fields refer to.

A selection is closed under super tables, so all of the chain above a selected table is
rendered with it, and the first two are the same as if everything were rendered. What is
left is the type of a field that refers to a table outside the selection: it is the type
that the platform has for references, where else it is the element type of that table.
-/

namespace Ambient

open TypeScript (Document Member Property propertyName)

/-! ## Closed selections -/

/-- Tables that are rendered together with all the tables above them. -/
structure Repository.SelectsClosed (r : Repository) (tables : List Table) : Prop
    extends r.Selects tables where
  closed : ∀ table ∈ tables, ∀ parent, r.superTable? table = some parent → parent ∈ tables

namespace Repository

variable {r : Repository} {tables tables' : List Table} {table upper : Table} {names : List String}

theorem selectsClosed_allTables (hnamed : r.WellNamed) : r.SelectsClosed r.allTables where
  named := hnamed
  known ht := ht
  closed _ _ _ hparent := (superTable?_eq_some_iff.mp hparent).2

/-- Known names select known tables, and with each of these all the tables above it. -/
theorem exists_selectsClosed (hnamed : r.WellNamed)
    (hknown : ∀ name ∈ names, (r.table? name).isSome) :
    ∃ selected, (selectTables names { repository := r } {}).1 = .ok selected ∧
      r.SelectsClosed selected := by
  by_cases hnames : names = []
  · subst hnames
    exact ⟨r.allTables, selectTables_nil r, selectsClosed_allTables hnamed⟩
  · have hunknown : r.unknown? names = none := by
      refine List.find?_eq_none.mpr fun name hname => ?_
      simpa using Option.isSome_iff_ne_none.mp (hknown name hname)
    obtain ⟨selected, hok, hleast⟩ := exists_selected r hnames hunknown
    refine ⟨selected, hok, ⟨hnamed, fun {table} htable => ?_⟩, hleast.closed⟩
    exact known_of_reachedFrom ((hleast.mem_iff table).mp htable)

/-- Tables that were selected, on any connection, are tables of the repository. -/
theorem selects_of_selectTables {c : Connection} {s s' : Session}
    (hnamed : c.repository.WellNamed) (hrun : selectTables names c s = (.ok tables, s')) :
    c.repository.Selects tables where
  named := hnamed
  known := by
    intro table htable
    have hok := selectTables_of_ok hrun
    by_cases hnames : names = []
    · subst hnames
      rw [selectTables_nil] at hok
      exact Except.ok.inj hok ▸ htable
    · cases hunknown : c.repository.unknown? names with
      | some name =>
        rw [selectTables_of_unknown _ hnames hunknown] at hok
        exact nomatch hok
      | none =>
        obtain ⟨selected, hselected, hleast⟩ := exists_selected _ hnames hunknown
        rw [hok] at hselected
        rw [Except.ok.inj hselected] at htable
        exact known_of_reachedFrom ((hleast.mem_iff table).mp htable)

theorem reaches_of_mem_chain (h : upper ∈ r.chain table) : r.Reaches table upper := by
  unfold chain at h
  cases hsuper : r.superTable? table with
  | none =>
    rw [hsuper] at h
    exact absurd h List.not_mem_nil
  | some parent =>
    rw [hsuper] at h
    exact .head hsuper (reaches_of_mem_chainFrom h).2

namespace SelectsClosed

theorem mem_of_reaches (h : r.SelectsClosed tables) (ht : table ∈ tables)
    (hreached : r.Reaches table upper) : upper ∈ tables := by
  induction hreached with
  | refl => exact ht
  | tail _ hstep ih => exact h.closed _ ih _ hstep

/-- All of the chain above a table is declared. -/
theorem declaredChain_eq (h : r.SelectsClosed tables) (ht : table ∈ tables) :
    r.declaredChain tables table = r.chain table := by
  refine List.takeWhile_eq_self_iff.mpr fun upper hupper => ?_
  exact decide_eq_true (h.mem_of_reaches ht (reaches_of_mem_chain hupper))

/-- What is inherited does not depend on what else is rendered. -/
theorem declaredCounterpart_eq (mode : RenderMode) (h : r.SelectsClosed tables)
    (ht : table ∈ tables) :
    r.declaredCounterpart (.ofTables mode tables) table =
      fun element => r.nearestAbove? table element.name := by
  funext element
  rw [Ambient.declaredCounterpart_eq mode h.toSelects, nearestDeclared?, h.declaredChain_eq ht,
    nearestAbove?]

/-- Nor does what is extended. -/
theorem superTarget_eq (h : r.SelectsClosed tables) (ht : table ∈ tables) (kind : NamespaceKind)
    (base : String) :
    r.superTarget tables kind table base =
      (r.superTable? table).elim (.platform base) (.declared kind) := by
  unfold superTarget
  cases hsuper : r.superTable? table with
  | none => rfl
  | some parent => rw [filter_some_of_mem (h.closed table ht parent hsuper)]; rfl

end SelectsClosed

end Repository

/-! ## Fields -/

/-- The field of `element` holds references to `target`. -/
structure Element.RefersTo (element : Element) (target : Table) : Prop where
  category : Scalar.category element.typeName = .reference
  reference : element.reference.map Text.trim = some target.name

/-- There is one table that an element refers to. -/
theorem Element.RefersTo.unique {tables : List Table} {element : Element} {target other : Table}
    (h : element.RefersTo target) (h' : element.RefersTo other) (hrows : OneRowEach tables)
    (ht : target ∈ tables) (ht' : other ∈ tables) : other = target := by
  have hname : some other.name = some target.name := h'.reference.symm.trans h.reference
  exact hrows ht' ht (Option.some.inj hname)

section Fields

variable {r : Repository} {tables : List Table} {element : Element} {target : Table} {group : Group}

theorem fieldTarget_of_refersTo (hs : r.Selects tables) (ht : target ∈ tables)
    (h : element.RefersTo target) :
    r.fieldTarget tables group element = .declared .elements target := by
  have hname := (present?_eq_some_iff (hs.name_ne_empty ht)).mpr h.reference
  unfold Repository.fieldTarget
  rw [if_pos h.category, hname, Option.bind_some, (Repository.among?_eq_some_iff hs).mpr ⟨ht, rfl⟩]

theorem fieldTarget_of_not_refersTo (hs : r.Selects tables)
    (h : ∀ target ∈ tables, ¬ element.RefersTo target) :
    r.fieldTarget tables group element =
      .platform (group.platformTypes.scalar (Scalar.category element.typeName)) := by
  unfold Repository.fieldTarget
  by_cases hcategory : Scalar.category element.typeName = .reference
  · rw [if_pos hcategory]
    cases hfound : (Text.present? element.reference).bind (r.among? tables) with
    | none => rfl
    | some target =>
      obtain ⟨name, hname, hamong⟩ := Option.bind_eq_some_iff.mp hfound
      obtain ⟨ht, rfl⟩ := (Repository.among?_eq_some_iff hs).mp hamong
      have hreference := (present?_eq_some_iff (hs.name_ne_empty ht)).mp hname
      exact absurd ⟨hcategory, hreference⟩ (h target ht)
  · rw [if_neg hcategory]

end Fields

/-! ## Two renderings of one table -/

/-- Two entries for one element of `table`: the first where `selected` is rendered, the second where
everything is. They are the same unless the element refers to a table that is not selected. -/
inductive MembersAlike (r : Repository) (mode : RenderMode) (selected : List Table)
    (table : Table) : Member → Member → Prop
  | comment (lines : List String) :
      MembersAlike r mode selected table (.comment lines) (.comment lines)
  | property {element : Element} (property : Property) : element ∈ r.elementsOf table.name →
      property.name = propertyName element.name →
      (∀ target ∈ r.allTables, element.RefersTo target → target ∈ selected) →
      MembersAlike r mode selected table (.property property) (.property property)
  | unselected {element : Element} {target : Table} (property : Property) :
      element ∈ r.elementsOf table.name → property.name = propertyName element.name →
      target ∈ r.allTables → element.RefersTo target → target ∉ selected →
      property.type = .named ((mode.groupOf table).platformTypes.scalar .reference) →
      MembersAlike r mode selected table (.property property)
        (.property { property with
          type := (Target.declared .elements target).reference mode (mode.groupOf table) .fields })

/-- What `document` declares for `table`, where `selected` is rendered, is what `complete` declares
for it, where everything is. -/
structure RendersAlike (r : Repository) (mode : RenderMode) (selected : List Table)
    (document complete : Document) (table : Table) : Prop where
  group : ∀ group, (∃ members, (group, members) ∈ partition mode selected ∧ table ∈ members) ↔
    ∃ members, (group, members) ∈ partition mode r.allTables ∧ table ∈ members
  records : ∃ written, Stands mode selected document .records table (.alias written) ∧
    Stands mode r.allTables complete .records table (.alias written)
  elements : ∃ written, Stands mode selected document .elements table (.alias written) ∧
    Stands mode r.allTables complete .elements table (.alias written)
  /-- The interfaces are the same but for the members, and these are alike in their order. -/
  fields : ∃ written written', Stands mode selected document .fields table (.interface written) ∧
    Stands mode r.allTables complete .fields table (.interface written') ∧
    written' = { written with members := written'.members } ∧
    List.Forall₂ (MembersAlike r mode selected table) written.members written'.members

section Alike

variable {r : Repository} {mode : RenderMode} {tables selected : List Table} {table : Table}
  {element : Element}

/-- Where a table stands depends on its group alone. -/
theorem mem_members_iff_groupOf {group : Group} (hrows : OneRowEach tables)
    (ht : table ∈ tables) :
    (∃ members, (group, members) ∈ partition mode tables ∧ table ∈ members) ↔
      mode.groupOf table = group := by
  constructor
  · rintro ⟨members, hpart, hmem⟩
    exact (mem_of_mem_members hpart hmem).2
  · rintro rfl
    exact exists_members mode hrows ht

/-- The record type depends on the super table alone. -/
theorem recordAlias_eq_of_closed (mode : RenderMode) (h : r.SelectsClosed tables)
    (h' : r.SelectsClosed selected) (ht : table ∈ tables) (ht' : table ∈ selected) :
    r.recordAlias ⟨mode.groupOf table, .ofTables mode tables⟩ table =
      r.recordAlias ⟨mode.groupOf table, .ofTables mode selected⟩ table := by
  unfold Repository.recordAlias Site.recordAlias Site.recordBase
  rw [Site.ownReference_eq h.toSelects ht, Site.ownReference_eq h'.toSelects ht',
    superReference_eq h.toSelects, superReference_eq h'.toSelects, h.superTarget_eq ht,
    h'.superTarget_eq ht']

/-- The element type refers to declarations of its own table only. -/
theorem elementAlias_eq_of_selects (mode : RenderMode) (hs : r.Selects tables)
    (hs' : r.Selects selected) (ht : table ∈ tables) (ht' : table ∈ selected) :
    Site.elementAlias ⟨mode.groupOf table, .ofTables mode tables⟩ table =
      Site.elementAlias ⟨mode.groupOf table, .ofTables mode selected⟩ table := by
  unfold Site.elementAlias
  rw [Site.ownReference_eq hs ht, Site.ownReference_eq hs ht, Site.ownReference_eq hs' ht',
    Site.ownReference_eq hs' ht']

/-- The header of the interface depends on the super table alone. -/
theorem interfaceOf_eq_of_closed (mode : RenderMode) (h : r.SelectsClosed tables)
    (h' : r.SelectsClosed selected) (ht : table ∈ tables) (ht' : table ∈ selected) :
    r.interfaceOf mode tables table =
      { r.interfaceOf mode selected table with
        members := (r.interfaceOf mode tables table).members } := by
  unfold Repository.interfaceOf Repository.fieldsInterface Site.fieldsInterface
  rw [fieldsBase_eq h.toSelects, fieldsBase_eq h'.toSelects, h.superTarget_eq ht,
    h'.superTarget_eq ht']

/-- What is rendered besides the tables above decides nothing but the type of a property. -/
theorem propertyOf_eq_of_closed (mode : RenderMode) (h : r.SelectsClosed tables)
    (ht : table ∈ tables) (element : Element) :
    r.propertyOf ⟨mode.groupOf table, .ofTables mode tables⟩ table element =
      { name := propertyName element.name
        type := (r.fieldTarget tables (mode.groupOf table) element).reference mode
          (mode.groupOf table) .fields
        doc := r.elementDoc element
        redeclared := (r.nearestAbove? table element.name).isSome } := by
  unfold Repository.propertyOf
  rw [fieldType_eq h.toSelects, h.declaredCounterpart_eq mode ht]

/-- The entries for one element are alike. -/
theorem membersAlike_propertyOf (h : r.SelectsClosed selected) (ht : table ∈ selected)
    (helement : element ∈ r.elementsOf table.name) :
    MembersAlike r mode selected table
      (.property (r.propertyOf ⟨mode.groupOf table, .ofTables mode selected⟩ table element))
      (.property
        (r.propertyOf ⟨mode.groupOf table, .ofTables mode r.allTables⟩ table element)) := by
  have hall := Repository.selectsClosed_allTables h.named
  rw [propertyOf_eq_of_closed mode h ht, propertyOf_eq_of_closed mode hall (h.known ht)]
  by_cases hrefers : ∃ target ∈ r.allTables, element.RefersTo target
  · obtain ⟨target, htarget, hrefers⟩ := hrefers
    have hunique : ∀ other ∈ r.allTables, element.RefersTo other → other = target := by
      intro other hother hrefers'
      exact hrefers.unique hrefers' hall.rows htarget hother
    rw [fieldTarget_of_refersTo hall.toSelects htarget hrefers]
    by_cases hselected : target ∈ selected
    · rw [fieldTarget_of_refersTo h.toSelects hselected hrefers]
      refine .property _ helement rfl fun other hother hrefers' => ?_
      rw [hunique other hother hrefers']
      exact hselected
    · -- of the selected tables there is none that the element refers to
      have hnone : ∀ other ∈ selected, ¬ element.RefersTo other := by
        intro other hother hrefers'
        exact hselected (hunique other (h.known hother) hrefers' ▸ hother)
      rw [fieldTarget_of_not_refersTo h.toSelects hnone, hrefers.category]
      exact .unselected _ helement rfl htarget hrefers hselected rfl
  · have hnone : ∀ target ∈ r.allTables, ¬ element.RefersTo target :=
      fun target htarget hrefers' => hrefers ⟨target, htarget, hrefers'⟩
    rw [fieldTarget_of_not_refersTo hall.toSelects hnone,
      fieldTarget_of_not_refersTo h.toSelects fun target htarget => hnone target (h.known htarget)]
    refine .property _ helement rfl fun target htarget hrefers' => ?_
    exact absurd hrefers' (hnone target htarget)

/-- The members of the two interfaces are alike, in their order. -/
theorem forall₂_membersAlike (h : r.SelectsClosed selected) (ht : table ∈ selected) :
    List.Forall₂ (MembersAlike r mode selected table)
      (r.interfaceOf mode selected table).members
      (r.interfaceOf mode r.allTables table).members := by
  have hall := Repository.selectsClosed_allTables h.named
  have hcounterpart := (hall.declaredCounterpart_eq mode (h.known ht)).trans
    (h.declaredCounterpart_eq mode ht).symm
  rw [Repository.interfaceOf, Repository.interfaceOf, Repository.members_fieldsInterface,
    Repository.members_fieldsInterface]
  simp only [Repository.commentedElements, Repository.writtenElements, hcounterpart]
  refine List.rel_append ?_ ?_
  · rw [List.forall₂_map_left_iff, List.forall₂_map_right_iff, List.forall₂_same]
    intro element _
    exact .comment _
  · rw [List.forall₂_map_left_iff, List.forall₂_map_right_iff, List.forall₂_same]
    intro element helement
    exact membersAlike_propertyOf h ht (List.mem_filter.mp helement).1

end Alike

/-- **A selection is rendered as if everything were**, but for the types of fields that refer to
tables outside the selection. -/
theorem rendersAlike_of_selected {snapshot : Snapshot} (hvalid : snapshot.violation? = none)
    (mode : RenderMode) {names : List String}
    (hknown : ∀ name ∈ names, (snapshot.repository.table? name).isSome) :
    let r := snapshot.repository
    ∃ selected, (selectTables names { repository := r } {}).1 = .ok selected ∧
      ∀ table ∈ selected, RendersAlike r mode selected
        (render mode selected { repository := r } {}).document
        (render mode r.allTables { repository := r } {}).document table := by
  intro r
  obtain ⟨selected, hok, h⟩ := Repository.exists_selectsClosed (Snapshot.wellNamed hvalid) hknown
  have hall := Repository.selectsClosed_allTables h.named
  refine ⟨selected, hok, fun table ht => ?_⟩
  rw [document_render, document_render]
  have ht' := h.known ht
  have hstands : ∀ {kind item}, Stands mode selected (r.document mode selected) kind table item ↔
      item = r.declaration ⟨mode.groupOf table, .ofTables mode selected⟩ kind table :=
    stands_iff h.rows ht
  have hstands' : ∀ {kind item}, Stands mode r.allTables (r.document mode r.allTables) kind table
      item ↔ item = r.declaration ⟨mode.groupOf table, .ofTables mode r.allTables⟩ kind table :=
    stands_iff hall.rows ht'
  constructor
  case group =>
    intro group
    rw [mem_members_iff_groupOf h.rows ht, mem_members_iff_groupOf hall.rows ht']
  case records =>
    refine ⟨_, hstands.mpr rfl, hstands'.mpr ?_⟩
    exact congrArg _ (recordAlias_eq_of_closed mode h hall ht ht')
  case elements =>
    refine ⟨_, hstands.mpr rfl, hstands'.mpr ?_⟩
    exact congrArg _ (elementAlias_eq_of_selects mode h.toSelects hall.toSelects ht ht')
  case fields =>
    refine ⟨_, _, (stands_interface_iff mode h.toSelects ht).mpr rfl,
      (stands_interface_iff mode hall.toSelects ht').mpr rfl, ?_, forall₂_membersAlike h ht⟩
    exact interfaceOf_eq_of_closed mode hall h ht' ht

/-- Two tables that extend each other. Of their fields one refers to one of the two, and one to a
table beside them. -/
def Snapshot.caller : Snapshot where
  tables := .ofList
    [("call",
      { attributes := { superName := some "task" }
        elements := .ofList
          [("caller", { typeName := "reference", reference := some " user " }),
           ("number", { typeName := "string", label := "Call" }),
           ("parent", { typeName := "reference", reference := some "task" })] }),
     ("task",
      { attributes := { superName := some "call", scope := some "x_app" }
        elements := .ofList [("number", { typeName := "string" })] }),
     ("user", {})]

theorem rendersAlike_of_selected_caller :
    let r := Snapshot.caller.repository
    (Snapshot.caller.violation? = none ∧ ∀ name ∈ ["call"], (r.table? name).isSome) ∧
      ∃ selected, (selectTables ["call"] { repository := r } {}).1 = .ok selected ∧
        ∀ table ∈ selected, RendersAlike r .scoped selected
          (render .scoped selected { repository := r } {}).document
          (render .scoped r.allTables { repository := r } {}).document table := by
  intro r
  have hvalid : Snapshot.caller.violation? = none := by decide +kernel
  have hknown : ∀ name ∈ ["call"], (r.table? name).isSome := by decide +kernel
  exact ⟨⟨hvalid, hknown⟩, rendersAlike_of_selected hvalid .scoped hknown⟩

end Ambient
