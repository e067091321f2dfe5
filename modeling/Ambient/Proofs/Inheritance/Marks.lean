import Ambient.Proofs.Inheritance.Walk

/-!
# Comments and marks

An interface begins with comments, on elements that differ from inherited ones in their
documentation only, and goes on with properties, those that replace an inherited one
marked as redeclared. Both come in element order.

Whether an element replaces another one is told from the elements of the tables above,
not from what the interfaces above hold, and an interface above may have left its
property to one further up. The two come to the same (`isSome_declaredCounterpart_iff`):
the walk up from the super table ends at a property wherever a table above owns an
element of the name, and a property above was written for such an element.

What is above an interface is what its `extends` clause refers to in the document. That is
the super table's interface, or no interface at all, where the way is clear; a table that
is called like a type of the platform may stand there instead (`not_tellsAdded_baseNamed`).
-/

namespace Ambient

open Relation (ReflTransGen TransGen)
open TypeScript (Document Item Member Property propertyName)

/-! ## Members -/

/-- Keeping some of what is made of the items is making it of some of the items. -/
theorem filter_filterMap_eq {α β : Type} {f : α → Option β} {p : β → Bool} {q : α → Bool}
    {h : α → β} (heq : ∀ a, (f a).filter p = if q a then some (h a) else none) (items : List α) :
    (items.filterMap f).filter p = (items.filter q).map h := by
  have hmap : ∀ a, ((f a).filter p).map id = if q a then some (h a) else none := by
    intro a
    rw [Option.map_id, id, heq]
  rw [List.filter_filterMap, ← filterMap_eq_map_filter hmap, List.map_id]

namespace Repository

variable {r : Repository} {site : Site} {table : Table} {element : Element}

/-- The elements of `table` whose comment stands for itself in the interface. -/
def commentedElements (r : Repository) (index : TableIndex) (table : Table) : List Element :=
  (r.elementsOf table.name).filter fun element =>
    element.disposition (r.declaredCounterpart index table element) = .redocumented

/-- The property that the interface of `table` has for an element, if it has one. -/
def propertyOf (r : Repository) (site : Site) (table : Table) (element : Element) : Property where
  name := propertyName element.name
  type := site.fieldType element
  doc := r.elementDoc element
  redeclared := (r.declaredCounterpart site.index table element).isSome

theorem mem_writtenElements_iff {index : TableIndex} :
    element ∈ r.writtenElements index table ↔
      element ∈ r.elementsOf table.name ∧ r.Written index table element := by
  unfold writtenElements Written
  rw [List.mem_filter]
  cases r.declaredCounterpart index table element with
  | none => simp
  | some other => simp [← Element.sameShape_iff]

/-- An element has at most one entry. -/
theorem not_mem_writtenElements {index : TableIndex}
    (h : element ∈ r.commentedElements index table) : element ∉ r.writtenElements index table := by
  have hcommented := of_decide_eq_true (List.mem_filter.mp h).2
  intro hwritten
  have hdisposition := disposition_written_iff.mpr (mem_writtenElements_iff.mp hwritten).2
  rw [hcommented] at hdisposition
  rcases hdisposition with h | h
  · exact nomatch h
  · exact nomatch h

/-- The entry for an element is a comment if just its documentation differs. -/
theorem filter_isComment_member? (site : Site) (element : Element) (disposition : Disposition)
    (doc : List String) :
    (site.member? element disposition doc).filter Member.isComment =
      if disposition = .redocumented then some (.comment doc) else none := by
  cases disposition <;> rfl

/-- The entry for an element is a property unless an inherited one has its shape. -/
theorem filter_property_member? (r : Repository) (site : Site) (table : Table)
    (element : Element) :
    let counterpart := r.declaredCounterpart site.index table element
    (site.member? element (element.disposition counterpart) (r.elementDoc element)).filter
        (! ·.isComment) =
      if ! counterpart.any element.sameShape then some (.property (r.propertyOf site table element))
      else none := by
  unfold propertyOf
  cases hcounterpart : r.declaredCounterpart site.index table element with
  | none => rfl
  | some other =>
    cases hshape : element.sameShape other with
    | false => simp [Element.disposition, Site.member?, Member.isComment, hshape]
    | true =>
      -- the documentation decides between a comment and nothing
      cases hdoc : element.sameDocumentation other with
      | false => simp [Element.disposition, Site.member?, Member.isComment, hshape, hdoc]
      | true => simp [Element.disposition, Site.member?, hshape, hdoc]

/-- **The members of an interface**: the comments, then the properties, both in element order. -/
theorem members_fieldsInterface (r : Repository) (site : Site) (table : Table) :
    (r.fieldsInterface site table).members =
      (r.commentedElements site.index table).map (fun element => .comment (r.elementDoc element)) ++
        (r.writtenElements site.index table).map
          (fun element => .property (r.propertyOf site table element)) := by
  show (r.members site table).filter _ ++ (r.members site table).filter _ = _
  have hmembers : r.members site table = (r.elementsOf table.name).filterMap fun element =>
      site.member? element (element.disposition (r.declaredCounterpart site.index table element))
        (r.elementDoc element) := by
    show List.filterMap _ (List.map _ (r.elementsOf table.name)) = _
    rw [List.filterMap_map]
    rfl
  rw [hmembers]
  congr 1
  · refine filter_filterMap_eq (fun element => ?_) _
    rw [filter_isComment_member?]
    exact if_congr decide_eq_true_iff.symm rfl rfl
  · exact filter_filterMap_eq (r.filter_property_member? site table) _

end Repository

/-! ## Interfaces above -/

/-- An interface strictly above the lower one has a property called `name`. -/
def InheritsProperty (document : Document) (name : String) (lower : Placed) : Prop :=
  ∃ upper, TransGen (Extends document) lower upper ∧
    ∃ property ∈ upper.interface.properties, property.name = name

/-- Each `extends` clause from `table` up finds its way clear, whether it is for the interface of a
super table or for the base type of the platform. -/
def Repository.ClearUp (r : Repository) (mode : RenderMode) (tables : List Table)
    (table : Table) : Prop :=
  ∀ lower ∈ table :: r.declaredChain tables table,
    Clear mode tables (mode.groupOf lower) .fields
      (r.superTarget tables .fields lower (mode.groupOf lower).platformTypes.fields)

instance (r : Repository) (mode : RenderMode) (tables : List Table) (table : Table) :
    Decidable (r.ClearUp mode tables table) :=
  inferInstanceAs (Decidable (∀ lower ∈ _, _))

section Above

variable {r : Repository} {mode : RenderMode} {tables : List Table} {document : Document}
  {table parent : Table} {lower upper owner : Placed} {element : Element} {name : String}
  {property : Property}

/-- Where a walk up ends, an interface has a property, the lower one or one above it. -/
theorem NearestProperty.declares (h : NearestProperty document name lower owner property) :
    ReflTransGen (Extends document) lower owner ∧
      property ∈ owner.interface.properties ∧ property.name = name := by
  induction h with
  | here hproperty hname => exact ⟨.refl, hproperty, hname⟩
  | above _ hextends _ ih => exact ⟨.head hextends ih.1, ih.2⟩

theorem Repository.ClearUp.above (hclear : r.ClearUp mode tables table)
    (hchain : r.declaredChain tables table = parent :: r.declaredChain tables parent) :
    r.ClearUp mode tables parent := by
  intro lower hlower
  rw [← hchain] at hlower
  exact hclear lower (List.mem_cons_of_mem _ hlower)

/-- The way to the super table is among those that are clear. -/
theorem Repository.ClearUp.of_super (hclear : r.ClearUp mode tables table) (hin : parent ∈ tables)
    (h : r.superTable? table = some parent) :
    Clear mode tables (mode.groupOf table) .fields (.declared .fields parent) := by
  have hway := hclear table List.mem_cons_self
  rw [superTarget_of_super hin h] at hway
  exact hway

theorem Repository.ClearUp.clearChain (hs : r.Selects tables) (hacyclic : r.Acyclic)
    (ht : table ∈ tables) (hclear : r.ClearUp mode tables table) :
    r.ClearChain mode tables table := by
  -- on the declared chain, one clause for each of its tables
  induction hupward : r.declaredChain tables table generalizing table with
  | nil =>
    rw [Repository.ClearChain, hupward]
    exact .singleton _
  | cons parent rest ih =>
    obtain ⟨hin, hsuper⟩ := super_of_declaredChain_cons hacyclic (hs.known ht) hupward
    have hchain := declaredChain_of_super hacyclic (hs.known ht) hin hsuper
    rw [Repository.ClearChain, hchain]
    have hrest := (List.cons.inj (hchain.symm.trans hupward)).2
    exact List.isChain_cons_cons.mpr
      ⟨hclear.of_super hin hsuper, ih hin (hclear.above hchain) hrest⟩

/-- **One step up.** Where the ways are clear, an `extends` clause leads to the super table, or
nowhere. -/
theorem exists_super_of_extends (hs : r.Selects tables) (hacyclic : r.Acyclic)
    (ht : table ∈ tables) (hclear : r.ClearUp mode tables table)
    (h : Extends (r.document mode tables) (r.placed mode tables table) upper) :
    ∃ parent ∈ tables, upper = r.placed mode tables parent ∧
      r.declaredChain tables table = parent :: r.declaredChain tables parent := by
  obtain ⟨reference, hbase, hrefers⟩ := h
  obtain rfl := Option.some.inj ((base_fieldsInterface hs).symm.trans hbase)
  obtain ⟨parent, hsuper, hplace, hitem⟩ := (refersTo_superTarget_iff hs ht
    (PlatformTypes.fields_mem_names _) (hclear table List.mem_cons_self)).mp hrefers
  obtain ⟨hup, hin⟩ := Option.filter_eq_some_iff.mp hsuper
  exact ⟨parent, of_decide_eq_true hin, Placed.ext hplace (Item.interface.inj hitem),
    declaredChain_of_super hacyclic (hs.known ht) (of_decide_eq_true hin) hup⟩

/-- What is above along the `extends` clauses is of tables on the declared beginning of the
chain. -/
theorem exists_mem_declaredChain_of_above (hs : r.Selects tables) (hacyclic : r.Acyclic)
    (ht : table ∈ tables) (hclear : r.ClearUp mode tables table)
    (h : TransGen (Extends (r.document mode tables)) (r.placed mode tables table) upper) :
    ∃ super ∈ r.declaredChain tables table, upper = r.placed mode tables super := by
  -- one `extends` clause after the other, as the chain of the lower table begins with the upper one
  generalize hlower : r.placed mode tables table = lower at h
  induction h using TransGen.head_induction_on generalizing table with
  | single hstep =>
    subst hlower
    obtain ⟨parent, -, hupper, hchain⟩ := exists_super_of_extends hs hacyclic ht hclear hstep
    exact ⟨parent, hchain ▸ List.mem_cons_self, hupper⟩
  | head hstep _ ih =>
    subst hlower
    obtain ⟨parent, hin, hupper, hchain⟩ := exists_super_of_extends hs hacyclic ht hclear hstep
    obtain ⟨super, hsuper, heq⟩ := ih hin (hclear.above hchain) hupper.symm
    exact ⟨super, hchain ▸ List.mem_cons_of_mem _ hsuper, heq⟩

/-- An interface above has a property of the name of every inherited element. -/
theorem inheritsProperty_of_counterpart (hs : r.Selects tables) (hacyclic : r.Acyclic)
    (ht : table ∈ tables) (hclear : r.ClearUp mode tables table) {counterpart : Element}
    (h : r.declaredCounterpart (.ofTables mode tables) table element = some counterpart) :
    InheritsProperty (r.document mode tables) (propertyName element.name)
      (r.placed mode tables table) := by
  obtain ⟨hnearest, hancestor⟩ := Option.filter_eq_some_iff.mp h
  obtain ⟨parent, hin, hsuper, hdeclared⟩ :=
    exists_super_of_mem hs hacyclic ht (List.contains_iff_mem.mp hancestor)
  have habove : r.nearest? parent element.name = some counterpart :=
    (Repository.nearestAbove?_of_super hacyclic (hs.known ht) hsuper _).symm.trans hnearest
  have hchain := declaredChain_of_super hacyclic (hs.known ht) hin hsuper
  -- the walk from the super table ends, wherever its interface left the property to one above
  obtain ⟨⟨owner, property, hwalk⟩, -⟩ := finds_of_declared mode hs hacyclic hin
    ((hclear.above hchain).clearChain hs hacyclic hin) habove hdeclared
  obtain ⟨hreached, hproperty, hname⟩ := hwalk.declares
  have hstep := extends_of_clear hs ht hin hsuper (hclear.of_super hin hsuper)
  exact ⟨owner, .head' hstep hreached, property, hproperty, hname⟩

/-- A property above was written for an element of its name, so one is inherited. -/
theorem counterpart_of_inheritsProperty (hs : r.Selects tables) (hacyclic : r.Acyclic)
    (ht : table ∈ tables) (hclear : r.ClearUp mode tables table)
    (helement : element ∈ r.elementsOf table.name)
    (h : InheritsProperty (r.document mode tables) (propertyName element.name)
      (r.placed mode tables table)) :
    r.declaredCounterpart (.ofTables mode tables) table element ≠ none := by
  obtain ⟨upper, habove, property, hproperty, hname⟩ := h
  obtain ⟨super, hsuper, rfl⟩ := exists_mem_declaredChain_of_above hs hacyclic ht hclear habove
  obtain ⟨source, hsource, -, hsname, -⟩ := written_of_mem_properties hproperty
  have hsame := propertyName_inj hs hsource helement (hsname.symm.trans hname)
  rw [declaredCounterpart_eq mode hs]
  intro hnone
  exact nearest?_eq_none_iff.mp hnone super hsuper source hsource hsame

/-- **An element is inherited exactly if an interface above has a property of its name.** -/
theorem isSome_declaredCounterpart_iff (hs : r.Selects tables) (hacyclic : r.Acyclic)
    (ht : table ∈ tables) (hclear : r.ClearUp mode tables table)
    (helement : element ∈ r.elementsOf table.name) :
    (r.declaredCounterpart (.ofTables mode tables) table element).isSome = true ↔
      InheritsProperty (r.document mode tables) (propertyName element.name)
        (r.placed mode tables table) := by
  rw [Option.isSome_iff_ne_none]
  constructor
  · intro h
    obtain ⟨counterpart, hcounterpart⟩ := Option.ne_none_iff_exists'.mp h
    exact inheritsProperty_of_counterpart hs hacyclic ht hclear hcounterpart
  · exact counterpart_of_inheritsProperty hs hacyclic ht hclear helement

end Above

/-! ## What an interface adds -/

/-- The members of an interface are made of elements of its table: some have a comment that stands
for itself, some have a property, and the others nothing. -/
structure TellsElements (r : Repository) (table : Table) (placed : Placed)
    (commented written : List Element) (property : Element → Property) : Prop where
  /-- The comments come before the properties. -/
  members_eq : placed.interface.members =
    commented.map (fun element => .comment (r.elementDoc element)) ++
      written.map (fun element => .property (property element))
  commented_sorted : commented.Pairwise fun a b => a.name < b.name
  written_sorted : written.Pairwise fun a b => a.name < b.name
  owned : ∀ element ∈ commented ++ written, element ∈ r.elementsOf table.name
  once : ∀ element ∈ commented, element ∉ written
  name_eq : ∀ element ∈ written, (property element).name = propertyName element.name

/-- Together with the marks they tell what the interface adds to those above it. -/
structure TellsAdded (r : Repository) (document : Document) (table : Table) (placed : Placed)
    (commented written : List Element) (property : Element → Property) : Prop
    extends TellsElements r table placed commented written property where
  /-- A property is marked exactly if it replaces one above. -/
  redeclared_iff : ∀ element ∈ written, (property element).redeclared = true ↔
    InheritsProperty document (propertyName element.name) placed
  /-- What has no property of its own has one above. -/
  inherits : ∀ element ∈ r.elementsOf table.name, element ∉ written →
    InheritsProperty document (propertyName element.name) placed

/-- Whatever property there is, its mark tells whether there is one above. -/
theorem TellsAdded.redeclared_iff_of_mem {r : Repository} {document : Document} {table : Table}
    {placed : Placed} {commented written : List Element} {property : Element → Property}
    (h : TellsAdded r document table placed commented written property) {found : Property}
    (hfound : found ∈ placed.interface.properties) :
    found.redeclared = true ↔ InheritsProperty document found.name placed := by
  obtain ⟨member, hmember, hproperty⟩ := List.mem_filterMap.mp hfound
  rw [h.members_eq] at hmember
  rcases List.mem_append.mp hmember with hmember | hmember
  · obtain ⟨element, -, rfl⟩ := List.mem_map.mp hmember
    exact nomatch hproperty
  · obtain ⟨element, helement, rfl⟩ := List.mem_map.mp hmember
    obtain rfl := Option.some.inj hproperty
    rw [h.name_eq element helement]
    exact h.redeclared_iff element helement

theorem tellsElements_placed (r : Repository) (mode : RenderMode) (tables : List Table)
    (table : Table) :
    let site : Site := ⟨mode.groupOf table, .ofTables mode tables⟩
    TellsElements r table (r.placed mode tables table) (r.commentedElements site.index table)
      (r.writtenElements site.index table) (r.propertyOf site table) where
  members_eq := r.members_fieldsInterface _ table
  commented_sorted := (r.pairwise_elementsOf table.name).filter _
  written_sorted := (r.pairwise_elementsOf table.name).filter _
  owned element helement := by
    rcases List.mem_append.mp helement with h | h
    · exact (List.mem_filter.mp h).1
    · exact (List.mem_filter.mp h).1
  once _ hcommented := Repository.not_mem_writtenElements hcommented
  name_eq _ _ := rfl

/-- **Comments and marks tell exactly what an interface adds to those above it**, where the
`extends` clauses find their way clear. -/
theorem tellsAdded_of_acyclic {snapshot : Snapshot} (hvalid : snapshot.violation? = none)
    (hacyclic : snapshot.repository.Acyclic) (mode : RenderMode) {tables : List Table}
    (htables : ∀ table ∈ tables, table ∈ snapshot.repository.allTables) {table : Table}
    (ht : table ∈ tables) :
    let r := snapshot.repository
    let complete := (render mode tables { repository := r } {}).document
    ∃ placed commented written property, StandsAt mode tables complete table placed ∧
      TellsElements r table placed commented written property ∧
      (r.ClearUp mode tables table →
        TellsAdded r complete table placed commented written property) := by
  intro r complete
  have hs := Snapshot.selects hvalid htables
  have hcomplete : complete = r.document mode tables := document_render r mode tables
  let site : Site := ⟨mode.groupOf table, .ofTables mode tables⟩
  have htells := tellsElements_placed r mode tables table
  refine ⟨r.placed mode tables table, r.commentedElements site.index table,
    r.writtenElements site.index table, r.propertyOf site table,
    hcomplete ▸ (standsAt_iff mode hs ht).mpr rfl, htells, fun hclear => ?_⟩
  have hinherits : ∀ element ∈ r.elementsOf table.name,
      ((r.declaredCounterpart site.index table element).isSome = true ↔
        InheritsProperty complete (propertyName element.name) (r.placed mode tables table)) := by
    intro element helement
    rw [hcomplete]
    exact isSome_declaredCounterpart_iff hs hacyclic ht hclear helement
  refine { htells with redeclared_iff := ?redeclared_iff, inherits := ?inherits }
  case redeclared_iff =>
    intro element hwritten
    exact hinherits element (List.mem_filter.mp hwritten).1
  case inherits =>
    intro element helement hnot
    refine (hinherits element helement).mp ?_
    -- an element with nothing to inherit would have been written
    by_contra hnone
    refine hnot (Repository.mem_writtenElements_iff.mpr ⟨helement, fun other hother => ?_⟩)
    rw [hother] at hnone
    exact absurd rfl hnone

/-- Three tables in a chain. The lowest one has a field of its own, one in another shape, one with
another comment, and one as it is further up. -/
def Snapshot.incidentFamily : Snapshot where
  tables := .ofList
    [("base",
      { elements := .ofList
          [("number", { typeName := "string" }), ("opened", { typeName := "date" }),
           ("state", { typeName := "integer" })] }),
     ("incident",
      { attributes := { superName := some "task", scope := some "x_app" }
        elements := .ofList
          [("number", { typeName := "string", label := "Incident" }),
           ("opened", { typeName := "date" }),
           ("severity", { typeName := "integer" }), ("state", { typeName := "integer" })] }),
     ("task",
      { attributes := { superName := some "base" }
        elements := .ofList
          [("number", { typeName := "string" }), ("state", { typeName := "string" })] })]

theorem tellsAdded_of_acyclic_incidentFamily :
    let r := Snapshot.incidentFamily.repository
    let complete := (render .scoped r.allTables { repository := r } {}).document
    let incident : Table := { name := "incident", superName := some "task", scope := some "x_app" }
    (Snapshot.incidentFamily.violation? = none ∧ r.Acyclic ∧ incident ∈ r.allTables ∧
        r.ClearUp .scoped r.allTables incident) ∧
      ∃ placed commented written property,
        StandsAt .scoped r.allTables complete incident placed ∧
          TellsAdded r complete incident placed commented written property := by
  intro r complete incident
  have hvalid : Snapshot.incidentFamily.violation? = none := by decide +kernel
  have hacyclic : r.Acyclic := by
    refine Repository.acyclic_of_rank
      (fun name => if name = "incident" then 2 else if name = "task" then 1 else 0) ?_
    decide +kernel
  have hincident : incident ∈ r.allTables := by decide +kernel
  have hclear : r.ClearUp .scoped r.allTables incident := by decide +kernel
  obtain ⟨placed, commented, written, property, hstands, -, htells⟩ :=
    tellsAdded_of_acyclic hvalid hacyclic .scoped (fun _ ht => ht) hincident
  exact ⟨⟨hvalid, hacyclic, hincident, hclear⟩, placed, commented, written, property, hstands,
    htells hclear⟩

/-- A table that is called like the base type of the platform for fields, and another one without a
super table, with the same field. -/
def Snapshot.baseNamed : Snapshot where
  tables := .ofList
    [("IGlideTableProperties", { elements := .ofList [("a", { typeName := "string" })] }),
     ("task", { elements := .ofList [("a", { typeName := "string" })] })]

/-- The interface of the other table extends that of the first one, and its property is not
marked. -/
theorem not_tellsAdded_baseNamed :
    let r := Snapshot.baseNamed.repository
    let complete := (render .scoped r.allTables { repository := r } {}).document
    let task : Table := { name := "task" }
    (Snapshot.baseNamed.violation? = none ∧ r.Acyclic ∧ task ∈ r.allTables) ∧
      ∃ placed, StandsAt .scoped r.allTables complete task placed ∧
        (∃ property ∈ placed.interface.properties,
          property.name = "a" ∧ property.redeclared = false) ∧
        InheritsProperty complete "a" placed ∧
        ∀ commented written property,
          ¬ TellsAdded r complete task placed commented written property := by
  intro r complete task
  have hvalid : Snapshot.baseNamed.violation? = none := by decide +kernel
  have hacyclic : r.Acyclic := Repository.acyclic_of_rank (fun _ => 0) (by decide +kernel)
  have hs : r.Selects r.allTables := Snapshot.selects hvalid fun _ ht => ht
  have htask : task ∈ r.allTables := by decide +kernel
  let called : Table := { name := "IGlideTableProperties" }
  have hcalled : called ∈ r.allTables := by decide +kernel
  have hcomplete : complete = r.document .scoped r.allTables := document_render r .scoped _
  -- the name of the base type is that of an interface in the same namespace
  have hextends : Extends complete (r.placed .scoped r.allTables task)
      (r.placed .scoped r.allTables called) := by
    have hway : Clear .scoped r.allTables .global .fields (.declared .fields called) := by
      decide +kernel
    rw [hcomplete]
    exact ⟨⟨["IGlideTableProperties"]⟩, by decide +kernel,
      refersTo_of_clear hs (rendered_groupOf htask) hcalled hway⟩
  have hinherits : InheritsProperty complete "a" (r.placed .scoped r.allTables task) :=
    ⟨_, .single hextends, by decide +kernel⟩
  obtain ⟨found, hfound, hname, hmark⟩ : ∃ property ∈
      (r.placed .scoped r.allTables task).interface.properties,
      property.name = "a" ∧ property.redeclared = false := by decide +kernel
  refine ⟨⟨hvalid, hacyclic, htask⟩, _, hcomplete ▸ (standsAt_iff .scoped hs htask).mpr rfl,
    ⟨found, hfound, hname, hmark⟩, hinherits, fun _ _ _ h => ?_⟩
  have hredeclared := (h.redeclared_iff_of_mem hfound).mpr (hname ▸ hinherits)
  rw [hmark] at hredeclared
  exact nomatch hredeclared

end Ambient
