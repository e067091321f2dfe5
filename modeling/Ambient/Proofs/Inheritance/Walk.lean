import Ambient.Proofs.Inheritance.Declared
import Ambient.Proofs.TypeScript.Names

/-!
# Inherited fields

A table's interface leaves out the fields it has in common with its super tables, so
a field is found by going up: from the interface of the table to the one that its
`extends` clause refers to, and on from there, up to the first one with a property for
the field.

The walk is one on the document. It goes where the clauses lead as names are looked up,
and that is to the super tables where the way to each of them is clear. A clause that
something stands in the way of leads nowhere, or elsewhere, and then a field may be lost
(`not_nearestProperty_recordScope`).

Whether a property is written is decided by comparing an element with the nearest
one of its name further up, which may have been left out itself. The walk therefore
carries along the element that is looked for: `finds_of_declared` says of every
table on the way that its nearest element of the name has the shape looked for, and
is declared further up.
-/

namespace Ambient

open TypeScript (Document Interface Item Property RefersTo propertyName)

/-! ## Walking up -/

/-- An interface and the place where it stands. -/
@[ext]
structure Placed where
  place : List String
  interface : Interface

section Walk

variable (document : Document)

/-- The `extends` clause of the lower interface refers to the upper one. -/
def Extends (lower upper : Placed) : Prop :=
  ∃ reference, lower.interface.base = some reference ∧
    RefersTo document lower.place reference upper.place (.interface upper.interface)

/-- Walking up from an interface, the first property called `name` is `property`, in `owner`. -/
inductive NearestProperty (name : String) : (lower owner : Placed) → Property → Prop
  | here {lower : Placed} {property : Property} :
      property ∈ lower.interface.properties → property.name = name →
      NearestProperty name lower lower property
  | above {lower upper owner : Placed} {property : Property} :
      (∀ p ∈ lower.interface.properties, p.name ≠ name) → Extends document lower upper →
      NearestProperty name upper owner property → NearestProperty name lower owner property

variable {document}

theorem Extends.unique {lower upper upper' : Placed} (h : Extends document lower upper)
    (h' : Extends document lower upper') : upper = upper' := by
  obtain ⟨reference, hbase, hrefers⟩ := h
  obtain ⟨reference', hbase', hrefers'⟩ := h'
  obtain rfl := Option.some.inj (hbase.symm.trans hbase')
  obtain ⟨hplace, hitem⟩ := hrefers.unique hrefers'
  exact Placed.ext hplace (Item.interface.inj hitem)

end Walk

/-- What stands for `table` in the namespace of its group for fields. -/
def StandsAt (mode : RenderMode) (tables : List Table) (document : Document) (table : Table)
    (placed : Placed) : Prop :=
  placed.place = (mode.groupOf table).place .fields ∧
    Stands mode tables document .fields table (.interface placed.interface)

/-- Each `extends` clause from `table` up that is for the interface of a super table finds its way
clear. -/
def Repository.ClearChain (r : Repository) (mode : RenderMode) (tables : List Table)
    (table : Table) : Prop :=
  (table :: r.declaredChain tables table).IsChain fun lower upper =>
    Clear mode tables (mode.groupOf lower) .fields (.declared .fields upper)

instance (r : Repository) (mode : RenderMode) (tables : List Table) (table : Table) :
    Decidable (r.ClearChain mode tables table) :=
  inferInstanceAs (Decidable (List.IsChain _ _))

/-! ## One step up -/

section Step

variable {r : Repository} {mode : RenderMode} {tables : List Table} {table parent : Table}
  {interface : Interface} {element above : Element} {name : String}

/-- The interface of a table that is rendered. -/
def Repository.interfaceOf (r : Repository) (mode : RenderMode) (tables : List Table)
    (table : Table) : Interface :=
  r.fieldsInterface ⟨mode.groupOf table, .ofTables mode tables⟩ table

theorem stands_interface_iff (mode : RenderMode) (hs : r.Selects tables) (ht : table ∈ tables) :
    Stands mode tables (r.document mode tables) .fields table (.interface interface) ↔
      interface = r.interfaceOf mode tables table := by
  rw [stands_iff hs.rows ht]
  exact Item.interface.injEq interface (r.interfaceOf mode tables table) ▸ Iff.rfl

/-- What is declared for a table that is rendered, with its place. -/
def Repository.placed (r : Repository) (mode : RenderMode) (tables : List Table) (table : Table) :
    Placed where
  place := (mode.groupOf table).place .fields
  interface := r.interfaceOf mode tables table

theorem standsAt_iff (mode : RenderMode) (hs : r.Selects tables) (ht : table ∈ tables)
    {placed : Placed} :
    StandsAt mode tables (r.document mode tables) table placed ↔
      placed = r.placed mode tables table := by
  obtain ⟨place, interface⟩ := placed
  rw [StandsAt, stands_interface_iff mode hs ht, Repository.placed, Placed.mk.injEq]

/-- Without a cycle, the declared beginning of a chain is the super table and the declared beginning
of the chain above it. -/
theorem declaredChain_of_super (hacyclic : r.Acyclic) (ht : table ∈ r.allTables)
    (hin : parent ∈ tables) (h : r.superTable? table = some parent) :
    r.declaredChain tables table = parent :: r.declaredChain tables parent := by
  rw [Repository.declaredChain, Repository.chain_of_super hacyclic ht h, takeWhile_cons_of_mem hin]
  rfl

/-- What comes first on the declared beginning of a chain is the super table. -/
theorem super_of_declaredChain_cons (hacyclic : r.Acyclic) (ht : table ∈ r.allTables)
    {rest : List Table} (h : r.declaredChain tables table = parent :: rest) :
    parent ∈ tables ∧ r.superTable? table = some parent := by
  cases hsuper : r.superTable? table with
  | none =>
    rw [Repository.declaredChain, Repository.chain, hsuper] at h
    exact absurd h.symm (List.cons_ne_nil _ _)
  | some other =>
    by_cases hin : other ∈ tables
    · rw [declaredChain_of_super hacyclic ht hin hsuper] at h
      have hfirst := (List.cons.inj h).1
      exact ⟨hfirst ▸ hin, congrArg some hfirst⟩
    · rw [Repository.declaredChain, Repository.chain_of_super hacyclic ht hsuper,
        List.takeWhile_cons_of_neg (by simpa using hin)] at h
      exact absurd h.symm (List.cons_ne_nil _ _)

theorem superTarget_of_super (hin : parent ∈ tables) (h : r.superTable? table = some parent)
    (kind : NamespaceKind) (base : String) :
    r.superTarget tables kind table base = .declared kind parent := by
  rw [Repository.superTarget, h, filter_some_of_mem hin]

/-- Where the way is clear, the clause refers to the interface of the super table. -/
theorem extends_of_clear (hs : r.Selects tables) (ht : table ∈ tables) (hin : parent ∈ tables)
    (h : r.superTable? table = some parent)
    (hclear : Clear mode tables (mode.groupOf table) .fields (.declared .fields parent)) :
    Extends (r.document mode tables) (r.placed mode tables table)
      (r.placed mode tables parent) := by
  refine ⟨_, base_fieldsInterface hs, ?_⟩
  rw [superTarget_of_super hin h]
  exact refersTo_of_clear hs (rendered_groupOf ht) hin hclear

/-- Where there is a declared ancestor, the super table is declared. -/
theorem exists_super_of_mem (hs : r.Selects tables) (hacyclic : r.Acyclic) (ht : table ∈ tables)
    {ancestor : String}
    (h : ancestor ∈ (TableIndex.ofTables mode tables).declaredAncestors table) :
    ∃ parent ∈ tables, r.superTable? table = some parent ∧
      ancestor ∈ parent.name :: (TableIndex.ofTables mode tables).declaredAncestors parent := by
  cases hsuper : (TableIndex.ofTables mode tables).declaredSuper? table with
  | none =>
    rw [TableIndex.declaredAncestors_of_none hsuper] at h
    exact absurd h List.not_mem_nil
  | some above =>
    obtain ⟨parent, hparent, hup, rfl⟩ := (TableIndex.declaredSuper?_eq_some_iff hs).mp hsuper
    rw [TableIndex.declaredAncestors_of_super hs hacyclic ht hparent hup] at h
    exact ⟨parent, hparent, hup, h⟩

/-- What is left out has the shape of the nearest element of its name further up. -/
theorem nearestAbove?_of_not_written
    (hwritten : ¬ r.Written (.ofTables mode tables) table element) :
    ∃ above, r.nearestAbove? table element.name = some above ∧ element.SameShape above ∧
      above.table ∈ (TableIndex.ofTables mode tables).declaredAncestors table := by
  cases hcounterpart : r.declaredCounterpart (.ofTables mode tables) table element with
  | none => exact absurd (fun other hother => nomatch hcounterpart ▸ hother) hwritten
  | some above =>
    obtain ⟨hnext, hancestor⟩ := Option.filter_eq_some_iff.mp hcounterpart
    refine ⟨above, hnext, ?_, by simpa using hancestor⟩
    by_cases hshape : element.SameShape above
    · exact hshape
    · -- in another shape it would have been written
      refine absurd (fun other hother => ?_) hwritten
      rw [hcounterpart] at hother
      exact Option.some.inj hother ▸ hshape

/-- Where the nearest element of a name is not the table's own, the table has none. -/
theorem nearestAbove?_of_not_owned (hnearest : r.nearest? table name = some element)
    (howned : element.table ≠ table.name) :
    (∀ own ∈ r.elementsOf table.name, own.name ≠ name) ∧
      r.nearestAbove? table name = some element := by
  rw [Repository.nearest?_eq] at hnearest
  cases hfind : (r.elementsOf table.name).find? (·.name == name) with
  | some own =>
    rw [hfind, Option.some_or] at hnearest
    obtain ⟨hmem, -⟩ := Repository.find?_elementsOf_eq_some_iff.mp hfind
    rw [Option.some.inj hnearest] at hmem
    exact absurd (Repository.table_of_mem_elementsOf hmem) howned
  | none =>
    rw [hfind, Option.none_or] at hnearest
    refine ⟨fun own hown heq => ?_, hnearest⟩
    have hfound := Repository.find?_elementsOf_eq_some_iff.mpr ⟨hown, heq⟩
    rw [hfind] at hfound
    exact nomatch hfound

/-- **What the walk carries.** The nearest element of a name either has a property in the interface
of the table, or the interface has none of that name and goes up to a table whose nearest element
of the name has the same shape. -/
theorem written_or_above (hnearest : r.nearest? table name = some element)
    (hdeclared : element.table ∈
      table.name :: (TableIndex.ofTables mode tables).declaredAncestors table) :
    (element ∈ r.elementsOf table.name ∧ r.Written (.ofTables mode tables) table element) ∨
      (∀ own ∈ r.elementsOf table.name, own.name = name →
        ¬ r.Written (.ofTables mode tables) table own) ∧
      ∃ above, r.nearestAbove? table name = some above ∧ element.SameShape above ∧
        above.table ∈ (TableIndex.ofTables mode tables).declaredAncestors table := by
  by_cases howned : element.table = table.name
  · obtain ⟨hname, hmem⟩ := Repository.mem_of_nearest? hnearest
    rw [howned] at hmem
    by_cases hwritten : r.Written (.ofTables mode tables) table element
    · exact .inl ⟨hmem, hwritten⟩
    · refine .inr ⟨fun own hown heq => ?_, hname ▸ nearestAbove?_of_not_written hwritten⟩
      rw [Repository.elementsOf_unique hown hmem (heq.trans hname.symm)]
      exact hwritten
  · -- an element from further up is its own nearest one there
    obtain ⟨hnone, habove⟩ := nearestAbove?_of_not_owned hnearest howned
    refine .inr ⟨fun own hown heq => absurd heq (hnone own hown), element, habove,
      .refl element, ?_⟩
    exact (List.mem_cons.mp hdeclared).resolve_left howned

end Step

/-! ## The walk -/

section Walk

variable {r : Repository} {mode : RenderMode} {tables : List Table} {table : Table}
  {element : Element} {name : String}

/-- Elements with one property name have one name. -/
theorem propertyName_inj (hs : r.Selects tables) {owner owner' : String} {a b : Element}
    (ha : a ∈ r.elementsOf owner) (hb : b ∈ r.elementsOf owner')
    (h : propertyName a.name = propertyName b.name) : a.name = b.name :=
  TypeScript.propertyName_injective (TypeScript.not_mem_of_nameFault? (hs.named.element ha))
    (TypeScript.not_mem_of_nameFault? (hs.named.element hb)) h

/-- The walk up from the interface of `table` ends, and only at properties of tables on the declared
chain that are for an element called `name` with the shape of `element`. -/
def Finds (r : Repository) (mode : RenderMode) (tables : List Table) (name : String)
    (table : Table) (element : Element) : Prop :=
  (∃ owner property, NearestProperty (r.document mode tables) (propertyName name)
      (r.placed mode tables table) owner property) ∧
    ∀ owner property, NearestProperty (r.document mode tables) (propertyName name)
        (r.placed mode tables table) owner property →
      ∃ upper ∈ table :: r.declaredChain tables table, owner = r.placed mode tables upper ∧
        ∃ source ∈ r.elementsOf upper.name, source.name = name ∧ element.SameShape source ∧
          property.type = Site.fieldType ⟨mode.groupOf upper, .ofTables mode tables⟩ source

/-- Where the interface of the table has a property for the element, the walk ends. -/
theorem finds_of_written (mode : RenderMode) (hs : r.Selects tables)
    (hown : element ∈ r.elementsOf table.name)
    (hwritten : r.Written (.ofTables mode tables) table element) :
    Finds r mode tables element.name table element := by
  obtain ⟨property, hproperty, hpname⟩ : ∃ property ∈
      (r.interfaceOf mode tables table).properties, property.name = propertyName element.name :=
    exists_property_of_written hown hwritten
  refine ⟨⟨_, property, .here hproperty hpname⟩, fun owner found hwalk => ?_⟩
  cases hwalk with
  | here hfound hfname =>
    obtain ⟨source, hsource, -, hsname, htype⟩ := written_of_mem_properties hfound
    -- the property that is found may have been written for another element of the same name
    have heq := propertyName_inj hs hsource hown (hsname.symm.trans hfname)
    rw [Repository.elementsOf_unique hsource hown heq] at htype
    exact ⟨table, List.mem_cons_self, rfl, element, hown, rfl, .refl element, htype⟩
  | above hnone => exact absurd hpname (hnone property hproperty)

/-- Where the interface of the table has no property of the name, the walk goes on. -/
theorem finds_of_above {parent : Table} {above : Element}
    (hchain : r.declaredChain tables table = parent :: r.declaredChain tables parent)
    (hsilent : ∀ p ∈ (r.interfaceOf mode tables table).properties, p.name ≠ propertyName name)
    (hextends : Extends (r.document mode tables) (r.placed mode tables table)
      (r.placed mode tables parent))
    (hshape : element.SameShape above) (hfinds : Finds r mode tables name parent above) :
    Finds r mode tables name table element := by
  obtain ⟨⟨owner, property, hwalk⟩, hall⟩ := hfinds
  refine ⟨⟨owner, property, .above hsilent hextends hwalk⟩, fun owner found hwalk => ?_⟩
  cases hwalk with
  | here hfound hfname => exact absurd hfname (hsilent found hfound)
  | above _ hextends' hwalk =>
    -- there is one interface to go on from
    rw [← hextends.unique hextends'] at hwalk
    obtain ⟨upper, hupper, howner, source, hsource, hsname, hsshape, htype⟩ :=
      hall owner found hwalk
    rw [← hchain] at hupper
    exact ⟨upper, List.mem_cons_of_mem _ hupper, howner, source, hsource, hsname,
      hshape.trans hsshape, htype⟩

/-- No property has the name of an element where none of that name is written. -/
theorem ne_propertyName_of_not_written (hs : r.Selects tables) {owner : String}
    (hmem : element ∈ r.elementsOf owner)
    (hnot : ∀ own ∈ r.elementsOf table.name, own.name = element.name →
      ¬ r.Written (.ofTables mode tables) table own) :
    ∀ p ∈ (r.interfaceOf mode tables table).properties, p.name ≠ propertyName element.name := by
  intro p hp hpname
  obtain ⟨own, hown, hwritten, honame, -⟩ := written_of_mem_properties hp
  exact hnot own hown (propertyName_inj hs hown hmem (honame.symm.trans hpname)) hwritten

theorem finds_of_declared (mode : RenderMode) (hs : r.Selects tables) (hacyclic : r.Acyclic)
    (ht : table ∈ tables) (hclear : r.ClearChain mode tables table)
    (hnearest : r.nearest? table name = some element)
    (hdeclared : element.table ∈
      table.name :: (TableIndex.ofTables mode tables).declaredAncestors table) :
    Finds r mode tables name table element := by
  -- on the length of the chain above the table; the element changes on the way, its shape does not
  induction hn : (r.chain table).length using Nat.strongRecOn generalizing table element with
  | ind n ih =>
    obtain ⟨hname, hmem⟩ := Repository.mem_of_nearest? hnearest
    subst hname
    rcases written_or_above hnearest hdeclared with ⟨hown, hwritten⟩ | ⟨hnot, habove⟩
    · exact finds_of_written mode hs hown hwritten
    · obtain ⟨above, hnext, hshape, hancestor⟩ := habove
      obtain ⟨parent, hparent, hsuper, hancestor⟩ :=
        exists_super_of_mem hs hacyclic ht hancestor
      have hlt : (r.chain parent).length < n := by
        rw [← hn, Repository.chain_of_super hacyclic (hs.known ht) hsuper, List.length_cons]
        omega
      have hchain := declaredChain_of_super hacyclic (hs.known ht) hparent hsuper
      rw [Repository.ClearChain, hchain] at hclear
      obtain ⟨hway, hrest⟩ := List.isChain_cons_cons.mp hclear
      rw [Repository.nearestAbove?_of_super hacyclic (hs.known ht) hsuper] at hnext
      exact finds_of_above hchain (ne_propertyName_of_not_written hs hmem hnot)
        (extends_of_clear hs ht hparent hsuper hway) hshape
        (ih _ hlt hparent hrest hnext hancestor rfl)

end Walk

/-! ## No field is lost -/

/-- **No field is lost by inheritance, and none is given a stale shape**, where the `extends`
clauses find their way clear.

For every element of a table that is rendered the walk up from its interface ends at a property of
its name, in the interface of the table or of one of its super tables. The property was written for
an element of the same shape, and in the table's own group it has the type that the element itself
would be written with. -/
theorem nearestProperty_of_element {snapshot : Snapshot} (hvalid : snapshot.violation? = none)
    (hacyclic : snapshot.repository.Acyclic) (mode : RenderMode) {tables : List Table}
    (htables : ∀ table ∈ tables, table ∈ snapshot.repository.allTables) {table : Table}
    (ht : table ∈ tables) (hclear : snapshot.repository.ClearChain mode tables table)
    {element : Element} (helement : element ∈ snapshot.repository.elementsOf table.name) :
    let r := snapshot.repository
    let complete := (render mode tables { repository := r } {}).document
    ∃ start, StandsAt mode tables complete table start ∧
      (∃ owner property,
        NearestProperty complete (propertyName element.name) start owner property) ∧
      ∀ owner property, NearestProperty complete (propertyName element.name) start owner property →
        ∃ upper ∈ table :: r.declaredChain tables table,
          StandsAt mode tables complete upper owner ∧
          (∃ source ∈ r.elementsOf upper.name,
            source.name = element.name ∧ element.SameShape source ∧ property.type =
              Site.fieldType ⟨mode.groupOf upper, .ofTables mode tables⟩ source) ∧
          (mode.groupOf upper = mode.groupOf table → property.type.text =
            (Site.fieldType ⟨mode.groupOf table, .ofTables mode tables⟩ element).text) := by
  intro r complete
  have hs := Snapshot.selects hvalid htables
  have hcomplete : complete = r.document mode tables := document_render r mode tables
  obtain ⟨hsome, hall⟩ := finds_of_declared mode hs hacyclic ht hclear
    (Repository.nearest?_of_mem helement)
    (List.mem_cons.mpr (.inl (Repository.table_of_mem_elementsOf helement)))
  rw [hcomplete]
  refine ⟨_, (standsAt_iff mode hs ht).mpr rfl, hsome, fun owner property hwalk => ?_⟩
  obtain ⟨upper, hupper, howner, source, hsource, hname, hshape, htype⟩ := hall owner property hwalk
  have hin : upper ∈ tables := by
    rcases List.mem_cons.mp hupper with rfl | hupper
    · exact ht
    · exact Repository.rendered_of_mem_declaredChain hupper
  refine ⟨upper, hupper, (standsAt_iff mode hs hin).mpr howner,
    ⟨source, hsource, hname, hshape, htype⟩, fun hgroup => ?_⟩
  have hindex := TableIndex.contains_empty_ofTables hs mode
  rw [htype, hgroup, Site.fieldType_eq_of_sameShape hindex hshape.symm]

/-- Three tables in a chain, the top one in another scope, with one field in common. -/
def Snapshot.taskFamily : Snapshot where
  tables := .ofList
    [("base", { elements := .ofList [("state", { typeName := "string", maxLength := some 40 })] }),
     ("incident",
      { attributes := { superName := some " task ", scope := some "x_app" }
        elements := .ofList
          [("priority", { typeName := "integer" }),
           ("state", { typeName := " String", maxLength := some 40, label := "State" })] }),
     ("task",
      { attributes := { superName := some "base", scope := some "x_app" }
        elements := .ofList [("state", { typeName := "STRING", maxLength := some 40 })] })]

theorem Snapshot.acyclic_taskFamily : taskFamily.repository.Acyclic := by
  refine Repository.acyclic_of_rank
    (fun name => if name = "incident" then 2 else if name = "task" then 1 else 0) ?_
  decide +kernel

theorem nearestProperty_of_element_taskFamily :
    let r := Snapshot.taskFamily.repository
    let complete := (render .scoped r.allTables { repository := r } {}).document
    let incident : Table :=
      { name := "incident", superName := some " task ", scope := some "x_app" }
    let state : Element :=
      { name := "state", table := "incident", typeName := " String", maxLength := some 40
        label := "State" }
    (Snapshot.taskFamily.violation? = none ∧ r.Acyclic ∧ incident ∈ r.allTables ∧
        r.ClearChain .scoped r.allTables incident ∧ state ∈ r.elementsOf incident.name) ∧
      ∃ start, StandsAt .scoped r.allTables complete incident start ∧
        (∃ owner property,
          NearestProperty complete (propertyName state.name) start owner property) ∧
        ∀ owner property, NearestProperty complete (propertyName state.name) start owner property →
          ∃ upper ∈ incident :: r.declaredChain r.allTables incident,
            StandsAt .scoped r.allTables complete upper owner ∧
            (∃ source ∈ r.elementsOf upper.name,
              source.name = state.name ∧ state.SameShape source ∧ property.type =
                Site.fieldType ⟨.ofTable upper, .ofTables .scoped r.allTables⟩ source) ∧
            (Group.ofTable upper = Group.ofTable incident → property.type.text =
              (Site.fieldType ⟨.ofTable incident, .ofTables .scoped r.allTables⟩ state).text) := by
  intro r complete incident state
  have hvalid : Snapshot.taskFamily.violation? = none := by decide +kernel
  have hincident : incident ∈ r.allTables := by decide +kernel
  have hclear : r.ClearChain .scoped r.allTables incident := by decide +kernel
  have hstate : state ∈ r.elementsOf incident.name := by decide +kernel
  exact ⟨⟨hvalid, Snapshot.acyclic_taskFamily, hincident, hclear, hstate⟩,
    nearestProperty_of_element hvalid Snapshot.acyclic_taskFamily .scoped (fun _ ht => ht)
      hincident hclear hstate⟩

/-- A table of a scope that is called like one of the namespaces in every scope, and a table of
another scope below it with the same field. -/
def Snapshot.recordScope : Snapshot where
  tables := .ofList
    [("ticket",
      { attributes := { scope := some "record" }
        elements := .ofList [("a", { typeName := "string" })] }),
     ("x_task",
      { attributes := { superName := some "ticket", scope := some "x_app" }
        elements := .ofList [("a", { typeName := "string" })] })]

/-- The lower interface leaves its field out, and its `extends` clause leads nowhere. -/
theorem not_nearestProperty_recordScope :
    let r := Snapshot.recordScope.repository
    let complete := (render .scoped r.allTables { repository := r } {}).document
    let task : Table := { name := "x_task", superName := some "ticket", scope := some "x_app" }
    let a : Element := { name := "a", table := "x_task", typeName := "string" }
    (Snapshot.recordScope.violation? = none ∧ r.Acyclic ∧ task ∈ r.allTables ∧
        a ∈ r.elementsOf task.name) ∧
      ∃ start, StandsAt .scoped r.allTables complete task start ∧
        start.interface.base = some ⟨["record", "fields", "ticket"]⟩ ∧
        ∀ owner property,
          ¬ NearestProperty complete (propertyName a.name) start owner property := by
  intro r complete task a
  have hvalid : Snapshot.recordScope.violation? = none := by decide +kernel
  have hacyclic : r.Acyclic :=
    Repository.acyclic_of_rank (fun name => if name = "x_task" then 1 else 0) (by decide +kernel)
  have hs : r.Selects r.allTables := Snapshot.selects hvalid fun _ ht => ht
  have htask : task ∈ r.allTables := by decide +kernel
  have ha : a ∈ r.elementsOf task.name := by decide +kernel
  have hcomplete : complete = r.document .scoped r.allTables := document_render r .scoped _
  have hbase : (r.placed .scoped r.allTables task).interface.base =
      some ⟨["record", "fields", "ticket"]⟩ := by decide +kernel
  have hproperties : (r.placed .scoped r.allTables task).interface.properties = [] := by
    decide +kernel
  have hnothing : TypeScript.resolve complete ["x_app", "fields"]
      ⟨["record", "fields", "ticket"]⟩ = [] := by
    rw [hcomplete]
    exact List.isEmpty_iff.mp (by decide +kernel)
  refine ⟨⟨hvalid, hacyclic, htask, ha⟩, _, hcomplete ▸ (standsAt_iff .scoped hs htask).mpr rfl,
    hbase, fun owner property hwalk => ?_⟩
  cases hwalk with
  | here hproperty => exact absurd (hproperties ▸ hproperty) List.not_mem_nil
  | above _ hextends =>
    obtain ⟨reference, hreference, -, hresolve⟩ := hextends
    obtain rfl := Option.some.inj (hreference.symm.trans hbase)
    exact nomatch hnothing.symm.trans hresolve

end Ambient
