import Ambient.Proofs.Layout.Partition
import Ambient.Proofs.Snapshot.Rewritten
import Ambient.Render.TableDeclaration

/-!
# Rows that are written otherwise

The groups, and the index of what they declare, are told from the names of tables,
their places and their super tables. So rewriting every row in a way that leaves these
as they are rewrites the rows of the groups and changes nothing else. Of elements it is
the shapes and the comments that must be left, for all declarations to stay.
-/

namespace Ambient

/-- `f` leaves of a table what it is called and what it extends. -/
structure Table.KeepsLineage (f : Table → Table) : Prop where
  name : ∀ table, (f table).name = table.name
  superName? : ∀ table, (f table).superName? = table.superName?

/-- `f` leaves of a table its place too. -/
structure Table.Rewrites (mode : RenderMode) (f : Table → Table) : Prop
    extends Table.KeepsLineage f where
  groupOf : ∀ table, mode.groupOf (f table) = mode.groupOf table

/-- Where the scope is left, the place is left in every mode. -/
theorem Table.KeepsLineage.rewrites {f : Table → Table} (hf : Table.KeepsLineage f)
    (hscope : ∀ table, (f table).scopeKey? = table.scopeKey?) (mode : RenderMode) :
    Table.Rewrites mode f where
  toKeepsLineage := hf
  groupOf table := by
    match mode with
    | .global => rfl
    | .scoped => simp only [RenderMode.groupOf, Group.ofTable, hscope]

section Partition

variable {f : Table → Table}

/-- Rows, each under its name. -/
theorem map_named_rewritten (hf : Table.KeepsLineage f) (rows : List Table) :
    ((rows.map f).map fun row => (row.name, row)) =
      (rows.map fun row => (row.name, row)).map fun entry => (entry.1, f entry.2) := by
  rw [List.map_map, List.map_map]
  exact List.map_congr_left fun row _ => congrArg (·, f row) (hf.name row)

theorem firstRows_rewritten (hf : Table.KeepsLineage f) (rows : List Table) :
    firstRows (rows.map f) = (firstRows rows).map f := by
  unfold firstRows
  rw [map_named_rewritten hf, NameMap.ofListFirst_map, NameMap.values_mapValues]

variable {mode : RenderMode} (hf : Table.Rewrites mode f)

include hf in
theorem partition_rewritten (tables : List Table) :
    partition mode (tables.map f) =
      (partition mode tables).map fun entry => (entry.1, entry.2.map f) := by
  have hgroups : (tables.map f).map mode.groupOf = tables.map mode.groupOf := by
    rw [List.map_map]
    exact List.map_congr_left fun table _ => hf.groupOf table
  unfold partition
  rw [hgroups, List.map_map]
  refine List.map_congr_left fun group _ => ?_
  have hfilter : (tables.map f).filter (mode.groupOf · = group) =
      (tables.filter (mode.groupOf · = group)).map f := by
    rw [List.filter_map]
    simp [Function.comp_def, hf.groupOf]
  rw [hfilter, firstRows_rewritten hf.toKeepsLineage]
  rfl

end Partition

namespace TableIndex

section Rows

variable {f : Table → Table} {mode : RenderMode} (hf : Table.Rewrites mode f)

include hf in
theorem ofTables_rewritten (tables : List Table) :
    ofTables mode (tables.map f) = ofTables mode tables := by
  have hinsert : ∀ (index : TableIndex) (table : Table) (group : Group),
      index.insert (f table) group = index.insert table group := by
    intro index table group
    unfold insert
    rw [hf.name, hf.superName?]
  unfold ofTables ofGroups
  rw [partition_rewritten hf, List.foldl_map]
  simp only [List.foldl_map, hinsert]

end Rows

variable {index : TableIndex} (hindex : index.contains "" = false)

include hindex in
/-- An empty name is not in the index, so it is all one whether it counts as a name. -/
theorem declaredSuper?_eq_filter (table : Table) :
    index.declaredSuper? table = table.superName?.filter index.contains := by
  unfold declaredSuper? Table.superName? Text.present?
  cases table.superName with
  | none => rfl
  | some text =>
    rw [Option.map_some]
    by_cases hempty : (Text.trim text).isEmpty = true
    · rw [String.isEmpty_iff.mp hempty, Option.filter_some, hindex]
      rfl
    · have hkept : (some (Text.trim text)).filter (! ·.isEmpty) = some (Text.trim text) := by
        rw [Option.filter_some, Bool.eq_false_iff.mpr hempty]
        rfl
      rw [hkept]

section Super

variable {f : Table → Table} (hf : Table.KeepsLineage f)

include hindex hf in
theorem declaredSuper?_rewritten (table : Table) :
    index.declaredSuper? (f table) = index.declaredSuper? table := by
  rw [declaredSuper?_eq_filter hindex, hf.superName?, declaredSuper?_eq_filter hindex]

include hindex hf in
theorem declaredAncestors_rewritten (table : Table) :
    index.declaredAncestors (f table) = index.declaredAncestors table := by
  unfold declaredAncestors
  rw [declaredSuper?_rewritten hindex hf, hf.name]

end Super

end TableIndex

namespace Site

variable {site : Site} {f : Table → Table} (hindex : site.index.contains "" = false)
  (hf : Table.KeepsLineage f)

include hindex hf in
theorem recordBase_rewritten (table : Table) :
    site.recordBase (f table) = site.recordBase table := by
  unfold recordBase
  rw [TableIndex.declaredSuper?_rewritten hindex hf]

include hindex hf in
theorem fieldsBase_rewritten (table : Table) (rootedAtBase : Bool) :
    site.fieldsBase (f table) rootedAtBase = site.fieldsBase table rootedAtBase := by
  unfold fieldsBase
  rw [TableIndex.declaredSuper?_rewritten hindex hf]

end Site

/-- What is nearest among elements whose names are left as they are. -/
theorem FieldInheritance.nearest?_rewritten {f : Element → Element}
    (hf : ∀ element, (f element).name = element.name) (above : List (List Element))
    (name : String) :
    nearest? (above.map (·.map f)) name = (nearest? above name).map f := by
  unfold nearest?
  rw [List.findSome?_map, List.map_findSome?]
  congr 1
  funext owned
  have hname : ((fun element : Element => element.name == name) ∘ f) =
      fun element => element.name == name :=
    funext fun element => congrArg (· == name) (hf element)
  rw [Function.comp_apply, List.find?_map, hname]
  rfl

/-! ## Attributes of which declarations are told -/

/-- Rewriting the attributes of tables by `f` and those of elements by `g` leaves what is told from
them: what is looked up for a declaration, and what is declared. It may put a table elsewhere. -/
structure KeepsDeclarations (f : TableAttributes → TableAttributes)
    (g : ElementAttributes → ElementAttributes) : Prop where
  lineage : Table.KeepsLineage (Table.rewrite f)
  labelOrName : ∀ table, (Table.rewrite f table).labelOrName = table.labelOrName
  package : ∀ table, Text.present? (Table.rewrite f table).package = Text.present? table.package
  recordDoc : ∀ table package,
    Doc.recordDoc (Table.rewrite f table) package = Doc.recordDoc table package
  typeName : ∀ element,
    Text.present? (some (Element.rewrite g element).typeName) =
      Text.present? (some element.typeName)
  elementPackage : ∀ element,
    Text.present? (Element.rewrite g element).package = Text.present? element.package
  elementDoc : ∀ element type package explicit,
    Doc.elementDoc (Element.rewrite g element) type package explicit =
      Doc.elementDoc element type package explicit
  isExplicit : ∀ element,
    Scalar.isExplicit (Element.rewrite g element).typeName = Scalar.isExplicit element.typeName
  disposition : ∀ element counterpart,
    (Element.rewrite g element).disposition (counterpart.map (Element.rewrite g)) =
      element.disposition counterpart
  /-- In an index, that is, in which nothing is called by the empty name. -/
  fieldType : ∀ site : Site, site.index.contains "" = false →
    ∀ element, site.fieldType (Element.rewrite g element) = site.fieldType element

namespace Site

variable {f : TableAttributes → TableAttributes} {g : ElementAttributes → ElementAttributes}
  (h : KeepsDeclarations f g) {site : Site}

include h

theorem elementAlias_rewritten (table : Table) :
    site.elementAlias (Table.rewrite f table) = site.elementAlias table := by
  unfold elementAlias Doc.elementTypeDoc
  rw [h.labelOrName, h.lineage.name]

variable (hindex : site.index.contains "" = false)

include hindex

theorem recordAlias_rewritten (table : Table) (package : Option Package) :
    site.recordAlias (Table.rewrite f table) package = site.recordAlias table package := by
  unfold recordAlias
  rw [recordBase_rewritten hindex h.lineage, h.recordDoc, h.lineage.name]

theorem fieldsInterface_rewritten (table : Table) (rootedAtBase : Bool)
    (members : List TypeScript.Member) :
    site.fieldsInterface (Table.rewrite f table) rootedAtBase members =
      site.fieldsInterface table rootedAtBase members := by
  unfold fieldsInterface Doc.fieldsDoc
  rw [fieldsBase_rewritten hindex h.lineage, h.labelOrName, h.lineage.name]

theorem member?_rewritten (element : Element) (disposition : Disposition) (doc : List String) :
    site.member? (Element.rewrite g element) disposition doc =
      site.member? element disposition doc := by
  unfold member?
  rw [h.fieldType site hindex]
  rfl

end Site

end Ambient
