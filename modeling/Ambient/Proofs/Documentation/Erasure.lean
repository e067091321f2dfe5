import Ambient.Proofs.Documentation.Bare
import Ambient.Proofs.Documentation.Contained
import Ambient.Proofs.Layout.Rewritten

/-!
# Code does not look at documentation

Every step on the way from a repository to its code lines does the same whether the
documentation is there or not: it comes out bare where it was given bare metadata. The
groups and the index of what they declare are told from names and scopes, the chains
from super tables, and which fields are written from the shapes of elements. What
documentation decides is only which comments there are, and these are no code.
-/

namespace Ambient

open TypeScript (Item Member Property codeLines)

theorem Table.keepsLineage_bare : Table.KeepsLineage Table.bare where
  name := Table.name_bare
  superName? := Table.superName?_bare

theorem Table.rewrites_bare : (mode : RenderMode) → Table.Rewrites mode Table.bare :=
  Table.keepsLineage_bare.rewrites Table.scopeKey?_bare

/-! ## Chains and counterparts -/

namespace Repository

variable (r : Repository)

theorem superTable?_bare (table : Table) :
    r.bare.superTable? table.bare = (r.superTable? table).map Table.bare := by
  unfold superTable?
  rw [Table.superName?_bare, Option.map_bind]
  exact Option.bind_congr fun name _ => r.table?_bare name

theorem chainFrom_bare (unmet : List String) (current : Table) :
    r.bare.chainFrom unmet current.bare = (r.chainFrom unmet current).map Table.bare := by
  have hbare := r.superTable?_bare
  induction unmet, current using Repository.chainFrom.induct r with
  | case1 unmet current hmet hsuper =>
    have hsuper' : r.bare.superTable? current.bare = none := by rw [hbare, hsuper, Option.map_none]
    rw [chainFrom_of_top hmet hsuper, chainFrom_of_top (Table.name_bare _ ▸ hmet) hsuper']
    rfl
  | case2 unmet current hmet next hsuper ih =>
    have hsuper' : r.bare.superTable? current.bare = some next.bare := by
      rw [hbare, hsuper, Option.map_some]
    rw [chainFrom_of_super hmet hsuper, chainFrom_of_super (Table.name_bare _ ▸ hmet) hsuper',
      List.map_cons, Table.name_bare, ih]
  | case3 unmet current hmet =>
    rw [chainFrom_of_met hmet, chainFrom_of_met (Table.name_bare _ ▸ hmet)]
    rfl

theorem chain_bare (table : Table) :
    r.bare.chain table.bare = (r.chain table).map Table.bare := by
  have hkeys : r.bare.tables.keys = r.tables.keys := NameMap.keys_mapValues _ _
  unfold chain
  rw [superTable?_bare, hkeys, Table.name_bare]
  cases r.superTable? table with
  | none => rfl
  | some parent => exact r.chainFrom_bare _ parent

theorem declaredCounterpart_bare {index : TableIndex} (hindex : index.contains "" = false)
    (table : Table) (element : Element) :
    r.bare.declaredCounterpart index table.bare element.bare =
      (r.declaredCounterpart index table element).map Element.bare := by
  have habove : (r.bare.chain table.bare).map (fun above => r.bare.elementsOf above.name) =
      ((r.chain table).map fun above => r.elementsOf above.name).map (·.map Element.bare) := by
    rw [chain_bare, List.map_map, List.map_map]
    exact List.map_congr_left fun above _ => r.elementsOf_bare above.name
  unfold declaredCounterpart Site.declaredCounterpart
  simp only [habove, FieldInheritance.nearest?_rewritten Element.name_bare,
    TableIndex.declaredAncestors_rewritten hindex Table.keepsLineage_bare, Element.name_bare,
    Option.filter_map]
  rfl

end Repository

/-! ## Declarations -/

/-- What becomes of the line for a field. One that is inherited has none, and neither has one of
which only the documentation is another. -/
def Disposition.line? (line : String) : Disposition → Option String
  | .own => some line
  | .redeclared => some ("new " ++ line)
  | .inherited | .redocumented => none

/-- Whether two elements are documented alike makes no difference to the line. -/
theorem line?_disposition (line : String) (element other : Element) :
    (element.disposition (some other)).line? line =
      if element.sameShape other then none else some ("new " ++ line) := by
  unfold Element.disposition
  by_cases h : element.sameShape other = true
  · have hkept : ¬ (! element.sameShape other) = true := by simp [h]
    simp only [if_neg hkept, if_pos h]
    split
    · rfl
    · rfl
  · have hchanged : (! element.sameShape other) = true := by simp [h]
    simp only [if_pos hchanged, if_neg h]
    rfl

theorem line?_disposition_bare (line : String) (element : Element) (counterpart : Option Element) :
    (element.bare.disposition (counterpart.map Element.bare)).line? line =
      (element.disposition counterpart).line? line := by
  cases counterpart with
  | none => rfl
  | some other =>
    have hshape : element.bare.sameShape other.bare = element.sameShape other := by
      rw [Bool.eq_iff_iff, Element.sameShape_iff, Element.sameShape_iff]
      exact element.sameShape_bare_iff other
    rw [Option.map_some, line?_disposition, line?_disposition, hshape]

namespace Site

variable {site : Site}

/-- The line of code for a field of its own. -/
def fieldLine (site : Site) (element : Element) : String :=
  TypeScript.propertyName element.name ++ ": " ++ (site.fieldType element).text ++ ";"

theorem statement_member? (element : Element) (disposition : Disposition) (doc : List String) :
    ((site.member? element disposition doc).bind Member.property?).map Property.statement =
      disposition.line? (site.fieldLine element) := by
  cases disposition <;>
    simp [member?, Member.property?, Property.statement, Disposition.line?, fieldLine,
      String.append_assoc]

variable (hindex : site.index.contains "" = false)

include hindex in
theorem fieldLine_bare (element : Element) :
    site.fieldLine element.bare = site.fieldLine element := by
  unfold fieldLine
  rw [fieldType_eq_of_sameShape hindex element.sameShape_bare, Element.name_bare]

end Site

namespace Repository

variable (r : Repository) {site : Site} (hindex : site.index.contains "" = false)

include hindex in
theorem statements_bare (table : Table) :
    (r.bare.fieldsInterface site table.bare).properties.map Property.statement =
      (r.fieldsInterface site table).properties.map Property.statement := by
  rw [properties_fieldsInterface, properties_fieldsInterface, List.map_filterMap,
    List.map_filterMap, Table.name_bare, elementsOf_bare, List.filterMap_map]
  simp only [Site.statement_member?]
  congr 1
  funext element
  rw [Function.comp_apply, declaredCounterpart_bare r hindex, Site.fieldLine_bare hindex,
    line?_disposition_bare]

include hindex in
theorem code_declaration_bare (kind : NamespaceKind) (table : Table) :
    (r.bare.declaration site kind table.bare).code = (r.declaration site kind table).code := by
  cases kind with
  | records =>
    have hbase := Site.recordBase_rewritten hindex Table.keepsLineage_bare table
    show [TypeScript.Alias.statement _] = [TypeScript.Alias.statement _]
    unfold TypeScript.Alias.statement recordAlias Site.recordAlias
    rw [hbase]
    rfl
  | elements => rfl
  | fields =>
    have hbase := Site.fieldsBase_rewritten hindex Table.keepsLineage_bare table
    have hroot : (r.bare.superTable? table.bare).isNone = (r.superTable? table).isNone := by
      rw [superTable?_bare, Option.isNone_map]
    have hheader : (r.bare.fieldsInterface site table.bare).header =
        (r.fieldsInterface site table).header := by
      unfold TypeScript.Interface.header fieldsInterface Site.fieldsInterface
      rw [hbase, hroot]
      rfl
    show Item.code (.interface _) = Item.code (.interface _)
    rw [Item.code, Item.code, statements_bare r hindex, hheader]

end Repository

/-- **The code lines of a repository are those of its bare repository.** -/
theorem codeLines_document_bare {r : Repository} {tables : List Table} (hs : r.Selects tables)
    (mode : RenderMode) :
    codeLines (r.bare.document mode (tables.map Table.bare)) =
      codeLines (r.document mode tables) := by
  have hindex := TableIndex.contains_empty_ofTables hs mode
  -- the groups and the index are the same, so it comes down to the declarations
  rw [codeLines_document, codeLines_document, partition_rewritten (Table.rewrites_bare mode),
    List.flatMap_map, TableIndex.ofTables_rewritten (Table.rewrites_bare mode)]
  refine List.flatMap_congr fun entry _ => ?_
  obtain ⟨group, members⟩ := entry
  congr 1
  funext kind
  rw [List.flatMap_map]
  exact List.flatMap_congr fun table _ => r.code_declaration_bare hindex kind table

end Ambient
