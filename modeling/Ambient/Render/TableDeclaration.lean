import Ambient.Doc.Element
import Ambient.Layout.Index
import Ambient.Repository.Cache
import Ambient.Repository.Navigation
import Ambient.Schema.Disposition
import Ambient.TypeScript.Declaration

/-!
# The declarations of a table

A table is declared three times: as a record type, as an element type, and as the
interface of its fields. The first two need at most its package. The interface
holds what the table adds to its super tables: own fields, fields with another
shape, and comments on fields that differ in documentation only.
-/

namespace Ambient

open TypeScript (Alias Interface Member Property Reference)

/-- Where declarations are made: the group they stand in and the index of all that is declared. -/
structure Site where
  group : Group
  index : TableIndex
  deriving DecidableEq, Inhabited

namespace Site

/-- Refers to the declaration of a table, if it is in the index. -/
def reference (site : Site) (within target : NamespaceKind) (name : String) : Option Reference :=
  site.index.qualify site.group within target name

/-- Refers to a declaration of a table that is rendered here. One that is not in the index is
taken to stand in this group. -/
def ownReference (site : Site) (within target : NamespaceKind) (name : String) : Reference :=
  (site.reference within target name).getD
    ⟨[site.group.namespaceName target, TypeScript.typeName name]⟩

/-! ## Record and element types -/

/-- The record type the record type of `table` adds to. -/
def recordBase (site : Site) (table : Table) : Reference :=
  ((site.index.declaredSuper? table).bind (site.reference .records .records)).getD
    (.named site.group.platformTypes.record)

def recordAlias (site : Site) (table : Table) (package : Option Package) : Alias where
  name := TypeScript.typeName table.name
  value := .intersection (site.ownReference .records .fields table.name) (site.recordBase table)
  doc := Doc.recordDoc table package

def elementAlias (site : Site) (table : Table) : Alias where
  name := TypeScript.typeName table.name
  value :=
    .applied (.named site.group.platformTypes.reference)
      (site.ownReference .elements .fields table.name)
      (site.ownReference .elements .records table.name)
  doc := Doc.elementTypeDoc table

/-! ## Field interfaces -/

/-- The interface the field interface of `table` extends. -/
def fieldsBase (site : Site) (table : Table) (rootedAtBase : Bool) : Reference :=
  (((site.index.declaredSuper? table).filter fun _ => ! rootedAtBase).bind
    (site.reference .fields .fields)).getD (.named site.group.platformTypes.fields)

/-- The type of a field: a reference to a declared table has that table's element type, all
else a type of the platform. -/
def fieldType (site : Site) (element : Element) : Reference :=
  let alias? :=
    if Scalar.category element.typeName = .reference then
      (element.reference.map Text.trim).bind (site.reference .fields .elements)
    else none
  alias?.getD (.named (site.group.scalarType element.typeName))

/-- The counterpart of an element, if its table is among the declared ancestors. -/
def declaredCounterpart (ancestors : List String) (pair : InheritedPair) : Option Element :=
  pair.counterpart.filter fun counterpart => ancestors.contains counterpart.table

/-- The entry for an element, given its disposition and comment. -/
def member? (site : Site) (element : Element) (disposition : Disposition) (doc : List String) :
    Option Member :=
  let property : Property :=
    { name := TypeScript.propertyName element.name, type := site.fieldType element, doc }
  match disposition with
  | .inherited => none
  | .redocumented => some (.comment doc)
  | .own => some (.property property)
  | .redeclared => some (.property { property with redeclared := true })

/-- The field interface, given the entries for its elements. Comments stand before properties. -/
def fieldsInterface (site : Site) (table : Table) (rootedAtBase : Bool)
    (members : List Member) : Interface where
  name := TypeScript.typeName table.name
  doc := Doc.fieldsDoc table
  base := some (site.fieldsBase table rootedAtBase)
  members := members.filter (·.isComment) ++ members.filter (! ·.isComment)

end Site

namespace CacheM

/-- The comment on an element; its type and its package are looked up. -/
def elementDoc (element : Element) : CacheM (List String) := do
  let type ← scalarType element.typeName
  let package ← package element.package
  return Doc.elementDoc element type package (Scalar.isExplicit element.typeName)

/-- The entry for an element; none, and no lookup, for one that is inherited as it is. -/
def member? (site : Site) (ancestors : List String) (pair : InheritedPair) :
    CacheM (Option Member) :=
  match pair.element.disposition (Site.declaredCounterpart ancestors pair) with
  | .inherited => return none
  | disposition => return site.member? pair.element disposition (← elementDoc pair.element)

def recordAlias (site : Site) (table : Table) : CacheM Alias :=
  return site.recordAlias table (← package table.package)

def fieldsInterface (site : Site) (table : Table) : CacheM Interface := do
  let inheritance ← ofLookup (LookupM.fieldInheritance table)
  let ancestors := site.index.declaredAncestors table
  let members ← inheritance.pairs.mapM (member? site ancestors)
  return site.fieldsInterface table inheritance.rootedAtBase (members.filterMap id)

end CacheM

end Ambient
