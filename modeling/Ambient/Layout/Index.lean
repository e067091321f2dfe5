import Ambient.Layout.Group
import Ambient.NameMap
import Ambient.TypeScript.Naming
import Ambient.TypeScript.Reference

/-!
# The index of declared tables

The index knows every table of a render pass: the group it is declared in and the
super table it names. It answers which super tables are declared too, and how a
declaration is referred to from a given place.
-/

namespace Ambient

open TypeScript (Reference)

/-- What the index holds of a table. -/
structure IndexEntry where
  group : Group
  superName : Option String
  deriving DecidableEq, Inhabited, Repr

structure TableIndex where
  entries : NameMap IndexEntry := ∅
  deriving DecidableEq, Inhabited

namespace TableIndex

/-- Records a table, in place of an earlier one of the same name. -/
def insert (index : TableIndex) (table : Table) (group : Group) : TableIndex :=
  ⟨index.entries.insert table.name { group, superName := table.superName? }⟩

def contains (index : TableIndex) (name : String) : Bool :=
  index.entries.contains name

def groupOf? (index : TableIndex) (name : String) : Option Group :=
  (index.entries.get? name).map (·.group)

/-- The super table that `table` names, if it is in the index. -/
def declaredSuper? (index : TableIndex) (table : Table) : Option String :=
  (table.superName.map Text.trim).filter index.contains

/-- The super table that the table recorded as `name` names, if it is in the index. -/
def recordedSuper? (index : TableIndex) (name : String) : Option String :=
  ((index.entries.get? name).bind (·.superName)).filter index.contains

/-- Follows recorded super tables from `current`, through names that are still unmet. -/
def ancestorsFrom (index : TableIndex) (unmet : List String) (current : Option String) :
    List String :=
  match current with
  | none => []
  | some name =>
    if _met : name ∈ unmet then
      name :: index.ancestorsFrom (unmet.erase name) (index.recordedSuper? name)
    else []
termination_by unmet.length
decreasing_by
  have := List.length_erase_of_mem _met
  have := List.length_pos_of_mem _met
  omega

/-- The chain of super tables above `table` as far as it is in the index, nearest first. The
chain ends before a table that is already on it. -/
def declaredAncestors (index : TableIndex) (table : Table) : List String :=
  index.ancestorsFrom (index.entries.keys.erase table.name) (index.declaredSuper? table)

/-- How to refer to the declaration of `name` in namespace `target`, from namespace `within`
of group `source`: by no more segments than the two places differ in. -/
def qualify (index : TableIndex) (source : Group) (within target : NamespaceKind)
    (name : String) : Option Reference :=
  (index.groupOf? name).map fun group =>
    let declared := TypeScript.typeName name
    let inGroup := [group.namespaceName target, declared]
    if group = source then if within = target then ⟨[declared]⟩ else ⟨inGroup⟩
    else ⟨group.enclosing?.toList ++ inGroup⟩

/-- Records the members of every group. -/
def ofGroups (groups : List (Group × List Table)) : TableIndex :=
  groups.foldl (fun index (group, members) =>
    members.foldl (fun index table => index.insert table group) index) {}

end TableIndex

end Ambient
