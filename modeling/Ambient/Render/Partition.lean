import Ambient.Layout.Index

/-!
# Partition into groups

Tables are rendered group by group. In scoped mode the group of a table is that of
its scope; in global mode all tables share the global group. Groups come in order,
the tables of a group in name order, and of several rows with one name in one
group the first one counts.
-/

namespace Ambient

inductive RenderMode where
  | global
  | scoped
  deriving DecidableEq, Inhabited, Repr

def RenderMode.groupOf : RenderMode → Table → Group
  | .global, _ => .global
  | .scoped, table => .ofTable table

/-- The different groups among `groups`, in order. -/
def sortGroups (groups : List Group) : List Group :=
  (if .global ∈ groups then [.global] else [])
    ++ (sortNames (groups.filterMap Group.key?)).map .scoped

/-- The first row of each name, in name order. -/
def firstRows (rows : List Table) : List Table :=
  (NameMap.ofListFirst (rows.map fun row => (row.name, row))).values

def partition (mode : RenderMode) (tables : List Table) : List (Group × List Table) :=
  (sortGroups (tables.map mode.groupOf)).map fun group =>
    (group, firstRows (tables.filter (mode.groupOf · = group)))

end Ambient
