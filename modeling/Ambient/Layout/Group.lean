import Ambient.Schema.Descriptor
import Ambient.Schema.Scalar
import Ambient.Schema.Table

/-!
# Namespace groups

The declarations of a table stand in the group of its scope. The global group
declares its three namespaces at the top level; the group of a scope encloses
them in a namespace called by the scope's key. The two kinds of group are built
on different types of the platform.
-/

namespace Ambient

inductive Group where
  | global
  | scoped (key : String)
  deriving DecidableEq, Inhabited, Repr

/-- The three namespaces of a group: record types, element types, field interfaces. -/
inductive NamespaceKind where
  | records
  | elements
  | fields
  deriving DecidableEq, Inhabited, Repr

/-- The platform's types on which the declarations of a group are built. -/
structure PlatformTypes where
  /-- Base of a record type without a super table. -/
  record : String
  /-- Base of a field interface without a super table. -/
  fields : String
  /-- Takes the fields and the record type of a table to its element type. -/
  reference : String
  scalar : ScalarCategory → String

def globalTypes : PlatformTypes where
  record := "GlideRecord"
  fields := "IGlideTableProperties"
  reference := "GlideReferenceElement"
  scalar
    | .journal => "JournalGlideElement"
    | .dateTime => "GlideDateTimeElement"
    | .reference => "GlideElementReference"
    | .generic => "GlideElement"

def scopedTypes : PlatformTypes where
  record := "ScopedGlideRecord"
  fields := "IScopedTableProperties"
  reference := "ScopedGlideReferenceElement"
  scalar
    | .journal => "ScopedJournalElement"
    | .dateTime => "ScopedGlideDateTimeElement"
    | .reference => "ScopedGlideElementReference"
    | .generic => "ScopedGlideElement"

namespace Group

/-- The group of a table by its scope. -/
def ofTable (table : Table) : Group :=
  match table.scopeKey? with
  | some key => .scoped key
  | none => .global

def key? : Group → Option String
  | .global => none
  | .scoped key => some key

/-- Name of the namespace that encloses the group's own three, if there is one. -/
def enclosing? : Group → Option String := key?

def namespaceName : Group → NamespaceKind → String
  | .global, .records => "$$GlideRecord"
  | .global, .elements => "$$GlideElement"
  | .global, .fields => "$$tableFields"
  | .scoped _, .records => "record"
  | .scoped _, .elements => "element"
  | .scoped _, .fields => "fields"

/-- How the group's namespaces are introduced: at the top level they are declared, inside an
enclosing namespace exported. -/
def namespaceKeyword : Group → String
  | .global => "declare namespace"
  | .scoped _ => "export namespace"

def platformTypes : Group → PlatformTypes
  | .global => globalTypes
  | .scoped _ => scopedTypes

/-- The platform type of an element that is no reference to a declared table. -/
def scalarType (group : Group) (typeName : String) : String :=
  group.platformTypes.scalar (Scalar.category typeName)

/-- The comment above the enclosing namespace, where the scope has a label to show. -/
def scopeHeader? (group : Group) (scope : Scope) : Option (List String) :=
  match group with
  | .global => none
  | .scoped key =>
    (scope.informativeLabel? key).map fun label => ["Namespace for the `" ++ label ++ "` scope."]

/-! ## Order -/

/-- The global group comes first, the others follow by key. -/
def lt : Group → Group → Prop
  | .global, .global => False
  | .global, .scoped _ => True
  | .scoped _, .global => False
  | .scoped a, .scoped b => a < b

instance : LT Group := ⟨lt⟩

instance decidableLT : DecidableLT Group
  | .global, .global => .isFalse id
  | .global, .scoped _ => .isTrue trivial
  | .scoped _, .global => .isFalse id
  | .scoped a, .scoped b => inferInstanceAs (Decidable (a < b))

/-- Puts groups in order; equal ones stay beside each other. -/
def sort (groups : List Group) : List Group :=
  groups.mergeSort fun a b => ! decide (b < a)

end Group

end Ambient
