import Ambient.Schema.Snapshot
import Ambient.TypeScript.Naming

/-!
# Validation of snapshots

Scopes and tables become names in the generated code, so they have to be
identifiers; the name of an element only has to be free of blanks. No table may
extend itself. The first violation counts: scopes come before tables, and both are
taken in name order.
-/

namespace Ambient

inductive NameFault where
  | empty
  | blankInside
  /-- The first character cannot begin an identifier. -/
  | badStart
  /-- A later character cannot be part of an identifier. -/
  | badCharacter
  deriving DecidableEq, Inhabited, Repr

def NameFault.reason : NameFault → String
  | .empty => "name cannot be empty"
  | .blankInside => "name cannot contain whitespace"
  | .badStart => "name must start with a letter, '_' or '$'"
  | .badCharacter => "name can only contain letters, digits, '_' and '$'"

/-- What a name is the name of. -/
inductive NameKind where
  | scope
  | table
  | elementOf (owner : String)
  deriving DecidableEq, Inhabited, Repr

def NameKind.description : NameKind → String
  | .scope => "scope"
  | .table => "table"
  | .elementOf owner => "element in '" ++ owner ++ "'"

inductive Violation where
  | badName (kind : NameKind) (name : String) (fault : NameFault)
  | extendsItself (table : String)
  deriving DecidableEq, Inhabited, Repr

namespace Violation

/-- The name at fault. -/
def name : Violation → String
  | .badName _ name _ => name
  | .extendsItself table => table

def message : Violation → String
  | .badName kind name fault =>
    "invalid " ++ kind.description ++ " name '" ++ name ++ "': " ++ fault.reason
  | .extendsItself table => "table '" ++ table ++ "' extends itself"

end Violation

/-- Why a name is not fit for an element. -/
def nameFault? (name : String) : Option NameFault :=
  if name.isEmpty then some .empty
  else if name.toList.any Text.isBlank then some .blankInside
  else none

/-- Why a name is not fit for a scope or a table. -/
def identifierFault? (name : String) : Option NameFault :=
  (nameFault? name).or <|
    match name.toList with
    | [] => none
    | c :: cs =>
      if ! TypeScript.isIdentifierStart c then some .badStart
      else if ! cs.all TypeScript.isIdentifierRest then some .badCharacter
      else none

namespace TableEntry

def scopeViolation? (entry : TableEntry) : Option Violation :=
  (Text.present? entry.attributes.scope).bind fun scope =>
    (identifierFault? scope).map (.badName .scope scope)

def extendsViolation? (entry : TableEntry) (name : String) : Option Violation :=
  if entry.attributes.superName.map Text.trim = some name then some (.extendsItself name)
  else none

def elementViolation? (entry : TableEntry) (name : String) : Option Violation :=
  entry.elements.keys.findSome? fun element =>
    (nameFault? element).map (.badName (.elementOf name) element)

/-- The first violation of the table called `name`. -/
def violation? (entry : TableEntry) (name : String) : Option Violation :=
  ((identifierFault? name).map (.badName .table name))
    |>.or entry.scopeViolation?
    |>.or (entry.extendsViolation? name)
    |>.or (entry.elementViolation? name)

end TableEntry

/-- The first violation of a snapshot, if there is one. -/
def Snapshot.violation? (snapshot : Snapshot) : Option Violation :=
  (snapshot.scopes.keys.findSome? fun scope =>
      (identifierFault? scope).map (.badName .scope scope))
    |>.or (snapshot.tables.toList.findSome? fun (name, entry) => entry.violation? name)

end Ambient
