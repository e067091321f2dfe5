import Ambient.Text.Blank

/-!
# Packages, scopes and scalar types

Each of them is a name with a text for people. The text is shown only where it
tells more than the name does.
-/

namespace Ambient

structure Package where
  name : String
  description : Option String := none
  deriving DecidableEq, Inhabited, Repr

structure Scope where
  name : String
  description : Option String := none
  deriving DecidableEq, Inhabited, Repr

structure ScalarType where
  name : String
  displayName : Option String := none
  deriving DecidableEq, Inhabited, Repr

/-- The text as it stands, if it is neither blank nor the same as `known`. -/
def informative? (text : Option String) (known : String) : Option String :=
  (text.bind Text.nonBlank?).filter (· ≠ known)

def Package.distinctDescription? (package : Package) : Option String :=
  informative? package.description package.name

/-- A label for the scope that `key` alone would not give. -/
def Scope.informativeLabel? (scope : Scope) (key : String) : Option String :=
  informative? scope.description key

def ScalarType.distinctDisplayName? (type : ScalarType) : Option String :=
  informative? type.displayName type.name

end Ambient
