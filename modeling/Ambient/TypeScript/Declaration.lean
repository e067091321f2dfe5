import Ambient.Code.Builder
import Ambient.TypeScript.Reference

/-!
# Declarations

The two kinds of declaration that the generated namespaces hold, type aliases and
interfaces, and the fragments they are written as.
-/

namespace Ambient.TypeScript

open Code (Fragment)

structure Alias where
  name : String
  value : TypeExpr
  doc : List String := []
  deriving DecidableEq, Inhabited, Repr

structure Property where
  name : String
  type : Reference
  doc : List String := []
  /-- Written with the marker `new`: the property replaces one of a super interface. -/
  redeclared : Bool := false
  deriving DecidableEq, Inhabited, Repr

/-- An entry of an interface body: a property, or a comment that stands for itself. -/
inductive Member where
  | comment (lines : List String)
  | property (property : Property)
  deriving DecidableEq, Inhabited, Repr

structure Interface where
  name : String
  doc : List String := []
  base : Option Reference := none
  members : List Member := []
  deriving DecidableEq, Inhabited, Repr

/-- No fragment for no text. -/
def docFragments (lines : List String) : List Fragment :=
  if lines.isEmpty then [] else [.doc lines]

namespace Alias

def statement (a : Alias) : String :=
  "export type " ++ a.name ++ " = " ++ a.value.text ++ ";"

def fragments (a : Alias) : List Fragment :=
  docFragments a.doc ++ [.line a.statement]

end Alias

namespace Property

def statement (p : Property) : String :=
  (if p.redeclared then "new " else "") ++ p.name ++ ": " ++ p.type.text ++ ";"

end Property

namespace Member

/-- Documents a property, or replaces the text of a comment. -/
def withDoc (lines : List String) : Member → Member
  | .comment _ => .comment lines
  | .property p => .property { p with doc := lines }

/-- Marks a property as redeclared; a comment stays as it is. -/
def redeclared : Member → Member
  | .comment lines => .comment lines
  | .property p => .property { p with redeclared := true }

def isComment : Member → Bool
  | .comment _ => true
  | .property _ => false

def fragments : Member → List Fragment
  | .comment lines => [.doc lines]
  | .property p => docFragments p.doc ++ [.line p.statement]

end Member

namespace Interface

def header (i : Interface) : String :=
  match i.base with
  | some base => "export interface " ++ i.name ++ " extends " ++ base.text ++ " \x7b"
  | none => "export interface " ++ i.name ++ " \x7b"

/-- An interface without members closes on its header's line. -/
def fragments (i : Interface) : List Fragment :=
  docFragments i.doc ++
    if i.members.isEmpty then [.line (i.header ++ " \x7d")]
    else [.block i.header (i.members.flatMap Member.fragments) (some "\x7d")]

end Interface

end Ambient.TypeScript
