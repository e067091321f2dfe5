/-!
# References to types

A reference names a type from where it is written: the names of namespaces, from
the outside in, and the name of the type last. The types that declarations are made
of combine at most three references.
-/

namespace Ambient.TypeScript

structure Reference where
  segments : List String
  deriving DecidableEq, Inhabited, Repr

namespace Reference

/-- A name without a namespace. -/
def named (name : String) : Reference := ⟨[name]⟩

def text (reference : Reference) : String :=
  ".".intercalate reference.segments

end Reference

inductive TypeExpr where
  | plain (type : Reference)
  | intersection (left right : Reference)
  | applied (head first second : Reference)
  deriving DecidableEq, Inhabited, Repr

namespace TypeExpr

def text : TypeExpr → String
  | .plain type => type.text
  | .intersection left right => left.text ++ " & " ++ right.text
  | .applied head first second =>
    head.text ++ "<" ++ first.text ++ ", " ++ second.text ++ ">"

/-- The references a type is made of, in the order in which they are written. -/
def references : TypeExpr → List Reference
  | .plain type => [type]
  | .intersection left right => [left, right]
  | .applied head first second => [head, first, second]

end TypeExpr

end Ambient.TypeScript
