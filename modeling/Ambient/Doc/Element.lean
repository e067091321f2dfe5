import Ambient.Doc.Comment
import Ambient.Schema.Element
import Ambient.Schema.Scalar
import Ambient.Text.Lines

/-!
# Comments on elements

The comment on an element shows its label, its own comments, and what the
metadata says of its type, flags, default value and package.
-/

namespace Ambient.Doc

/-- Type, maximal length and size class. With `explicit`, the type's name is shown beside its
display name, and the length of an unbounded list is left out. -/
def typeLine (element : Element) (type : Option ScalarType) (explicit : Bool) : Option String :=
  let name := Text.trim ((type.map (·.name)).getD element.typeName)
  let typeClause :=
    match type.bind (·.distinctDisplayName?) with
    | some display =>
      if explicit then "Type: " ++ display ++ " (" ++ name ++ ")" else "Type: " ++ display
    | none => "Type: " ++ name
  let lengthClauses :=
    match element.maxLength with
    | some n =>
      clauseIf (0 < n && ! (explicit && Scalar.isUnboundedList name))
        ("Max Length: " ++ toString n.toNat)
    | none => []
  let sizeClauses :=
    match element.sizeClass with
    | some n => ["Size Class: " ++ toString n.toNat]
    | none => []
  clauses (clauseIf (! name.isEmpty) typeClause ++ lengthClauses ++ sizeClauses)

/-- The flags that tell something. A primary element is not called mandatory as well. -/
def flagsLine (flags : ElementFlags) : Option String :=
  clauses <|
    clauseIf flags.primary "Is Primary: true"
      ++ clauseIf (! flags.primary && flags.mandatory) "Is Mandatory: true"
      ++ clauseIf flags.array "Is Array: true"
      ++ clauseIf flags.readOnly "Is Read-only: true"
      ++ clauseIf flags.display "Is Display: true"
      ++ clauseIf flags.calculated "Is Calculated: true"
      ++ clauseIf flags.unique "Is Unique: true"
      ++ clauseIf (! flags.active) "Is Active: false"

def defaultValueLine (value : Option String) : Option String :=
  (value.filter (! ·.isEmpty)).map fun value => "Default Value: " ++ Text.quoted value

/-- The comment on an element, given what its type and package were found to be. -/
def elementDoc (element : Element) (type : Option ScalarType) (package : Option Package)
    (explicit : Bool) : List String :=
  let lines := element.labelOrName :: (element.comments.map Text.textLines).getD []
  let lines := withSection lines (typeLine element type explicit)
  let lines := withSection lines (flagsLine element.flags)
  let lines := withSection lines (defaultValueLine element.defaultValue)
  withSection lines (packageLine package element.package)

end Ambient.Doc
