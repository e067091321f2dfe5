import Ambient.Schema.Element
import Ambient.Text.AsciiCase

/-!
# What becomes of an inherited element

An element may have a counterpart, an element of the same name further up. What is
written for it depends on how the two differ: in the shape of the field, in its
documentation only, or not at all.
-/

namespace Ambient

inductive Disposition where
  /-- No counterpart: the table's own field. -/
  | own
  /-- As the counterpart: nothing to write. -/
  | inherited
  /-- Same shape, other documentation. -/
  | redocumented
  /-- Another shape. -/
  | redeclared
  deriving DecidableEq, Inhabited, Repr

namespace Element

/-- Whether two elements declare the same field: type, referenced table, length and whether it
is an array. -/
def sameShape (a b : Element) : Bool :=
  Text.sameIgnoringCase (Text.trim a.typeName) (Text.trim b.typeName)
    && Text.present? a.reference == Text.present? b.reference
    && a.maxLength.getD 0 == b.maxLength.getD 0
    && a.flags.array == b.flags.array

/-- Whether two elements are documented alike. -/
def sameDocumentation (a b : Element) : Bool :=
  Text.trim a.label == Text.trim b.label
    && Text.present? a.comments == Text.present? b.comments
    && Text.present? a.defaultValue == Text.present? b.defaultValue
    && a.sizeClass == b.sizeClass
    && Text.present? a.package == Text.present? b.package
    && a.flags == b.flags

def disposition (element : Element) (counterpart : Option Element) : Disposition :=
  match counterpart with
  | none => .own
  | some ancestor =>
    if ! element.sameShape ancestor then .redeclared
    else if ! element.sameDocumentation ancestor then .redocumented
    else .inherited

end Element

end Ambient
