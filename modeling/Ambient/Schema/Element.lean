import Ambient.Text.Blank

/-!
# Elements

An element is a column of a table: its name, the table that owns it, and its
attributes.
-/

namespace Ambient

structure ElementFlags where
  primary : Bool := false
  mandatory : Bool := false
  active : Bool := true
  array : Bool := false
  readOnly : Bool := false
  display : Bool := false
  calculated : Bool := false
  unique : Bool := false
  deriving DecidableEq, Inhabited, Repr

/-- What the metadata says of an element besides its name and owner. -/
structure ElementAttributes where
  label : String := ""
  typeName : String := ""
  reference : Option String := none
  maxLength : Option UInt32 := none
  sizeClass : Option UInt32 := none
  flags : ElementFlags := {}
  defaultValue : Option String := none
  comments : Option String := none
  package : Option String := none
  deriving DecidableEq, Inhabited, Repr

structure Element extends ElementAttributes where
  name : String
  table : String := ""
  deriving DecidableEq, Inhabited, Repr

namespace Element

def labelOrName (element : Element) : String :=
  (Text.nonBlank? element.label).getD element.name

end Element

end Ambient
