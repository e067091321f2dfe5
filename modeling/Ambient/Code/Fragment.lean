/-!
# Fragments of code

Generated declarations describe themselves as fragments. A fragment knows nothing
of the depth at which it will stand.
-/

namespace Ambient.Code

inductive Fragment where
  | line (text : String)
  | blank
  /-- A header, a body one level deeper, and a closing line if there is one. -/
  | block (header : String) (body : List Fragment) (close : Option String)
  /-- A documentation comment; an empty entry is a separator line. -/
  | doc (lines : List String)
  deriving Inhabited, Repr

end Ambient.Code
