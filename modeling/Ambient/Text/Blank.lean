import Ambient.Text.End

/-!
# Blank characters and trimmed text

A character is blank when it has the Unicode property `White_Space`. Trimming
drops blanks at the two ends and nothing in between; an attribute that is blank
throughout counts as absent wherever a name is wanted.
-/

namespace Ambient.Text

/-- The code points with the property `White_Space`, as inclusive ranges. -/
def blankRanges : List (Nat × Nat) :=
  [(0x0009, 0x000D), (0x0020, 0x0020), (0x0085, 0x0085), (0x00A0, 0x00A0), (0x1680, 0x1680),
   (0x2000, 0x200A), (0x2028, 0x2029), (0x202F, 0x202F), (0x205F, 0x205F), (0x3000, 0x3000)]

def isBlank (c : Char) : Bool :=
  blankRanges.any fun range => range.1 ≤ c.toNat && c.toNat ≤ range.2

def trim (text : String) : String :=
  String.ofList (dropEndWhile isBlank (text.toList.dropWhile isBlank))

/-- Nothing but blanks, the empty text included. -/
def isBlankText (text : String) : Bool :=
  text.toList.all isBlank

/-- The text as it stands, unless it is blank. -/
def nonBlank? (text : String) : Option String :=
  if isBlankText text then none else some text

/-- The trimmed value of an optional attribute; a blank one counts as absent. -/
def present? (value : Option String) : Option String :=
  (value.map trim).filter (! ·.isEmpty)

end Ambient.Text
