/-!
# ASCII case

Type names and file extensions are compared without regard to ASCII case; letters
outside ASCII keep theirs.
-/

namespace Ambient.Text

/-- `Char.toLower` changes the letters `A` to `Z` and nothing else. -/
def asciiLower (text : String) : String :=
  String.ofList (text.toList.map Char.toLower)

/-- Equal up to ASCII case. -/
def sameIgnoringCase (a b : String) : Bool :=
  asciiLower a == asciiLower b

end Ambient.Text
