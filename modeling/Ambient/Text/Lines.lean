import Ambient.Text.Blank
import Ambient.Text.Split

/-!
# The lines of free text

`textLines` brings a free text into the lines a comment can show: no line ends
in blanks, and neither the first nor the last line is blank.
-/

namespace Ambient.Text

/-- The lines of `text` without blanks at their ends, from the first line that shows
something to the last one that does. -/
def textLines (text : String) : List String :=
  let lines := (splitAt '\n' text.toList).map (dropEndWhile isBlank)
  (dropEndWhile List.isEmpty (lines.dropWhile List.isEmpty)).map String.ofList

end Ambient.Text
