import Ambient.Text.End
import Ambient.Text.Split

/-!
# Paths

A path is a text whose pieces are separated by slashes. Where it is taken apart,
repeated slashes, slashes at the end and pieces `.` count for nothing, except for
`.` at the very beginning.
-/

namespace Ambient.Path

/-- What stands between the slashes, empty pieces included. -/
def pieces (path : String) : List String :=
  (Text.splitAt '/' path.toList).map String.ofList

/-- Whether a piece after the first one counts for nothing. -/
def isIdle (piece : String) : Bool :=
  piece.isEmpty || piece == "."

def isAbsolute (path : String) : Bool :=
  path.toList.head? == some '/'

/-- The steps a path is made of, the root directory being the step `/`. -/
def components (path : String) : List String :=
  let steps := (pieces path).filter (! isIdle ·)
  if isAbsolute path then "/" :: steps
  else if (pieces path).head? == some "." then "." :: steps
  else steps

/-- The path without its last component, as it is written; the root directory and the empty path
have no parent. -/
def parent? (path : String) : Option String :=
  match pieces path with
  | [] => none
  | first :: rest =>
    let rest := Text.dropEndWhile isIdle rest
    if rest.isEmpty then
      if first.isEmpty then none else some ""
    else
      let above := Text.dropEndWhile isIdle rest.dropLast
      if first.isEmpty && above.isEmpty then some "/"
      else some ("/".intercalate (first :: above))

/-- The last component, if it names an entry of a directory. -/
def fileName? (path : String) : Option String :=
  (components path).getLast?.filter fun name => name != "/" && name != "." && name != ".."

/-- What follows the last dot of the file name. A dot at the beginning of a name is part of it. -/
def extension? (path : String) : Option String :=
  (fileName? path).bind fun name =>
    match (Text.splitAt '.' name.toList).reverse with
    | last :: before :: earlier =>
      if before.isEmpty && earlier.isEmpty then none else some (String.ofList last)
    | _ => none

end Ambient.Path
