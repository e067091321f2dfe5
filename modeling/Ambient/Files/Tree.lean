import Ambient.Files.Path
import Ambient.NameMap

/-!
# File trees

A tree of directories and files below the working directory. A path is followed
piece by piece: every piece but the last one has to lead to a directory, and so does
the last one if a slash follows it. A path can leave the tree, upward or by starting
at the root of all files; out there the directories on the way are all that is known.
-/

namespace Ambient

inductive Node where
  | directory
  | file (content : ByteArray)
  deriving Inhabited

instance : DecidableEq Node
  | .directory, .directory => .isTrue rfl
  | .directory, .file _ => .isFalse nofun
  | .file _, .directory => .isFalse nofun
  | .file a, .file b =>
    match ByteArray.instDecidableEq a b with
    | .isTrue h => .isTrue (congrArg Node.file h)
    | .isFalse h => .isFalse fun heq => h (Node.file.inj heq)

/-- The names that lead from the working directory to an entry. Outside of it they begin with
`/`, or with as many `..` as there are steps upward. -/
abbrev Location := List String

namespace Location

/-- Whether the location is one of those above all known names. -/
def isAbove (location : Location) : Bool :=
  location.all fun name => name == ".." || name == "/"

/-- The directory above. The root is above itself. -/
def up (location : Location) : Location :=
  if location == ["/"] then location
  else if location.isAbove then location ++ [".."]
  else location.dropLast

end Location

/-- Entries by the names that lead to them, with slashes between. -/
structure FileTree where
  entries : NameMap Node := ∅
  deriving DecidableEq, Inhabited

namespace FileTree

def key (location : Location) : String :=
  "/".intercalate location

def node? (tree : FileTree) (location : Location) : Option Node :=
  if location.isAbove then some .directory else tree.entries.get? (key location)

def put (tree : FileTree) (location : Location) (node : Node) : FileTree :=
  ⟨tree.entries.insert (key location) node⟩

def isDirectoryAt (tree : FileTree) (location : Location) : Bool :=
  match tree.node? location with
  | some .directory => true
  | _ => false

/-- Follows pieces of a path from a location to an entry that exists. -/
def follow (tree : FileTree) (location : Location) : List String → Option Location
  | [] => some location
  | piece :: rest =>
    if ! tree.isDirectoryAt location then none
    else if piece.isEmpty || piece == "." then tree.follow location rest
    else if piece == ".." then tree.follow location.up rest
    else
      let next := location ++ [piece]
      if (tree.node? next).isSome then tree.follow next rest else none

/-- Longer names are refused. -/
def maxNameBytes : Nat := 255

/-- Longer paths are refused. -/
def maxPathBytes : Nat := 4095

/-- Whether a path can lead anywhere: it is not empty, holds no NUL, and neither the path nor a
name in it is too long. -/
def isUsable (path : String) : Bool :=
  ! path.isEmpty && ! path.toList.contains '\x00' && path.utf8ByteSize ≤ maxPathBytes
    && (Path.pieces path).all fun piece => piece.utf8ByteSize ≤ maxNameBytes

/-- Where a path starts. -/
def start (path : String) : Location :=
  if Path.isAbsolute path then ["/"] else []

/-- Where a path leads, if there is an entry. -/
def locate? (tree : FileTree) (path : String) : Option Location :=
  if isUsable path then tree.follow (start path) (Path.pieces path) else none

def contains (tree : FileTree) (path : String) : Bool :=
  (tree.locate? path).isSome

def isDirectory (tree : FileTree) (path : String) : Bool :=
  (tree.locate? path).any tree.isDirectoryAt

def read? (tree : FileTree) (path : String) : Option ByteArray :=
  match (tree.locate? path).bind tree.node? with
  | some (.file content) => some content
  | _ => none

/-- Where a file would be made for a path that leads to no entry: under a plain name in a
directory that exists. -/
def newLocation? (tree : FileTree) (path : String) : Option Location :=
  let pieces := Path.pieces path
  match pieces.getLast? with
  | some name =>
    if ! isUsable path || name.isEmpty || name == "." || name == ".." then none
    else
      ((tree.follow (start path) pieces.dropLast).filter tree.isDirectoryAt).map (· ++ [name])
  | none => none

/-- Makes an empty file, or empties the one that is there. -/
def create? (tree : FileTree) (path : String) : Option (Location × FileTree) :=
  match tree.locate? path with
  | some location =>
    if tree.isDirectoryAt location then none
    else some (location, tree.put location (.file ByteArray.empty))
  | none =>
    (tree.newLocation? path).map fun location =>
      (location, tree.put location (.file ByteArray.empty))

/-- Bytes put over `content` from `offset` on. A gap is filled with zeros; no bytes leave the
content as it is. -/
def overwriteBytes (content : ByteArray) (offset : Nat) (bytes : ByteArray) : ByteArray :=
  if bytes.isEmpty then content
  else
    let gap := ByteArray.mk (Array.replicate (offset - content.size) 0)
    content.extract 0 offset ++ gap ++ bytes
      ++ content.extract (offset + bytes.size) content.size

/-- Writes into a file from `offset` on. -/
def writeAt (tree : FileTree) (location : Location) (offset : Nat) (bytes : ByteArray) :
    FileTree :=
  match tree.node? location with
  | some (.file content) => tree.put location (.file (overwriteBytes content offset bytes))
  | _ => tree

/-! ## Building a tree -/

/-- Adds a directory with the directories above it. -/
def withDirectory (tree : FileTree) (path : String) : FileTree :=
  go (start path) (Path.components path) tree
where
  go (location : Location) : List String → FileTree → FileTree
    | [], tree => tree
    | name :: names, tree =>
      if name == "/" || name == "." then go location names tree
      else if name == ".." then go location.up names tree
      else go (location ++ [name]) names (tree.put (location ++ [name]) .directory)

/-- Adds a file with the directories above it, or replaces its content. -/
def withFile (tree : FileTree) (path : String) (content : ByteArray) : FileTree :=
  match (tree.withDirectory ((Path.parent? path).getD "")).create? path with
  | some (location, tree) => tree.put location (.file content)
  | none => tree

/-- Every file below the working directory with the path to it. -/
def files (tree : FileTree) : List (String × ByteArray) :=
  tree.entries.toList.filterMap fun (path, node) =>
    match node with
    | .file content =>
      if Path.isAbsolute path || (Path.pieces path).head? == some ".." then none
      else some (path, content)
    | .directory => none

end FileTree

end Ambient
