import Ambient.Files.Tree

/-!
# Hosts

What a program needs of the system it runs on: reading files, writing files, and
two text streams. A workspace is a host that is a plain value.
-/

namespace Ambient

/-- A system with files, where `Handle` stands for a file that is open for writing. Every write
to a handle goes on where its last one ended. -/
class Host (m : Type → Type) (Handle : outParam Type) where
  read? : String → m (Option ByteArray)
  pathExists : String → m Bool
  isDirectory : String → m Bool
  /-- Opens an empty file, if one can be made there. -/
  create? : String → m (Option Handle)
  write : Handle → String → m Unit
  print : String → m Unit
  /-- Writes a line for the person at the terminal, beside the output. -/
  notify : String → m Unit

/-- A file that is open for writing. -/
structure OpenFile where
  location : Location
  offset : Nat := 0
  deriving DecidableEq, Inhabited

structure Workspace where
  tree : FileTree := {}
  openFiles : List OpenFile := []
  output : String := ""
  notices : List String := []
  deriving DecidableEq, Inhabited

namespace Workspace

abbrev WorkspaceM := StateM Workspace

/-- Writes to the open file of a number, and moves it on. -/
def writeTo (workspace : Workspace) (handle : Nat) (text : String) : Workspace :=
  match workspace.openFiles[handle]? with
  | none => workspace
  | some file =>
    let bytes := text.toUTF8
    { workspace with
      tree := workspace.tree.writeAt file.location file.offset bytes
      openFiles :=
        workspace.openFiles.set handle { file with offset := file.offset + bytes.size } }

instance : Host WorkspaceM Nat where
  read? path := return (← get).tree.read? path
  pathExists path := return (← get).tree.contains path
  isDirectory path := return (← get).tree.isDirectory path
  create? path := do
    let workspace ← get
    match workspace.tree.create? path with
    | none => return none
    | some (location, tree) =>
      let opened : OpenFile := { location }
      set { workspace with tree, openFiles := workspace.openFiles ++ [opened] }
      return some workspace.openFiles.length
  write handle text := modify (·.writeTo handle text)
  print text := modify fun workspace => { workspace with output := workspace.output ++ text }
  notify text := modify fun workspace => { workspace with notices := workspace.notices ++ [text] }

end Workspace

end Ambient
