import Ambient.Files.Host

/-!
# Output targets

Output goes to the standard output or to a file. A file that exists is replaced
only where that is allowed, and the check comes before anything is opened, so a
refused target keeps its content.
-/

namespace Ambient

inductive Overwrite where
  | always
  | never
  deriving DecidableEq, Inhabited, Repr

inductive OutputTarget where
  | standardOutput
  | file (path : String) (overwrite : Overwrite)
  deriving DecidableEq, Inhabited, Repr

inductive OutputError where
  | destinationExists (path : String)
  | parentMissing (path : String)
  /-- The file could not be made. -/
  | unwritable (path : String)
  deriving DecidableEq, Inhabited, Repr

def OutputError.message : OutputError → String
  | .destinationExists path => "'" ++ path ++ "' already exists (pass --overwrite to replace it)"
  | .parentMissing path => "parent directory of '" ++ path ++ "' does not exist"
  | .unwritable path => "failed to write '" ++ path ++ "'"

/-- Where opened output goes. -/
inductive Sink (Handle : Type) where
  | standardOutput
  | file (path : String) (handle : Handle)

namespace OutputTarget

/-- The path shown to people. -/
def displayPath : OutputTarget → String
  | .standardOutput => "<stdout>"
  | .file path _ => path

variable {m : Type → Type} {Handle : Type} [Monad m] [Host m Handle]

/-- Whether the target can be opened, as far as this shows without opening it. -/
def check : OutputTarget → m (Except OutputError Unit)
  | .standardOutput => return .ok ()
  | .file path overwrite => do
    if (← Host.pathExists path) && overwrite = .never then
      return .error (.destinationExists path)
    match Path.parent? path with
    | some parent =>
      if parent.isEmpty then return .ok ()
      else if ← Host.isDirectory parent then return .ok ()
      else return .error (.parentMissing path)
    | none => return .ok ()

def openSink (target : OutputTarget) : m (Except OutputError (Sink Handle)) := do
  match ← target.check with
  | .error error => return .error error
  | .ok () =>
    match target with
    | .standardOutput => return .ok .standardOutput
    | .file path _ =>
      match ← Host.create? path with
      | some handle => return .ok (.file path handle)
      | none => return .error (.unwritable path)

end OutputTarget

namespace Sink

variable {m : Type → Type} {Handle : Type} [Host m Handle]

def path : Sink Handle → String
  | .standardOutput => "<stdout>"
  | .file path _ => path

def write (sink : Sink Handle) (text : String) : m Unit :=
  match sink with
  | .standardOutput => Host.print text
  | .file _ handle => Host.write handle text

end Sink

end Ambient
