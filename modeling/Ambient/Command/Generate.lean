import Ambient.Command.Report
import Ambient.Command.Select

/-!
# Generating declarations

Declarations are rendered into a target as a whole: the target is opened first, and
whatever was rendered is written, also when the rendering ends early. With no
tables there is nothing to render, and the target is not touched.
-/

namespace Ambient

inductive GenerateError where
  | output (error : OutputError)
  | lookup (failure : LookupFailure)
  deriving DecidableEq, Inhabited, Repr

def GenerateError.message : GenerateError → String
  | .output error => error.message
  | .lookup failure => failure.message

/-- What generating comes to, and the session it leaves. -/
structure Generation where
  result : Except GenerateError RenderSummary
  session : Session

variable {m : Type → Type} {Handle : Type} [Monad m] [Host m Handle]

/-- Renders tables into a target. -/
def generate (mode : RenderMode) (tables : List Table) (target : OutputTarget)
    (connection : Connection) (session : Session) : m Generation := do
  if tables.isEmpty then return { result := .ok {}, session }
  match ← target.openSink with
  | .error error => return { result := .error (.output error), session }
  | .ok sink =>
    let rendering := render mode tables connection session
    sink.write rendering.document.text
    return { result := rendering.result.mapError .lookup, session := rendering.session }

/-! ## The command -/

structure GenerateOptions where
  output : Option String := none
  overwrite : Bool := false
  mode : RenderMode := .scoped
  tables : List String := []
  deriving DecidableEq, Inhabited, Repr

def GenerateOptions.target (options : GenerateOptions) : OutputTarget :=
  match options.output with
  | some path => .file path (if options.overwrite then .always else .never)
  | none => .standardOutput

inductive CommandError where
  | select (error : SelectError)
  | generate (error : GenerateError)
  deriving DecidableEq, Inhabited, Repr

def CommandError.message : CommandError → String
  | .select error => error.message
  | .generate error => "Failed to generate declarations: " ++ error.message

/-- Nobody can cancel the work that goes through this connection. -/
def Connection.uncancelled (connection : Connection) : Connection :=
  { connection with cancels := fun _ _ => false }

/-- Selects tables and generates their declarations. -/
def generateSelected (options : GenerateOptions) (connection : Connection) :
    m (Except CommandError GenerateReport) := do
  let connection := connection.uncancelled
  match selectTables options.tables connection {} with
  | (.error error, _) => return .error (.select error)
  | (.ok tables, session) =>
    let target := options.target
    match (← generate options.mode tables target connection session).result with
    | .error error => return .error (.generate error)
    | .ok summary => return .ok { target, summary }

end Ambient
