import Ambient.Snapshot.Format
import Ambient.Snapshot.Json
import Ambient.Snapshot.Span
import Ambient.Snapshot.Toml
import Ambient.Snapshot.Validation

/-!
# Reading snapshots

A text is read in its format and the snapshot is validated. Faults of JSON point
at the place where reading stopped, violations at the name they are about.
-/

namespace Ambient

inductive SnapshotError where
  /-- The file cannot be read, or it is no text. -/
  | unreadable (path : String)
  | toml
  | json (span : Option Span)
  | invalid (violation : Violation) (span : Option Span)
  deriving DecidableEq, Inhabited, Repr

namespace SnapshotError

def message : SnapshotError → String
  | .unreadable path => "failed to read '" ++ path ++ "'"
  | .toml | .json _ => "failed to parse snapshot"
  | .invalid violation _ => violation.message

/-- What a person may do about the error. -/
def help? : SnapshotError → Option String
  | .unreadable _ => some "export a metadata snapshot as TOML or JSON"
  | _ => none

def code? : SnapshotError → Option String
  | .unreadable _ => none
  | .toml | .json _ => some "glidetypes::parse_error"
  | .invalid _ _ => some "glidetypes::validation_error"

end SnapshotError

namespace Snapshot

/-- Reads a text as a snapshot, valid or not. -/
def decode (content : String) : SnapshotFormat → Except SnapshotError Snapshot
  | .toml =>
    match SnapshotFile.Toml.read? content with
    | some snapshot => .ok snapshot
    | none => .error .toml
  | .json =>
    match SnapshotFile.Json.read content with
    | .ok snapshot => .ok snapshot
    | .error taken => .error (.json (Span.ofTaken content taken))

/-- Reads a text as a valid snapshot. -/
def parse (content : String) (format : SnapshotFormat) : Except SnapshotError Snapshot := do
  let snapshot ← decode content format
  match snapshot.violation? with
  | none => return snapshot
  | some violation => throw (.invalid violation (Span.ofName content violation.name))

/-- Reads the content of a file in the format that its path tells. -/
def ofFile (path : String) (content : Option ByteArray) : Except SnapshotError Snapshot :=
  match content.bind String.fromUTF8? with
  | none => .error (.unreadable path)
  | some text => parse text (.ofPath path)

end Snapshot

end Ambient
