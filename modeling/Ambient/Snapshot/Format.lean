import Ambient.Files.Path
import Ambient.Text.AsciiCase

/-!
# Snapshot formats
-/

namespace Ambient

inductive SnapshotFormat where
  | toml
  | json
  deriving DecidableEq, Inhabited, Repr

/-- Files called `.json`, in any case, are JSON; all others are TOML. -/
def SnapshotFormat.ofPath (path : String) : SnapshotFormat :=
  if (Path.extension? path).any (Text.sameIgnoringCase · "json") then .json else .toml

end Ambient
