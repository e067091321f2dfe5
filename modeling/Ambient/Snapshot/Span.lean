import Ambient.Text.Position

/-!
# Spans

A span points at the part of a source text that an error is about.
-/

namespace Ambient

/-- A range of bytes. -/
structure Span where
  offset : Nat
  length : Nat
  deriving DecidableEq, Inhabited, Repr

namespace Span

/-- One byte, at the place where reading stopped after `taken` bytes. -/
def ofTaken (source : String) (taken : Nat) : Option Span :=
  let (line, column) := Text.lineColumn source taken
  (Text.offsetOf source line column).map fun offset => { offset, length := 1 }

/-- Where a name stands in a source: at the end of a dotted header if it stands there, else
inside one, else in quotes, else wherever it occurs first. -/
def ofName (source name : String) : Option Span :=
  let find (pattern : String) := Text.occurrence? pattern.toList source.toList
  let inside (pattern : String) := (find pattern).map (· + 1)
  let offset? :=
    inside ("." ++ name ++ "]")
      |>.or (inside ("." ++ name ++ "."))
      |>.or (inside ("\"" ++ name ++ "\""))
      |>.or (find name)
  offset?.map fun offset => { offset, length := name.utf8ByteSize }

end Span

end Ambient
