/-!
# Places in a text

Offsets count bytes of UTF-8. A place is written either as an offset or as a line
and a column, both from one, where the column counts bytes of its line. The first
occurrence of a text in another is a place too.

Offsets, lines and columns are words of 64 bits. A text in memory is shorter than words
go, but a line and a column may be any two words.
-/

namespace Ambient.Text

/-- Bytes that the characters take in UTF-8. -/
def byteLength (cs : List Char) : Nat :=
  cs.foldr (fun c bytes => c.utf8Size + bytes) 0

@[simp]
theorem byteLength_nil : byteLength [] = 0 := rfl

@[simp]
theorem byteLength_cons (c : Char) (cs : List Char) :
    byteLength (c :: cs) = c.utf8Size + byteLength cs := rfl

@[simp]
theorem byteLength_append (as bs : List Char) :
    byteLength (as ++ bs) = byteLength as + byteLength bs := by
  induction as with
  | nil => simp
  | cons c as ih => rw [List.cons_append, byteLength_cons, ih, byteLength_cons, Nat.add_assoc]

/-- Offset at which the line after `skipped` line feeds starts, or the end of the text if it
has fewer. -/
def lineStart : (skipped : Nat) → List Char → Nat
  | 0, _ => 0
  | _ + 1, [] => 0
  | skipped + 1, c :: cs =>
    c.utf8Size + if c = '\n' then lineStart skipped cs else lineStart (skipped + 1) cs

theorem lineStart_le_byteLength (skipped : Nat) (cs : List Char) :
    lineStart skipped cs ≤ byteLength cs := by
  induction cs generalizing skipped with
  | nil => cases skipped <;> simp [lineStart]
  | cons c cs ih =>
    cases skipped with
    | zero => simp [lineStart]
    | succ skipped =>
      have := ih skipped
      have := ih (skipped + 1)
      unfold lineStart
      rw [byteLength_cons]
      split <;> omega

/-- The offset of a line and column, kept inside the text. There is no line zero, and column
zero is taken as the first. A sum that is no word any more begins from zero again. -/
def offsetOf (source : String) (line column : Nat) : Option Nat :=
  if line = 0 then none
  else
    let sum := (lineStart (line - 1) source.toList + (column - 1)) % UInt64.size
    some (min sum (byteLength source.toList - 1))

/-- Line feeds in the first `offset` bytes, and the bytes after the last of them. -/
def lineFeedsBefore : (offset : Nat) → List Char → Nat × Nat
  | 0, _ => (0, 0)
  | offset + 1, [] => (0, offset + 1)
  | offset + 1, c :: cs =>
    let (lines, column) := lineFeedsBefore (offset + 1 - c.utf8Size) cs
    if c = '\n' then (lines + 1, column)
    else if lines = 0 then (0, column + min (offset + 1) c.utf8Size)
    else (lines, column)

/-- Line of the byte that follows the first `offset` bytes, and how many bytes of that line
are among them. -/
def lineColumn (source : String) (offset : Nat) : Nat × Nat :=
  let (lines, column) := lineFeedsBefore offset source.toList
  (lines + 1, column)

/-- Offset of the first occurrence of `pattern`. -/
def occurrence? (pattern : List Char) : List Char → Option Nat
  | [] => if pattern.isEmpty then some 0 else none
  | c :: cs =>
    if pattern.isPrefixOf (c :: cs) then some 0
    else (occurrence? pattern cs).map (· + c.utf8Size)

end Ambient.Text
