import Ambient.Code.Fragment

/-!
# Indented code

A builder holds the text written so far and the depth at which the next line will
stand. Every line is indented by two spaces for each level and ends in a line
feed; a blank line is a line feed alone, at any depth.
-/

namespace Ambient.Code

structure Builder where
  depth : Nat := 0
  text : String := ""
  deriving DecidableEq, Inhabited, Repr

def indentUnit : String := "  "

def indentation : Nat → String
  | 0 => ""
  | depth + 1 => indentUnit ++ indentation depth

/-- Keeps a comment open: the characters that would close it are separated by a backslash. -/
def escapeComment : List Char → List Char
  | '*' :: '/' :: rest => '*' :: '\\' :: '/' :: escapeComment rest
  | c :: rest => c :: escapeComment rest
  | [] => []

def commentText (text : String) : String :=
  String.ofList (escapeComment text.toList)

namespace Builder

def isEmpty (b : Builder) : Bool := b.text.isEmpty

def line (b : Builder) (text : String) : Builder :=
  { b with text := b.text ++ indentation b.depth ++ text ++ "\n" }

def blank (b : Builder) : Builder :=
  { b with text := b.text ++ "\n" }

def deeper (b : Builder) : Builder :=
  { b with depth := b.depth + 1 }

def shallower (b : Builder) : Builder :=
  { b with depth := b.depth - 1 }

/-- What `body` writes stands one level deeper. -/
def indented (b : Builder) (body : Builder → Builder) : Builder :=
  (body b.deeper).shallower

def lines (b : Builder) (texts : List String) : Builder :=
  texts.foldl line b

end Builder

/-- The lines of a documentation comment: none for no text, one for a single text, and a block
of its own for several. -/
def commentLines : List String → List String
  | [] => []
  | [text] => ["/** " ++ commentText text ++ " */"]
  | texts =>
    "/**" :: texts.map (fun text => if text.isEmpty then " *" else " * " ++ commentText text)
      ++ [" */"]

namespace Builder

def doc (b : Builder) (texts : List String) : Builder :=
  b.lines (commentLines texts)

mutual

def apply (b : Builder) : Fragment → Builder
  | .line text => b.line text
  | .blank => b.blank
  | .doc texts => b.doc texts
  | .block header body close =>
    let written := (b.line header).indented (applyAll · body)
    match close with
    | some text => written.line text
    | none => written

def applyAll (b : Builder) : List Fragment → Builder
  | [] => b
  | fragment :: rest => (b.apply fragment).applyAll rest

end

/-! ## What writing leaves as it was -/

@[simp]
theorem depth_line (b : Builder) (text : String) : (b.line text).depth = b.depth := rfl

@[simp]
theorem depth_blank (b : Builder) : b.blank.depth = b.depth := rfl

@[simp]
theorem depth_lines (b : Builder) (texts : List String) : (b.lines texts).depth = b.depth := by
  induction texts generalizing b with
  | nil => rfl
  | cons text texts ih => exact (ih (b.line text)).trans (depth_line b text)

@[simp]
theorem depth_doc (b : Builder) (texts : List String) : (b.doc texts).depth = b.depth :=
  depth_lines b (commentLines texts)

/-- A body that keeps its depth brings the builder back to where it was. -/
theorem depth_indented {b : Builder} {body : Builder → Builder}
    (h : (body b.deeper).depth = b.deeper.depth) : (b.indented body).depth = b.depth := by
  rw [indented, shallower, h]
  rfl

mutual

@[simp]
theorem depth_apply (b : Builder) (fragment : Fragment) : (b.apply fragment).depth = b.depth := by
  match fragment with
  | .line text => simp [apply]
  | .blank => simp [apply]
  | .doc texts => simp [apply]
  | .block header body close =>
    have h : ((b.line header).indented (applyAll · body)).depth = b.depth := by
      rw [depth_indented (depth_applyAll _ body), depth_line]
    cases close <;> simpa [apply] using h

@[simp]
theorem depth_applyAll (b : Builder) (fragments : List Fragment) :
    (b.applyAll fragments).depth = b.depth := by
  match fragments with
  | [] => simp [applyAll]
  | fragment :: rest =>
    rw [applyAll, depth_applyAll _ rest, depth_apply b fragment]

end

theorem applyAll_append (b : Builder) (first second : List Fragment) :
    b.applyAll (first ++ second) = (b.applyAll first).applyAll second := by
  induction first generalizing b with
  | nil => simp [applyAll]
  | cons fragment rest ih => simp [applyAll, ih]

end Builder

end Ambient.Code
