import Ambient.Code.Builder

/-!
# The lines that fragments write

A fragment is a list of lines, each a blank or a text at some depth below the
fragment's own. What a builder writes for it is these lines, indented from where
the builder stands, after all that was written before: `applyAll_eq`. Nothing else
about a builder matters to the text, and nothing about the fragments' nesting does.
-/

namespace Ambient.Code

/-- A line of code, as deep below its surroundings as the depth says. -/
inductive Line where
  | blank
  | text (depth : Nat) (content : String)
  deriving DecidableEq, Repr

namespace Line

def deeper : Line → Line
  | .blank => .blank
  | .text depth content => .text (depth + 1) content

/-- The line, its end included, where the surroundings stand at `depth`. -/
def writtenAt (depth : Nat) : Line → String
  | .blank => "\n"
  | .text below content => indentation (depth + below) ++ content ++ "\n"

theorem writtenAt_deeper (depth : Nat) (line : Line) :
    line.deeper.writtenAt depth = line.writtenAt (depth + 1) := by
  cases line with
  | blank => rfl
  | text below content =>
    show indentation (depth + (below + 1)) ++ content ++ "\n" = _
    rw [show depth + (below + 1) = depth + 1 + below by omega]
    rfl

end Line

def writtenAt (depth : Nat) : List Line → String
  | [] => ""
  | line :: rest => line.writtenAt depth ++ writtenAt depth rest

theorem writtenAt_append (depth : Nat) (first second : List Line) :
    writtenAt depth (first ++ second) = writtenAt depth first ++ writtenAt depth second := by
  induction first with
  | nil => rw [List.nil_append, writtenAt, String.empty_append]
  | cons line rest ih => rw [List.cons_append, writtenAt, writtenAt, ih, String.append_assoc]

theorem writtenAt_map_deeper (depth : Nat) (lines : List Line) :
    writtenAt depth (lines.map Line.deeper) = writtenAt (depth + 1) lines := by
  induction lines with
  | nil => rfl
  | cons line rest ih => rw [List.map_cons, writtenAt, writtenAt, ih, Line.writtenAt_deeper]

mutual

def Fragment.lines : Fragment → List Line
  | .line text => [.text 0 text]
  | .blank => [.blank]
  | .doc texts => (commentLines texts).map (.text 0)
  | .block header body close =>
    .text 0 header :: (fragmentLines body).map Line.deeper ++ close.toList.map (.text 0)

def fragmentLines : List Fragment → List Line
  | [] => []
  | fragment :: rest => fragment.lines ++ fragmentLines rest

end

namespace Builder

/-- The builder after these lines. -/
def written (b : Builder) (lines : List Line) : Builder :=
  { b with text := b.text ++ writtenAt b.depth lines }

theorem written_nil (b : Builder) : b.written [] = b := by
  unfold written
  rw [writtenAt, String.append_empty]

theorem written_append (b : Builder) (first second : List Line) :
    b.written (first ++ second) = (b.written first).written second := by
  unfold written
  rw [writtenAt_append, String.append_assoc]

theorem line_eq (b : Builder) (text : String) : b.line text = b.written [.text 0 text] := by
  unfold line written
  rw [writtenAt, writtenAt, String.append_empty, Line.writtenAt, Nat.add_zero]
  simp only [String.append_assoc]

theorem blank_eq (b : Builder) : b.blank = b.written [.blank] := by
  unfold blank written
  rw [writtenAt, writtenAt, String.append_empty]
  rfl

theorem lines_eq (b : Builder) (texts : List String) :
    b.lines texts = b.written (texts.map (.text 0)) := by
  induction texts generalizing b with
  | nil => exact (written_nil b).symm
  | cons text texts ih =>
    show (b.line text).lines texts = b.written ([.text 0 text] ++ texts.map (.text 0))
    rw [ih, line_eq, written_append]

/-- Lines written one level deeper. -/
theorem indented_eq (b : Builder) (lines : List Line) :
    b.indented (·.written lines) = b.written (lines.map Line.deeper) := by
  show ({ depth := b.depth + 1 - 1, text := b.text ++ writtenAt (b.depth + 1) lines } : Builder) = _
  rw [Nat.add_sub_cancel, ← writtenAt_map_deeper]
  rfl

mutual

theorem apply_eq (b : Builder) (fragment : Fragment) :
    b.apply fragment = b.written fragment.lines := by
  match fragment with
  | .line text => rw [apply, Fragment.lines, line_eq]
  | .blank => rw [apply, Fragment.lines, blank_eq]
  | .doc texts => rw [apply, Fragment.lines, doc, lines_eq]
  | .block header body close =>
    have hbody : (b.line header).indented (applyAll · body)
        = b.written (.text 0 header :: (fragmentLines body).map Line.deeper) := by
      rw [show (applyAll · body) = (·.written (fragmentLines body)) from
        funext fun b' => applyAll_eq b' body, indented_eq, line_eq, ← written_append]
      rfl
    cases close with
    | none =>
      simp only [apply, Fragment.lines]
      rw [hbody, Option.toList_none, List.map_nil, List.append_nil]
    | some text =>
      simp only [apply, Fragment.lines]
      rw [hbody, Option.toList_some, List.map_singleton, written_append, ← line_eq]

/-- What fragments write is their lines. -/
theorem applyAll_eq (b : Builder) (fragments : List Fragment) :
    b.applyAll fragments = b.written (fragmentLines fragments) := by
  match fragments with
  | [] => rw [applyAll, fragmentLines, written_nil]
  | fragment :: rest =>
    rw [applyAll, fragmentLines, written_append, apply_eq b fragment, applyAll_eq _ rest]

end

end Builder

/-! ## Whole lines -/

/-- The text ends where a line ends, or is empty. -/
def WholeLines (text : String) : Prop := text = "" ∨ ∃ before, text = before ++ "\n"

theorem WholeLines.append {first second : String} (hfirst : WholeLines first)
    (hsecond : WholeLines second) : WholeLines (first ++ second) := by
  rcases hsecond with rfl | ⟨before, rfl⟩
  · rw [String.append_empty]
    exact hfirst
  · exact .inr ⟨first ++ before, String.append_assoc.symm⟩

theorem wholeLines_writtenAt (depth : Nat) (lines : List Line) :
    WholeLines (writtenAt depth lines) := by
  induction lines with
  | nil => exact .inl rfl
  | cons line rest ih =>
    refine WholeLines.append ?_ ih
    cases line with
    | blank => exact .inr ⟨"", rfl⟩
    | text below content => exact .inr ⟨_, rfl⟩

end Ambient.Code
