import Ambient.Code.Step
import Ambient.Proofs.Code.Lines

/-!
# Steps write the same lines at every depth

A sequence of steps is a list of lines, as a fragment is one: `stepLines`. The list is
told from the steps alone. The builder they are run on decides only how far in the lines
stand, and has its own depth back in the end, however deep the steps are nested.
-/

namespace Ambient.Code

/-! ## Spaces -/

/-- Indentation is two spaces for each level. -/
theorem toList_indentation (depth : Nat) :
    (indentation depth).toList = List.replicate (2 * depth) ' ' := by
  induction depth with
  | zero => rfl
  | succ depth ih =>
    rw [indentation, String.toList_append, ih, Nat.mul_succ, Nat.add_comm,
      ← List.replicate_append_replicate]
    rfl

/-- The characters of a line where its surroundings stand at `depth`: for a blank a line feed
alone, for a text two spaces for each level above it, the text and a line feed. -/
def Line.spelled (depth : Nat) : Line → List Char
  | .blank => ['\n']
  | .text below content => List.replicate (2 * (depth + below)) ' ' ++ content.toList ++ ['\n']

theorem Line.toList_writtenAt (depth : Nat) (line : Line) :
    (line.writtenAt depth).toList = line.spelled depth := by
  cases line with
  | blank =>
    rw [writtenAt, spelled]
    rfl
  | text below content =>
    rw [writtenAt, spelled, String.toList_append, String.toList_append, toList_indentation]
    rfl

theorem toList_writtenAt (depth : Nat) (lines : List Line) :
    (writtenAt depth lines).toList = lines.flatMap (Line.spelled depth) := by
  induction lines with
  | nil => rfl
  | cons line rest ih =>
    rw [writtenAt, String.toList_append, Line.toList_writtenAt, ih, List.flatMap_cons]

/-! ## Steps -/

mutual

/-- The lines that a step writes, as far in as they stand from where it is run. -/
def Step.lines : Step → List Line
  | .line text => [.text 0 text]
  | .blank => [.blank]
  | .doc texts => (commentLines texts).map (.text 0)
  | .fragments fragments => fragmentLines fragments
  | .indented steps => (stepLines steps).map Line.deeper

def stepLines : List Step → List Line
  | [] => []
  | step :: rest => step.lines ++ stepLines rest

end

mutual

theorem Step.run_eq (b : Builder) (step : Step) : step.run b = b.written step.lines := by
  match step with
  | .line text => rw [Step.run, Step.lines, Builder.line_eq]
  | .blank => rw [Step.run, Step.lines, Builder.blank_eq]
  | .doc texts => rw [Step.run, Step.lines, Builder.doc, Builder.lines_eq]
  | .fragments fragments => rw [Step.run, Step.lines, Builder.applyAll_eq]
  | .indented steps =>
    have hbody : (runSteps · steps) = (·.written (stepLines steps)) :=
      funext fun b' => runSteps_eq b' steps
    rw [Step.run, Step.lines, hbody, Builder.indented_eq]

/-- What steps write is their lines. -/
theorem runSteps_eq (b : Builder) (steps : List Step) :
    runSteps b steps = b.written (stepLines steps) := by
  match steps with
  | [] => rw [runSteps, stepLines, Builder.written_nil]
  | step :: rest =>
    rw [runSteps, stepLines, Builder.written_append, Step.run_eq b step, runSteps_eq _ rest]

end

/-- **Steps write the same lines at every depth**: after all that was written before, each line as
far in as the builder stands and as the steps say, and nothing else. -/
theorem runSteps_at_every_depth (steps : List Step) (b : Builder) :
    (runSteps b steps).text.toList =
        b.text.toList ++ (stepLines steps).flatMap (Line.spelled b.depth) ∧
      (runSteps b steps).depth = b.depth := by
  rw [runSteps_eq]
  refine ⟨?_, rfl⟩
  rw [Builder.written, String.toList_append, toList_writtenAt]

end Ambient.Code
