import Ambient.Code.Builder

/-!
# Sequences of builder steps

A step is one thing to write: a line, a blank, a comment, fragments, or further
steps one level deeper.
-/

namespace Ambient.Code

inductive Step where
  | line (text : String)
  | blank
  | doc (lines : List String)
  | fragments (fragments : List Fragment)
  | indented (steps : List Step)
  deriving Inhabited, Repr

mutual

def Step.run (b : Builder) : Step → Builder
  | .line text => b.line text
  | .blank => b.blank
  | .doc lines => b.doc lines
  | .fragments fragments => b.applyAll fragments
  | .indented steps => b.indented (runSteps · steps)

/-- Runs the steps in order. -/
def runSteps (b : Builder) : List Step → Builder
  | [] => b
  | step :: rest => runSteps (step.run b) rest

end

mutual

/-- The steps that write, in the order in which they do, each with the depth it is run at. -/
def Step.writes (depth : Nat) : Step → List (Nat × Step)
  | .indented steps => writesOf (depth + 1) steps
  | step => [(depth, step)]

def writesOf (depth : Nat) : List Step → List (Nat × Step)
  | [] => []
  | step :: rest => step.writes depth ++ writesOf depth rest

end

/-- The text that a step writes at a depth. -/
def Step.textAt (depth : Nat) (step : Step) : String :=
  (step.run { depth }).text

end Ambient.Code
