/-!
# Loops of readers

A reader takes characters from the front of a text. A loop repeats a step for as
long as the step has something to do. Every step of use takes at least one
character, so the text itself tallies the steps there can be.
-/

namespace Ambient.Reading

variable {m : Type → Type} {σ : Type} [Monad m]

/-- At most one step for each character of `tally`, and one more. -/
def repeatFor (step : σ → StateT (List Char) m (Option σ)) (tally : List Char) (state : σ) :
    StateT (List Char) m σ := do
  match ← step state with
  | none => return state
  | some next =>
    match tally with
    | [] => return next
    | _ :: tally => repeatFor step tally next

/-- Repeats `step` until it gives nothing more to go on with. -/
def iterate (step : σ → StateT (List Char) m (Option σ)) (state : σ) :
    StateT (List Char) m σ := do
  repeatFor step (← get) state

/-- Takes the characters at the front that satisfy `p`. -/
def takeWhile (p : Char → Bool) : StateT (List Char) m (List Char) := do
  let text ← get
  set (text.dropWhile p)
  return text.takeWhile p

def peek : StateT (List Char) m (Option Char) := return (← get).head?

/-- Moves past one character. -/
def advance : StateT (List Char) m Unit := modify List.tail

/-- Moves past `word` if the text starts with it. -/
def accept (word : List Char) : StateT (List Char) m Bool := do
  let text ← get
  if word.isPrefixOf text then
    set (text.drop word.length)
    return true
  else
    return false

end Ambient.Reading
