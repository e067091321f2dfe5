/-!
# Cancel tokens

A token is a handle on a flag that, once raised, stays raised. A copy of a token is
a handle on the same flag.
-/

namespace Ambient

/-- Tokens, each with the number of its flag. -/
structure CancelTokens where
  tokens : List Nat := []
  raised : List Bool := []
  deriving DecidableEq, Inhabited, Repr

namespace CancelTokens

/-- Adds a token with a flag of its own. -/
def fresh (t : CancelTokens) : CancelTokens :=
  { tokens := t.tokens ++ [t.raised.length], raised := t.raised ++ [false] }

/-- Adds a copy of a token; there is no copy of a token that does not exist. -/
def clone (t : CancelTokens) (token : Nat) : CancelTokens :=
  match t.tokens[token]? with
  | some flag => { t with tokens := t.tokens ++ [flag] }
  | none => t

/-- Raises the flag of a token. -/
def cancel (t : CancelTokens) (token : Nat) : CancelTokens :=
  match t.tokens[token]? with
  | some flag => { t with raised := t.raised.set flag true }
  | none => t

def isCancelled (t : CancelTokens) (token : Nat) : Bool :=
  (t.tokens[token]?.bind (t.raised[·]?)).getD false

/-- Whether each token is cancelled. -/
def states (t : CancelTokens) : List Bool :=
  (List.range t.tokens.length).map t.isCancelled

end CancelTokens

end Ambient
