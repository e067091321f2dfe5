/-!
# TOML values

What a document says, once it is read. Three kinds of numbers cannot be used: an
integer of more than 128 bits, a word that can only be meant as an integer but is
none, and a decimal number too large for a double. They are read all the same, since
a number that is never looked at does no harm.
-/

namespace Ambient.Toml

inductive Value where
  | text (value : String)
  | integer (value : Int)
  /-- A word in the form of an integer that says no number. -/
  | malformedInteger
  /-- A number with a fraction or an exponent, or one of the special numbers. -/
  | float (tooLarge : Bool)
  | bool (value : Bool)
  | datetime
  | array (items : List Value)
  | table (members : List (String × Value))
  deriving Inhabited, Repr

/-- Whether an integer is one of 128 bits, with or without a sign. -/
def isInteger128 (n : Int) : Bool :=
  -Int.pow 2 127 ≤ n && n < Int.pow 2 128

/-- Whether an integer is one of 64 bits, with or without a sign. -/
def isInteger64 (n : Int) : Bool :=
  -Int.pow 2 63 ≤ n && n < Int.pow 2 64

mutual

/-- Whether every integer in a value is well formed and satisfies `p`, and no other number is too
large. -/
def Value.isUsable (p : Int → Bool) : Value → Bool
  | .integer n => p n
  | .malformedInteger => false
  | .float tooLarge => ! tooLarge
  | .array items => areUsable p items
  | .table members => membersAreUsable p members
  | .text _ | .bool _ | .datetime => true

def areUsable (p : Int → Bool) : List Value → Bool
  | [] => true
  | item :: items => item.isUsable p && areUsable p items

def membersAreUsable (p : Int → Bool) : List (String × Value) → Bool
  | [] => true
  | (_, value) :: members => value.isUsable p && membersAreUsable p members

end

end Ambient.Toml
