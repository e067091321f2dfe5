import Ambient.Reading.Loop
import Ambient.Text.Decimal
import Ambient.Text.Position

/-!
# Tokens of JSON

JSON text is read from the front, and the first fault ends the reading. A fault is
placed by how much of the text had been taken when it was found. A character that
was looked at and does not fit counts as taken, up to its first byte.

A value that nobody asks for is read more leniently than one that is kept: its
text need not denote characters, and its numbers have no limit.
-/

namespace Ambient.Json

open Reading

/-- A fault, by the number of bytes that were not taken. -/
structure Fault where
  remaining : Nat
  deriving DecidableEq, Inhabited, Repr

abbrev Reader := StateT (List Char) (Except Fault)

/-- How closely a value is looked at. -/
inductive Care where
  | kept
  | ignored
  deriving DecidableEq, Inhabited, Repr

/-- A fault with nothing more taken. -/
def faultHere {α : Type} : Reader α := do
  throw ⟨Text.byteLength (← get)⟩

/-- A fault with `taken` more bytes taken, or all there are. -/
def faultAfter {α : Type} (taken : Nat) : Reader α := do
  throw ⟨Text.byteLength (← get) - taken⟩

/-- A fault at the next byte. -/
def faultPast {α : Type} : Reader α := faultAfter 1

def isSpace (c : Char) : Bool :=
  c == ' ' || c == '\n' || c == '\t' || c == '\r'

/-- The next character after white space, which is skipped. -/
def next? : Reader (Option Char) := do
  modify (·.dropWhile isSpace)
  peek

/-- Takes the characters of `word`. -/
def word : List Char → Reader Unit
  | [] => pure ()
  | c :: cs => do
    if (← peek) = some c then
      advance
      word cs
    else faultPast

/-! ## Strings -/

/-- Four hexadecimal digits. -/
def hexEscape : Reader Nat := do
  let digits := (← get).take 4
  if digits.length = 4 && digits.all Text.isHexDigit then
    modify (·.drop 4)
    return Text.numberOf 16 digits
  else faultAfter 4

def isLeadingSurrogate (n : Nat) : Bool := 0xD800 ≤ n && n ≤ 0xDBFF

def isTrailingSurrogate (n : Nat) : Bool := 0xDC00 ≤ n && n ≤ 0xDFFF

/-- What follows `\u`: a code point, or the first half of a pair of surrogates, which has to be
followed by the second. -/
def unicodeEscape (care : Care) : Reader Char := do
  let n ← hexEscape
  if care = .ignored then return Char.ofNat n
  if isTrailingSurrogate n then faultHere
  if isLeadingSurrogate n then
    word ['\\', 'u']
    let low ← hexEscape
    if isTrailingSurrogate low then
      return Char.ofNat (0x10000 + (n - 0xD800) * 0x400 + (low - 0xDC00))
    else faultHere
  else return Char.ofNat n

/-- What follows a backslash. -/
def escape (care : Care) : Reader Char := do
  match ← peek with
  | some '"' => advance; return '"'
  | some '\\' => advance; return '\\'
  | some '/' => advance; return '/'
  | some 'b' => advance; return '\x08'
  | some 'f' => advance; return '\x0C'
  | some 'n' => advance; return '\n'
  | some 'r' => advance; return '\r'
  | some 't' => advance; return '\t'
  | some 'u' => advance; unicodeEscape care
  | _ => faultPast

/-- The next character of a string, unless the string ends here. The characters read so far
come last first. -/
def stringStep (care : Care) (read : List Char) : Reader (Option (List Char)) := do
  match ← peek with
  | none => faultHere
  | some '"' => return none
  | some '\\' =>
    advance
    return some ((← escape care) :: read)
  | some c =>
    if c.toNat < 0x20 then
      if care = .kept then faultPast else faultHere
    else
      advance
      return some (c :: read)

/-- A string, from its opening quote. -/
def string (care : Care) : Reader String := do
  advance
  let read ← iterate (stringStep care) []
  advance
  return String.ofList read.reverse

/-! ## Numbers -/

/-- A number as it is written. -/
structure Number where
  negative : Bool
  /-- Its digits as one number, as far as they fit into 64 bits. -/
  significand : Nat
  /-- Written without a fraction and without an exponent. -/
  integral : Bool
  deriving DecidableEq, Inhabited, Repr

def isDigitNext : Reader Bool := return (← peek).any Char.isDigit

/-- Digits of which there is at least one. -/
def someDigits : Reader (List Char) := do
  if ← isDigitNext then takeWhile Char.isDigit else faultPast

/-- The digits of the whole part; a zero stands alone. -/
def wholeDigits : Reader (List Char) := do
  match ← peek with
  | some '0' =>
    advance
    if ← isDigitNext then faultPast else return ['0']
  | _ => someDigits

/-- Exponents up to this are told apart; a larger one is taken as beyond all limits. -/
def maxExponent : Nat := 2147483647

/-- How many of the digits it takes to exceed `maxExponent`, if they do. -/
def digitsToExceed (digits : List Char) : Option Nat :=
  (List.range digits.length).findSome? fun i =>
    if maxExponent < Text.numberOf 10 (digits.take (i + 1)) then some (i + 1) else none

/-- The number after `e`. With `limited`, a positive one is refused at the digit at which it
becomes too large. -/
def exponent (limited : Bool) : Reader Int := do
  let negative := (← peek) == some '-'
  if negative || (← peek) == some '+' then advance
  if ! (← isDigitNext) then faultPast
  let text ← get
  let digits ← takeWhile Char.isDigit
  match digitsToExceed digits with
  | some count =>
    if limited && ! negative then
      set text
      faultAfter count
    else return if negative then -maxExponent else 0
  | none =>
    let n : Int := Text.numberOf 10 digits
    return if negative then -n else n

def number (care : Care) : Reader Number := do
  let negative ← accept ['-']
  let whole ← wholeDigits
  let fraction ← if ← accept ['.'] then someDigits else pure []
  let scaled := (← peek) == some 'e' || (← peek) == some 'E'
  let power ←
    if scaled then
      advance
      exponent (care = .kept && (whole ++ fraction).any (· != '0'))
    else pure 0
  let value := Text.ShortDecimal.ofDigits whole fraction power
  if care = .kept && value.exceedsDouble then faultHere
  return { negative, significand := value.significand, integral := fraction.isEmpty && ! scaled }

/-! ## Punctuation -/

/-- The key of the next member of an object, or none at the object's end. -/
def nextKey? (first : Bool) (care : Care) : Reader (Option String) := do
  match ← next? with
  | some '}' => return none
  | some ',' =>
    if first then faultPast
    advance
    if (← next?) = some '"' then some <$> string care else faultPast
  | some '"' => if first then some <$> string care else faultPast
  | _ => faultPast

def colon : Reader Unit := do
  if (← next?) = some ':' then advance else faultPast

/-- Whether an array goes on with another item, which is then next. -/
def hasItem (first : Bool) : Reader Bool := do
  match ← next? with
  | some ']' => return false
  | some ',' =>
    if first then return true
    advance
    match ← next? with
    | some ']' | none => faultPast
    | some _ => return true
  | some _ => if first then return true else faultPast
  | none => faultPast

/-- Reads the members of an object, from its opening brace. `member` is given the key, with the
colon still to come. -/
def object {σ : Type} (care : Care) (member : σ → String → Reader σ) (state : σ) : Reader σ := do
  advance
  let (_, state) ← iterate
    (fun (first, state) => do
      match ← nextKey? first care with
      | none => return none
      | some key => return some (false, ← member state key))
    (true, state)
  advance
  return state

/-- Reads the items of an array, from its opening bracket. -/
def array {σ : Type} (item : σ → Reader σ) (state : σ) : Reader σ := do
  advance
  let (_, state) ← iterate
    (fun (first, state) => do
      if ← hasItem first then return some (false, ← item state) else return none)
    (true, state)
  advance
  return state

/-! ## Values of any kind -/

/-- What is remembered of a value that is read for its own sake. -/
inductive Skimmed where
  | bool (value : Bool)
  | other
  deriving DecidableEq, Inhabited, Repr

/-- Reads a value. At most `depth` brackets may be open in it at a time. -/
def skim (care : Care) : (depth : Nat) → Reader Skimmed := fun depth => do
  match ← next? with
  | some 'n' => advance; word ['u', 'l', 'l']; return .other
  | some 't' => advance; word ['r', 'u', 'e']; return .bool true
  | some 'f' => advance; word ['a', 'l', 's', 'e']; return .bool false
  | some '"' => let _ ← string care; return .other
  | some '[' =>
    match depth with
    | 0 => faultPast
    | depth + 1 => array (fun _ => do let _ ← skim care depth) (); return .other
  | some '{' =>
    match depth with
    | 0 => faultPast
    | depth + 1 =>
      object care (fun _ _ => do colon; let _ ← skim care depth) ()
      return .other
  | some c =>
    if c == '-' || c.isDigit then
      let _ ← number care
      return .other
    else faultPast
  | none => faultPast

/-- Reads a value that nobody asks for. It may be nested as deep as it likes. -/
def ignore : Reader Unit := do
  let _ ← skim .ignored ((← get).length + 1)

end Ambient.Json
