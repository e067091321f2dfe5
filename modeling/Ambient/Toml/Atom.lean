import Ambient.Text.Decimal
import Ambient.Text.Split
import Ambient.Toml.Value

/-!
# Atoms

An atom is a value without quotes and brackets: a number, a truth value, or a date
or time. It is a single word, unless blanks divide it.
-/

namespace Ambient.Toml.Atom

open Text (numberOf isHexDigit)

/-! ## Numbers -/

/-- Digits with single underscores between them, which are left out. -/
def digits? (isDigit : Char → Bool) (cs : List Char) : Option (List Char) :=
  let groups := Text.splitAt '_' cs
  if groups.all fun group => ! group.isEmpty && group.all isDigit then some groups.flatten
  else none

/-- Decimal digits without a needless zero in front. -/
def whole? (cs : List Char) : Option (List Char) :=
  match digits? Char.isDigit cs with
  | some ('0' :: _ :: _) | none => none
  | some digits => some digits

/-- A sign, if there is one, and what follows it. -/
def splitSign : List Char → Bool × List Char
  | '-' :: cs => (true, cs)
  | '+' :: cs => (false, cs)
  | cs => (false, cs)

def isBinaryDigit (c : Char) : Bool := c == '0' || c == '1'

def isOctalDigit (c : Char) : Bool := '0' ≤ c && c ≤ '7'

def integer? (cs : List Char) : Option Int :=
  match cs with
  | '0' :: 'x' :: cs => (digits? isHexDigit cs).map fun ds => numberOf 16 ds
  | '0' :: 'o' :: cs => (digits? isOctalDigit cs).map fun ds => numberOf 8 ds
  | '0' :: 'b' :: cs => (digits? isBinaryDigit cs).map fun ds => numberOf 2 ds
  | cs =>
    let (negative, cs) := splitSign cs
    (whole? cs).map fun ds => if negative then -numberOf 10 ds else numberOf 10 ds

/-- Whether every group of characters between underscores begins with a digit, and every one but
the last ends with one. Digits of the largest base count. -/
def areSeparated (groups : List (List Char)) : Bool :=
  groups.all (·.head?.any isHexDigit) && groups.dropLast.all (·.getLast?.any isHexDigit)

/-- Whether a text that is no integer has the form of one all the same. A base without digits
has it. So have digits with an underscore after them, whatever comes later, unless a point or an
exponent makes a decimal number of it, or a space a date. -/
def isMalformedInteger (cs : List Char) : Bool :=
  let (_, unsigned) := splitSign cs
  let digits := unsigned.takeWhile Char.isDigit
  match unsigned.drop digits.length with
  | '_' :: rest =>
    digits.head?.any (· != '0') && areSeparated (Text.splitAt '_' rest)
      && ! rest.any fun c => c == ' ' || c == '.' || c == 'e' || c == 'E'
  | _ => cs == ['0', 'x'] || cs == ['0', 'o'] || cs == ['0', 'b']

/-- Exponents are cut off here; no double is near that large or that small. -/
def exponentLimit : Int := 1000000000

/-- The number after `e`. -/
def exponent? (cs : List Char) : Option Int :=
  let (negative, cs) := splitSign cs
  (digits? Char.isDigit cs).map fun ds =>
    let n := min (numberOf 10 ds : Int) exponentLimit
    if negative then -n else n

/-- A number with a fraction, an exponent or both; whether it is too large for a double. -/
def float? (cs : List Char) : Option Bool :=
  let (_, cs) := splitSign cs
  if cs == "inf".toList || cs == "nan".toList then some false
  else do
    let significand := cs.takeWhile fun c => c != 'e' && c != 'E'
    let power := cs.drop significand.length
    let whole := significand.takeWhile (· != '.')
    let fraction := significand.drop whole.length
    if power.isEmpty && fraction.isEmpty then none
    let whole ← whole? whole
    let fraction ← if fraction.isEmpty then some [] else digits? Char.isDigit (fraction.drop 1)
    let power ← if power.isEmpty then some 0 else exponent? (power.drop 1)
    return Text.exceedsDouble (numberOf 10 (whole ++ fraction)) (power - fraction.length)

/-! ## Dates and times -/

/-- Exactly `count` digits. -/
def field? (count : Nat) (cs : List Char) : Option Nat :=
  if cs.length = count && cs.all Char.isDigit then some (numberOf 10 cs) else none

def isLeapYear (year : Nat) : Bool :=
  year % 4 = 0 && (year % 100 ≠ 0 || year % 400 = 0)

def daysIn (year month : Nat) : Nat :=
  if month = 2 then if isLeapYear year then 29 else 28
  else if month = 4 || month = 6 || month = 9 || month = 11 then 30
  else 31

def isDate (cs : List Char) : Bool :=
  match Text.splitAt '-' cs with
  | [year, month, day] =>
    match field? 4 year, field? 2 month, field? 2 day with
    | some year, some month, some day =>
      1 ≤ month && month ≤ 12 && 1 ≤ day && day ≤ daysIn year month
    | _, _, _ => false
  | _ => false

/-- Seconds with any number of places after a point. -/
def isSecond (cs : List Char) : Bool :=
  match Text.splitAt '.' cs with
  | [second] => (field? 2 second).any (· ≤ 60)
  | [second, places] =>
    (field? 2 second).any (· ≤ 60) && ! places.isEmpty && places.all Char.isDigit
  | _ => false

/-- Hour and minute, and the second if it is given. -/
def isTime (cs : List Char) : Bool :=
  match Text.splitAt ':' cs with
  | hour :: minute :: rest =>
    (field? 2 hour).any (· ≤ 23) && (field? 2 minute).any (· ≤ 59)
      && match rest with
        | [] => true
        | [second] => isSecond second
        | _ => false
  | _ => false

/-- An offset from universal time. -/
def isOffset (cs : List Char) : Bool :=
  match cs with
  | ['Z'] | ['z'] => true
  | sign :: cs =>
    (sign == '+' || sign == '-')
      && match Text.splitAt ':' cs with
        | [hour, minute] => (field? 2 hour).any (· ≤ 23) && (field? 2 minute).any (· ≤ 59)
        | _ => false
  | [] => false

/-- A time, and an offset if it is given. -/
def isTimeWithOffset (cs : List Char) : Bool :=
  let time := cs.takeWhile fun c => c.isDigit || c == ':' || c == '.'
  let offset := cs.drop time.length
  isTime time && (offset.isEmpty || isOffset offset)

def isDateTime (cs : List Char) : Bool :=
  let date := cs.take 10
  match cs.drop 10 with
  | [] => isDate date
  | separator :: time =>
    isDate date && (separator == 'T' || separator == 't' || separator == ' ')
      && isTimeWithOffset time

/-! ## All atoms -/

def value? (cs : List Char) : Option Value :=
  if cs == "true".toList then some (.bool true)
  else if cs == "false".toList then some (.bool false)
  else
    ((integer? cs).map Value.integer)
      |>.or (if isMalformedInteger cs then some .malformedInteger else none)
      |>.or ((float? cs).map Value.float)
      |>.or (if isTime cs || isDateTime cs then some .datetime else none)

end Ambient.Toml.Atom
