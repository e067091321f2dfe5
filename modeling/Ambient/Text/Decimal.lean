/-!
# Decimal numbers

Digits read as a number, and whether a decimal number is too large for a double.

A number is read in one of two ways. Exactly, and then it is too large when it is
at least the limit. Or in short, where only digits that fit into 64 bits are kept:
then its significand and its power of ten are rounded to doubles, and so is their
product, which can end up on the other side of the limit.
-/

namespace Ambient.Text

/-- The value of a digit in a base up to sixteen, letters in either case. -/
def digitValue (c : Char) : Nat :=
  if c.isDigit then c.toNat - '0'.toNat
  else if c.isUpper then c.toNat - 'A'.toNat + 10
  else c.toNat - 'a'.toNat + 10

def isHexDigit (c : Char) : Bool :=
  c.isDigit || ('a' ≤ c && c ≤ 'f') || ('A' ≤ c && c ≤ 'F')

def numberOf (base : Nat) (digits : List Char) : Nat :=
  digits.foldl (fun n c => n * base + digitValue c) 0

/-! ## Numbers read exactly -/

/-- The least number that no longer rounds to a finite double: halfway between the largest of
them and the next power of two. -/
def doubleLimit : Nat := Nat.pow 2 1024 - Nat.pow 2 970

/-- A number of more digits than this is above the limit, one of fewer below. -/
def doubleLimitDigits : Nat := 309

/-- Whether `mantissa * 10 ^ exponent` is too large for a double. -/
def exceedsDouble (mantissa : Nat) (exponent : Int) : Bool :=
  let digits := (Nat.toDigits 10 mantissa).length + exponent
  if mantissa = 0 || digits < doubleLimitDigits then false
  else if doubleLimitDigits < digits then true
  else doubleLimit * Nat.pow 10 (-exponent).toNat ≤ mantissa * Nat.pow 10 exponent.toNat

/-! ## Rounding -/

/-- The multiple of `unit` next to `n`. Halfway between two, it is the even multiple. -/
def roundTo (unit n : Nat) : Nat :=
  let below := n / unit
  let rest := n % unit
  if 2 * rest < unit || (2 * rest = unit && below % 2 = 0) then below * unit
  else (below + 1) * unit

theorem roundTo_of_dvd {unit n : Nat} (hunit : 0 < unit) (h : unit ∣ n) : roundTo unit n = n := by
  obtain ⟨k, rfl⟩ := h
  simp [roundTo, hunit, Nat.mul_comm]

/-- No rounding moves a number further than half a unit. -/
theorem roundTo_near {unit : Nat} (n : Nat) (hunit : 0 < unit) :
    2 * n ≤ 2 * roundTo unit n + unit ∧ 2 * roundTo unit n ≤ 2 * n + unit := by
  have hn := Nat.div_add_mod n unit
  have hrest := Nat.mod_lt n hunit
  have hnext : (n / unit + 1) * unit = n / unit * unit + unit := Nat.succ_mul _ _
  rw [Nat.mul_comm] at hn
  simp only [roundTo, Bool.or_eq_true, Bool.and_eq_true, decide_eq_true_eq]
  split <;> omega

/-- Significant binary digits of a double. -/
def doubleBits : Nat := 53

/-- The double nearest to a whole number, if there were no limit to their size. -/
def nearestDouble (n : Nat) : Nat :=
  roundTo (Nat.pow 2 (n.log2 + 1 - doubleBits)) n

/-- A number of few binary digits is a double itself. -/
theorem nearestDouble_of_lt {n : Nat} (h : n < Nat.pow 2 doubleBits) : nearestDouble n = n := by
  by_cases hn : n = 0
  · subst hn; rfl
  · have hlog : n.log2 + 1 - doubleBits = 0 := by
      have := (Nat.log2_lt hn).mpr h
      omega
    rw [nearestDouble, hlog]
    exact roundTo_of_dvd Nat.one_pos (Nat.one_dvd n)

/-! ## Numbers read in short -/

/-- The number `significand * 10 ^ exponent`. -/
structure ShortDecimal where
  significand : Nat
  exponent : Int
  deriving DecidableEq, Inhabited, Repr

/-- Puts digits after those of `n` for as long as the number fits into 64 bits. The digits that
are left come with it. -/
def appendDigits (n : Nat) : List Char → Nat × List Char
  | [] => (n, [])
  | c :: cs =>
    let next := n * 10 + digitValue c
    if next < Nat.pow 2 64 then appendDigits next cs else (n, c :: cs)

/-- What is left is an end of the digits. -/
theorem appendDigits_suffix (n : Nat) (digits : List Char) :
    (appendDigits n digits).2 <:+ digits := by
  induction digits generalizing n with
  | nil => exact List.suffix_rfl
  | cons c cs ih =>
    rw [appendDigits]
    split
    · exact (ih _).trans (List.suffix_cons c cs)
    · exact List.suffix_rfl

theorem appendDigits_lt {n : Nat} (digits : List Char) (h : n < Nat.pow 2 64) :
    (appendDigits n digits).1 < Nat.pow 2 64 := by
  induction digits generalizing n with
  | nil => exact h
  | cons c cs ih =>
    rw [appendDigits]
    split
    · rename_i hnext
      exact ih hnext
    · exact h

namespace ShortDecimal

/-- A number of these digits before and after the point, times a power of ten. Digits of the
whole part that do not fit count as zeros, and digits of the fraction as nothing. -/
def ofDigits (whole fraction : List Char) (power : Int) : ShortDecimal :=
  let (n, dropped) := appendDigits 0 whole
  let (n, unread) := appendDigits n fraction
  { significand := n
    exponent := dropped.length - (fraction.length - unread.length : Nat) + power }

theorem significand_ofDigits_lt (whole fraction : List Char) (power : Int) :
    (ofDigits whole fraction power).significand < Nat.pow 2 64 :=
  appendDigits_lt fraction (appendDigits_lt whole (by decide))

/-- No greater power of ten is a double. -/
def maxPower : Nat := 308

/-- Whether the number, computed in doubles, is too large for one. -/
def exceedsDouble (d : ShortDecimal) : Bool :=
  if d.significand = 0 || d.exponent < 0 then false
  else if maxPower < d.exponent then true
  else doubleLimit ≤ nearestDouble d.significand * nearestDouble (Nat.pow 10 d.exponent.toNat)

end ShortDecimal

end Ambient.Text
