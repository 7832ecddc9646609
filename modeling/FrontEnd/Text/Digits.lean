/-
Numbers written in digits.

* `readNumber?` reads a number in a base up to sixteen.  A plus sign may stand before
  the digits, and there must be a digit.
-/

namespace FrontEnd.Text

/-- The value of a digit in any base up to sixteen. -/
def digitValue? (c : Char) : Option Nat :=
  if '0' ≤ c ∧ c ≤ '9' then some (c.toNat - '0'.toNat)
  else if 'a' ≤ c ∧ c ≤ 'f' then some (c.toNat - 'a'.toNat + 10)
  else if 'A' ≤ c ∧ c ≤ 'F' then some (c.toNat - 'A'.toNat + 10)
  else none

/-- A decimal digit. -/
def isDecimal (c : Char) : Bool := '0' ≤ c && c ≤ '9'

/-- A hexadecimal digit of either case. -/
def isHexadecimal (c : Char) : Bool := (digitValue? c).isSome

/-- Goes on reading digits below `base`, the most significant first, after those
before them gave `value`. -/
def readDigits? (base value : Nat) : List Char → Option Nat
  | [] => some value
  | c :: cs =>
    match digitValue? c with
    | some d => if d < base then readDigits? base (value * base + d) cs else none
    | none => none

/-- The number that digits below `base` write, a plus sign before them or not. -/
def readNumber? (base : Nat) (cs : List Char) : Option Nat :=
  let digits := match cs with
    | '+' :: rest => rest
    | cs => cs
  if digits.isEmpty then none else readDigits? base 0 digits

end FrontEnd.Text
