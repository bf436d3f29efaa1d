/-!
# Digits: whole numbers in text
-/

namespace Holdings

/-- A decimal digit. -/
def isDigit (c : Char) : Bool := '0' ≤ c && c ≤ '9'

/-- The worth of a decimal digit. -/
def digitWorth (c : Char) : Nat := c.toNat - '0'.toNat

/-- The number that decimal digits spell. -/
def numberOf (digits : List Char) : Nat := digits.foldl (fun n c => 10 * n + digitWorth c) 0

/-- The worth of a hexadecimal digit, in either case. -/
def hexWorth? (c : Char) : Option Nat :=
  if isDigit c then some (digitWorth c)
  else if 'a' ≤ c && c ≤ 'f' then some (c.toNat - 'a'.toNat + 10)
  else if 'A' ≤ c && c ≤ 'F' then some (c.toNat - 'A'.toNat + 10)
  else none

/-- The number that hexadecimal digits spell. -/
def hexNumber? (digits : List Char) : Option Nat :=
  digits.foldlM (fun n c => (hexWorth? c).map (16 * n + ·)) 0

/-- A number in hexadecimal digits, with zeros in front up to a width. -/
def hexFigures (width n : Nat) : List Char :=
  let figures := Nat.toDigits 16 n
  List.replicate (width - figures.length) '0' ++ figures

end Holdings
