import Holdings.Quantity.Basic

/-!
# Decimals: how quantities stand in text

A `Decimal` is a sign, a whole number of digits and a power of ten. `Numeral α` is a type of
quantities that can be turned into decimals and back:

* `shortest` — the shortest decimal that still names the quantity;
* `nearest` — the quantity nearest to a decimal.

`Decimal.scaled?` is the second way of reading a decimal: its digits as one quantity, scaled by powers
of ten. It costs one rounding for the digits and one for each scaling, so it can miss the nearest
quantity by a last place; it is the reading of the recorded JSON texts.
-/

namespace Holdings

/-- `± digits · 10 ^ exponent`. -/
structure Decimal where
  /-- the sign; zero has one too -/
  negative : Bool
  /-- the digits, read as one whole number -/
  digits : Nat
  /-- the power of ten -/
  exponent : Int
deriving DecidableEq

/-- Which of two decimals is taken when both are equally near. -/
inductive Tie where
  /-- the one with the even last digit -/
  | even
  /-- the one further from zero -/
  | away
deriving DecidableEq

/-- What a quantity is called in text. -/
inductive Written where
  /-- no value -/
  | void
  /-- beyond all numbers, on one side -/
  | infinite (negative : Bool)
  /-- a decimal -/
  | finite (decimal : Decimal)
deriving DecidableEq

/-- Quantities that have decimal texts. -/
class Numeral (α : Type) extends Quantity α where
  /-- the shortest decimal that names a quantity, the nearest to it among those as short -/
  shortest : Tie → α → Written
  /-- the quantity nearest to a decimal -/
  nearest : Decimal → α

namespace Decimal

variable {α : Type} [Quantity α]

/-- The largest power of ten that a reading multiplies or divides by at once. -/
def largestStep : Nat := 308

/-- The quantity nearest to `10 ^ k`. -/
def powerOfTen (k : Nat) : α := OfScientific.ofScientific 1 false k

/-- Divides by the largest step so many times; zero stays zero. -/
def shrinkSteps : Nat → α → α
  | 0, x => x
  | n + 1, x => if x == 0 then x else shrinkSteps n (x / powerOfTen largestStep)

/-- Division by `10 ^ k`, in steps no larger than the largest. -/
def shrink (x : α) (k : Nat) : α :=
  let steps := (k - 1) / largestStep
  shrinkSteps steps x / powerOfTen (k - largestStep * steps)

/-- Multiplication by `10 ^ k`; nothing where `k` is beyond the largest step, or the product beyond
all numbers. Zero stays zero for every `k`. -/
def stretch? (x : α) (k : Nat) : Option α :=
  if k ≤ largestStep then
    let y := x * powerOfTen k
    if Quantity.isFinite y then some y else none
  else if x == 0 then some x else none

/-- The quantity of a decimal by scaling its digits; nothing where it is too large. -/
def scaled? (d : Decimal) : Option α :=
  let whole : α := Quantity.ofCount d.digits
  let size := match d.exponent with
    | .ofNat k => stretch? whole k
    | .negSucc k => some (shrink whole (k + 1))
  size.map fun x => if d.negative then -x else x

/-- The digits as characters, most significant first. -/
def figures (n : Nat) : List Char := Nat.toDigits 10 n

/-- The same number with no zero at the end of its digits; `fuel` bounds how many are taken off. -/
def stripZeros (digits : Nat) (exponent : Int) : Nat → Nat × Int
  | 0 => (digits, exponent)
  | fuel + 1 =>
    if digits ≠ 0 ∧ digits % 10 = 0 then stripZeros (digits / 10) (exponent + 1) fuel
    else (digits, exponent)

end Decimal

end Holdings
