/-!
# Quantities: the arithmetic of amounts, prices and money

Every amount, price, cost and cash sum of the library is an element of a type `α` with
`Quantity α`. Two types have it:

* `Float`, in `Holdings.Quantity.Binary` — what the program computes with;
* `Rat`, in `Holdings.Quantity.Exact` — the same formulas read exactly, with no rounding.

The operations are those that both share. Comparison is by `≤`, `<` and `==`, which on
floating-point numbers are the IEEE ones: a number that is not a number compares with nothing, itself
included, and the two zeros are equal.
-/

namespace Holdings

/-- The arithmetic of amounts, prices and money. -/
class Quantity (α : Type) extends
    Zero α, Add α, Sub α, Mul α, Div α, Neg α, LE α, LT α, BEq α, OfScientific α where
  /-- `≤` is decided -/
  decidableLE : DecidableLE α
  /-- `<` is decided -/
  decidableLT : DecidableLT α
  /-- the quantity nearest to a count -/
  ofCount : Nat → α
  /-- the magnitude -/
  abs : α → α
  /-- the greatest whole number not above -/
  floor : α → α
  /-- the least whole number not below -/
  ceil : α → α
  /-- the nearest whole number; a half goes away from zero -/
  round : α → α
  /-- neither infinite nor without value -/
  isFinite : α → Bool

attribute [reducible, instance] Quantity.decidableLE Quantity.decidableLT

namespace Quantity

variable {α : Type} [Quantity α]

/-- The whole part: the fraction is dropped, towards zero. -/
def trunc (x : α) : α := if x < 0 then ceil x else floor x

/-- Only a quantity without value differs from itself. -/
def isVoid (x : α) : Bool := !(x == x)

/-- Two quantities that lie on the same side of zero. Zero lies on neither side, and so does a
quantity without value. -/
def sameSide (x y : α) : Bool := (0 < x && 0 < y) || (x < 0 && y < 0)

/-- `x`, raised to `least` where it falls short of it; `least` alone where `x` has no value. -/
def atLeast (x least : α) : α := if x < least || isVoid x then least else x

/-- The lower of two quantities, the first where they are equal. -/
def lower (x y : α) : α := if x ≤ y then x else y

/-- The higher of two quantities, the first where they are equal. -/
def higher (x y : α) : α := if y ≤ x then x else y

/-- The sum of a list. It starts at minus zero, the only neutral element of floating-point addition,
so the sum of no quantities is minus zero. -/
def total (xs : List α) : α := xs.foldl (· + ·) (-0)

/-- Not finite or below zero: no price. -/
def isNoPrice (x : α) : Bool := !isFinite x || x < 0

/-- Not finite or not above zero: no size, step or rate. -/
def isNotPositive (x : α) : Bool := !isFinite x || x ≤ 0

end Quantity

end Holdings
