import Holdings.Quantity.Basic

/-!
# Lots: the amounts that can be held

An amount is rounded towards zero onto a grid: whole shares, or multiples of a precision. An amount
within a ten-thousandth of a step below a grid point counts as that point, so that `2.99999` shares are
three and not two.
-/

namespace Holdings

/-- The grid of amounts. -/
inductive Lot (α : Type) where
  /-- whole shares only -/
  | wholeShares
  /-- multiples of a precision; every amount where the precision is not positive -/
  | fractional (precision : α)
deriving DecidableEq

namespace Lot

variable {α : Type} [Quantity α]

/-- How near to a whole number counts as whole. -/
def tolerance : α := 1e-4

/-- A whole number in place of one that is hardly different. -/
def settleNear (x : α) : α :=
  let whole := Quantity.round x
  if Quantity.abs (x - whole) ≤ tolerance then whole else x

/-- The whole part of a number of steps. -/
def wholeSteps (x : α) : α := Quantity.trunc (settleNear x)

/-- The amount on the grid, towards zero. -/
def round : Lot α → α → α
  | .wholeShares, x => wholeSteps x
  | .fractional precision, x =>
    if 0 < precision then wholeSteps (x / precision) * precision else x

/-- Ten-thousandths of a share. -/
def usual : Lot α := .fractional 0.0001

end Lot

end Holdings
