import Holdings.Bar
import Holdings.Exit.Levels

/-!
# Faults: why a change of a position is refused

Each constructor is one cause and carries what was wrong. A change that is refused leaves the position
as it was. The texts are in `Holdings.Message`.
-/

namespace Holdings

/-- Why exit levels are refused. -/
inductive LevelFault (α : Type) where
  /-- a level is not finite, or negative -/
  | price (leg : ExitReason) (price : α)
  /-- there is no position to guard -/
  | flat (asset : Asset)
  /-- the levels do not lie on their sides of the basis -/
  | straddle (stopLoss takeProfit basis : α) (long : Bool)
deriving DecidableEq

/-- Why a fill is refused. -/
inductive FillFault (α : Type) where
  /-- the quantity is not finite -/
  | quantity (quantity : α)
  /-- the quantity is zero -/
  | zeroQuantity
  /-- the quantity is below the smallest that is accepted -/
  | dust (quantity minimum : α)
  /-- the price is not finite, or negative -/
  | price (price : α)
  /-- the cost is not finite -/
  | cost (cost : α)
deriving DecidableEq

/-- Why a change of a position is refused. -/
inductive Fault (α : Type) where
  /-- by its exit levels -/
  | levels (cause : LevelFault α)
  /-- by the fill or the charge itself -/
  | fill (cause : FillFault α)
  /-- the observed price is not finite, or negative -/
  | mark (price : α)
  /-- it is meant for another asset than the one held -/
  | asset (expected actual : Asset)
  /-- the ratio of a split is not finite, or not positive -/
  | ratio (ratio : α)
deriving DecidableEq

end Holdings
