import Holdings.Fill
import Holdings.Position.Basic

/-!
# Exit triggers: whether a price crosses a level of a position

A long position is left when the price falls to its stop-loss or rises to its take-profit, a short one
the other way round. The stop-loss is looked at first. The level that is crossed clears the other one and
the position has *fired*: it does not fire again until its levels are set anew.
-/

namespace Holdings

/-- The trade that leaves a position whose level was crossed. -/
structure ExitIntent (α : Type) where
  /-- what is left -/
  asset : Asset
  /-- the quantity that brings the amount to zero -/
  quantity : α
  /-- which level was crossed -/
  reason : ExitReason
  /-- the level -/
  level : α
  /-- the price that crossed it -/
  price : α
  /-- when, if that is known -/
  time : Option Instant
deriving DecidableEq

namespace ExitIntent

variable {α : Type}

/-- The fill that carries the intent out. -/
def toFill (i : ExitIntent α) (price cost : α) : Fill α :=
  ⟨i.asset, i.quantity, price, cost, i.time, none⟩

end ExitIntent

namespace Position

variable {α : Type} [Quantity α]

/-- A price at or beyond a level, seen from a position of a direction. -/
def crosses (long : Bool) (reason : ExitReason) (price level : α) : Bool :=
  match long, reason with
  | true, .stopLoss => price ≤ level
  | true, .takeProfit => level ≤ price
  | false, .stopLoss => level ≤ price
  | false, .takeProfit => price ≤ level

/-- The level that a price crosses, the stop-loss before the take-profit. Levels that are not positive
are never crossed. -/
def crossed? (p : Position α) (price : α) : Option (ExitReason × α) :=
  let hit := fun reason level => 0 < level && crosses p.isLong reason price level
  match p.levels.stopLoss.filter (hit .stopLoss) with
  | some level => some (.stopLoss, level)
  | none => (p.levels.takeProfit.filter (hit .takeProfit)).map fun level => (.takeProfit, level)

/-- Looks whether a price crosses a level of an armed position: if it does, the trade that leaves the
position and the position as fired. -/
def trigger? (p : Position α) (price : α) (time : Option Instant) :
    Option (ExitIntent α × Position α) :=
  if Quantity.isFinite price && !p.isFlat && p.trigger = .armed then
    (p.crossed? price).map fun (reason, level) =>
      (⟨p.asset, -p.amount, reason, level, price, time⟩,
        { p with levels := .only reason level, trigger := .fired reason })
  else none

end Position

end Holdings
