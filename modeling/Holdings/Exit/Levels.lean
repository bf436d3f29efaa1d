import Holdings.Quantity.Basic

/-!
# Exit levels: the prices at which a position is left

A position may have a stop-loss, where a loss is cut, and a take-profit, where a gain is taken. Older
records write a level that is not set as zero; `ofSentinels` and `sentinels` go between the two.
-/

namespace Holdings

/-- Which of the two levels. -/
inductive ExitReason where
  /-- the loss was cut -/
  | stopLoss
  /-- the gain was taken -/
  | takeProfit
deriving DecidableEq

/-- The name of a level in texts. -/
def ExitReason.label : ExitReason → String
  | .stopLoss => "stop_loss"
  | .takeProfit => "take_profit"

/-- The prices at which a position is left. -/
structure ExitLevels (α : Type) where
  /-- where a loss is cut, if anywhere -/
  stopLoss : Option α
  /-- where a gain is taken, if anywhere -/
  takeProfit : Option α
deriving DecidableEq

namespace ExitLevels

variable {α : Type}

/-- No level is set. -/
def unset : ExitLevels α := ⟨none, none⟩

/-- Whether no level is set. -/
def isEmpty (l : ExitLevels α) : Bool := l.stopLoss.isNone && l.takeProfit.isNone

/-- The level of a reason alone. -/
def only (reason : ExitReason) (price : α) : ExitLevels α :=
  match reason with
  | .stopLoss => ⟨some price, none⟩
  | .takeProfit => ⟨none, some price⟩

/-- Changes each level that is set. -/
def map (f g : α → α) (l : ExitLevels α) : ExitLevels α :=
  ⟨l.stopLoss.map f, l.takeProfit.map g⟩

variable [Quantity α]

/-- Zero stands for a level that is not set. -/
def ofSentinel (price : α) : Option α := if price == 0 then none else some price

/-- Levels from two prices in which zero stands for none. -/
def ofSentinels (stopLoss takeProfit : α) : ExitLevels α :=
  ⟨ofSentinel stopLoss, ofSentinel takeProfit⟩

/-- The stop-loss and the take-profit, zero where there is none. -/
def sentinels (l : ExitLevels α) : α × α := (l.stopLoss.getD 0, l.takeProfit.getD 0)

/-- Levels of zero are no levels. -/
def normalized (l : ExitLevels α) : ExitLevels α :=
  ⟨l.stopLoss.bind ofSentinel, l.takeProfit.bind ofSentinel⟩

/-- A stop-loss and a take-profit on their sides of the basis: below and above for a long position,
above and below for a short one, and not both at it. -/
def straddles (long : Bool) (basis stopLoss takeProfit : α) : Bool :=
  if long then stopLoss ≤ basis && basis ≤ takeProfit && stopLoss < takeProfit
  else takeProfit ≤ basis && basis ≤ stopLoss && takeProfit < stopLoss

end ExitLevels

end Holdings
