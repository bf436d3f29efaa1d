import Holdings.Position.Fault
import Holdings.Order.Basic

/-!
# Positions: what is held of one asset

A `Position` is a signed amount with the average price it was entered at (its basis), the last
observed price, and the exit levels that guard it. Its trigger is

* *armed* while levels wait for their price,
* *fired* once a level was crossed, until the levels are set anew,
* *disarmed* while there are no levels.

A flat position has amount zero, basis zero and no levels. `configure` sets levels and refuses those
that are no prices or lie on the wrong side of the basis.
-/

namespace Holdings

/-- The life of a position's exit levels. -/
inductive TriggerState where
  /-- a level is set and waits -/
  | armed
  /-- a level was crossed -/
  | fired (reason : ExitReason)
  /-- no level waits -/
  | disarmed
deriving DecidableEq

/-- What is held of one asset. -/
structure Position (α : Type) where
  /-- what is held -/
  asset : Asset
  /-- how much; negative where it is owed -/
  amount : α
  /-- the average entry price of the present amount -/
  basis : α
  /-- the last observed price -/
  lastPrice : α
  /-- when it was observed -/
  lastTime : Option Instant
  /-- where the position is left -/
  levels : ExitLevels α
  /-- whether the levels wait -/
  trigger : TriggerState
deriving DecidableEq

namespace Position

variable {α : Type} [Quantity α]

/-- Nothing held. -/
def flat (asset : Asset) : Position α := ⟨asset, 0, 0, 0, none, .unset, .disarmed⟩

/-- Held. -/
def isLong (p : Position α) : Bool := 0 < p.amount

/-- Neither held nor owed. -/
def isFlat (p : Position α) : Bool := p.amount == 0

/-- What the position is worth at the last price. -/
def marketValue (p : Position α) : α := p.amount * p.lastPrice

/-- What leaving the position at the last price would gain. -/
def unrealized (p : Position α) : α :=
  if p.isFlat then 0 else p.amount * (p.lastPrice - p.basis)

/-- Records an observed price. -/
def mark (p : Position α) (price : α) (time : Instant) : Except (Fault α) (Position α) :=
  if Quantity.isNoPrice price then .error (.mark price)
  else .ok { p with lastPrice := price, lastTime := some time }

/-! ## Exit levels -/

/-- The first flaw of levels for this position, if they have any. -/
def levelFault? (p : Position α) (l : ExitLevels α) : Option (LevelFault α) :=
  if l.stopLoss.any Quantity.isNoPrice then l.stopLoss.map (.price .stopLoss)
  else if l.takeProfit.any Quantity.isNoPrice then l.takeProfit.map (.price .takeProfit)
  else if l.isEmpty then none
  else if p.isFlat then some (.flat p.asset)
  else match l.stopLoss, l.takeProfit with
    | some sl, some tp =>
      if ExitLevels.straddles p.isLong p.basis sl tp then none
      else some (.straddle sl tp p.basis p.isLong)
    | _, _ => none

/-- Puts levels on a position and arms them, if there are any to arm. -/
def withLevels (p : Position α) (l : ExitLevels α) : Position α :=
  { p with
    levels := l
    trigger := if l.isEmpty || p.isFlat then .disarmed else .armed }

/-- Takes the levels off. -/
def withoutLevels (p : Position α) : Position α := p.withLevels .unset

/-- Sets the levels of a position, and arms it again if it had fired; a level of zero is none. -/
def configure (p : Position α) (l : ExitLevels α) : Except (Fault α) (Position α) :=
  match p.levelFault? l.normalized with
  | some fault => .error (.levels fault)
  | none => .ok (p.withLevels l.normalized)

/-! ## Exit orders -/

/-- The kinds of order that stand for levels: a stop for the stop-loss and a limit for the
take-profit. They are two orders, since a stop-limit has no limit before its stop is reached. -/
def exitKinds (l : ExitLevels α) : List (OrderKind α) :=
  (l.stopLoss.map .stop).toList ++ (l.takeProfit.map .limit).toList

/-- Resting orders in place of the levels, each for the whole amount, numbered from `first`. -/
def exitOrders (p : Position α) (first : Nat) : List (Order α) :=
  if p.isFlat then []
  else (exitKinds p.levels).mapIdx fun i kind =>
    { id := first + i
      asset := p.asset
      side := .closing p.amount
      kind := kind
      quantity := Quantity.abs p.amount
      status := .active }

end Position

end Holdings
