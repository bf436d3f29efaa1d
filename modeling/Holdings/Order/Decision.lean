import Holdings.Order.Basic

/-!
# Deciding orders: whether a resting order fills on a bar, and at what price

A sell stop is reached by a low at or below it and a buy stop by a high at or above it; limits the
other way round. A limit fills at its price, never better. A stop fills at its price, unless the bar
already opened at or beyond it: then a `GapRule` says where. A stop-limit whose stop is reached may
fill its limit from the next bar on, or on the same bar, as `Activation` says.

The whole quantity fills or none of it.
-/

namespace Holdings

/-- Where a stop fills when the bar opens at or beyond it. -/
inductive GapRule where
  /-- at the opening price -/
  | atOpen
  /-- at the stop -/
  | atTrigger
  /-- at the worse of the two -/
  | atWorst
deriving DecidableEq

/-- When a stop-limit whose stop was reached may fill its limit. -/
inductive Activation where
  /-- from the next bar on, since the path within the bar is unknown -/
  | nextBar
  /-- on the same bar too -/
  | sameBar
deriving DecidableEq

/-- How orders are decided. -/
structure FillRule where
  /-- where a stop fills that was gapped -/
  gap : GapRule
  /-- when a stop-limit becomes a limit -/
  activation : Activation
deriving DecidableEq

/-- A fill that was decided, before costs. -/
structure Execution (α : Type) where
  /-- where -/
  price : α
  /-- how much, unsigned: the quantity of the order -/
  quantity : α
  /-- the bar opened at or beyond the stop -/
  gapped : Bool
deriving DecidableEq

/-- What a bar does to an order. -/
inductive Decision (α : Type) where
  /-- nothing -/
  | noFill
  /-- the stop of a stop-limit was reached; it waits as a limit now -/
  | stopTriggered
  /-- it fills -/
  | filled (execution : Execution α)
deriving DecidableEq

variable {α : Type} [Quantity α]

namespace Bar

/-- The bar reaches a stop price. -/
def reachesStop (b : Bar α) : Side → α → Bool
  | .sell, stop => b.low ≤ stop
  | .buy, stop => stop ≤ b.high

/-- The bar opens at or beyond a stop price. -/
def gaps (b : Bar α) : Side → α → Bool
  | .sell, stop => b.opening ≤ stop
  | .buy, stop => stop ≤ b.opening

/-- The bar reaches a limit price. -/
def reachesLimit (b : Bar α) : Side → α → Bool
  | .sell, limit => limit ≤ b.high
  | .buy, limit => b.low ≤ limit

end Bar

namespace GapRule

/-- Where a stop fills that the opening price is at or beyond. Lower is worse for a seller and higher
for a buyer. -/
def price (opening stop : α) : GapRule → Side → α
  | .atOpen, _ => opening
  | .atTrigger, _ => stop
  | .atWorst, .sell => Quantity.lower opening stop
  | .atWorst, .buy => Quantity.higher opening stop

end GapRule

namespace Order

/-- A stop on a bar. -/
def decideStop (rule : FillRule) (o : Order α) (stop : α) (b : Bar α) : Decision α :=
  if b.reachesStop o.side stop then
    if b.gaps o.side stop then .filled ⟨rule.gap.price b.opening stop o.side, o.quantity, true⟩
    else .filled ⟨stop, o.quantity, false⟩
  else .noFill

/-- A limit on a bar. -/
def decideLimit (o : Order α) (limit : α) (b : Bar α) : Decision α :=
  if b.reachesLimit o.side limit then .filled ⟨limit, o.quantity, false⟩ else .noFill

/-- An open order on a bar that is not void: the decision alone. -/
def decideOpen (rule : FillRule) (o : Order α) (b : Bar α) : Decision α :=
  match o.kind, o.status with
  | .stop stop, _ => o.decideStop rule stop b
  | .limit limit, _ => o.decideLimit limit b
  | .stopLimit stop limit, .active =>
    if b.reachesStop o.side stop then
      match rule.activation with
      | .nextBar => .stopTriggered
      | .sameBar =>
        match o.decideLimit limit b with
        | .filled execution => .filled execution
        | _ => .stopTriggered
    else .noFill
  | .stopLimit _ limit, _ => o.decideLimit limit b

omit [Quantity α] in
/-- The order after a decision. -/
def after (o : Order α) : Decision α → Order α
  | .noFill => o
  | .stopTriggered => { o with status := .triggered }
  | .filled _ => { o with status := .filled }

/-- Decides an order against a bar: the decision, and the order as it stands afterwards. A void bar
and an order that no longer waits give no fill; a flawed order and a bar of another asset are faults. -/
def decide (rule : FillRule) (o : Order α) (b : Bar α) :
    Except (OrderFault α) (Decision α × Order α) := do
  o.check
  if o.asset ≠ b.asset then throw ⟨o.id, .asset o.asset b.asset⟩
  if o.isOpen && !b.isVoid then
    let decision := o.decideOpen rule b
    return (decision, o.after decision)
  else return (.noFill, o)

end Order

end Holdings
