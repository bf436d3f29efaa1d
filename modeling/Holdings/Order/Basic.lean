import Holdings.Bar

/-!
# Resting orders

An `Order` waits at a price: a stop becomes a market order once the price reaches the stop, a limit
fills at its limit, and a stop-limit is a limit from the moment its stop was reached. The quantity is
unsigned; the side gives the direction.

`Order.check` is what an order has to satisfy before it is decided. Orders read from text are not
checked on the way in.
-/

namespace Holdings

/-- Which way an order trades. -/
inductive Side where
  /-- adds to the amount held -/
  | buy
  /-- takes from the amount held -/
  | sell
deriving DecidableEq

namespace Side

/-- The side that reduces a position of a signed amount. -/
def closing {α : Type} [Quantity α] (amount : α) : Side := if 0 < amount then .sell else .buy

/-- A quantity with the sign of the side. -/
def signed {α : Type} [Quantity α] : Side → α → α
  | .buy, q => 1.0 * q
  | .sell, q => -1.0 * q

end Side

/-- What an order waits for. -/
inductive OrderKind (α : Type) where
  /-- a market order once the price reaches `stop` -/
  | stop (stop : α)
  /-- a limit order at `limit` once the price reaches `stop` -/
  | stopLimit (stop limit : α)
  /-- fills at `limit` once the price reaches it -/
  | limit (limit : α)
deriving DecidableEq

namespace OrderKind

variable {α : Type}

/-- The stop price, of the kinds that have one. -/
def stop? : OrderKind α → Option α
  | .stop s => some s
  | .stopLimit s _ => some s
  | .limit _ => none

/-- The limit price, of the kinds that have one. -/
def limit? : OrderKind α → Option α
  | .stop _ => none
  | .stopLimit _ l => some l
  | .limit l => some l

/-- The prices of a kind, the stop first. -/
def prices (k : OrderKind α) : List α := k.stop?.toList ++ k.limit?.toList

end OrderKind

/-- How far an order has come. -/
inductive OrderStatus where
  /-- waiting for its stop or its limit -/
  | active
  /-- a stop-limit whose stop was reached: a standing limit order -/
  | triggered
  /-- done -/
  | filled
  /-- withdrawn -/
  | cancelled
deriving DecidableEq

/-- A stop, stop-limit or limit order that waits for its price. -/
structure Order (α : Type) where
  /-- the number it was given -/
  id : Nat
  /-- what it trades -/
  asset : Asset
  /-- which way -/
  side : Side
  /-- what it waits for -/
  kind : OrderKind α
  /-- how much, unsigned -/
  quantity : α
  /-- how far it has come -/
  status : OrderStatus
deriving DecidableEq

/-- Why an order cannot be decided. -/
inductive OrderFlaw (α : Type) where
  /-- the quantity is not finite or not positive -/
  | quantity (quantity : α)
  /-- a price is not finite or not positive -/
  | price (price : α)
  /-- the bar it was put to is of another asset -/
  | asset (order bar : Asset)
deriving DecidableEq

/-- A flaw and the number of the order that has it. -/
structure OrderFault (α : Type) where
  /-- the number of the order -/
  id : Nat
  /-- what is wrong with it -/
  flaw : OrderFlaw α
deriving DecidableEq

namespace Order

variable {α : Type} [Quantity α]

/-- The first flaw of an order, its quantity before its prices and the stop before the limit. -/
def flaw? (o : Order α) : Option (OrderFlaw α) :=
  if Quantity.isNotPositive o.quantity then some (.quantity o.quantity)
  else (o.kind.prices.find? Quantity.isNotPositive).map .price

/-- Quantity and prices are finite and positive. -/
def check (o : Order α) : Except (OrderFault α) Unit :=
  match o.flaw? with
  | some flaw => .error ⟨o.id, flaw⟩
  | none => .ok ()

/-- The quantity as it changes a position. -/
def signedQuantity (o : Order α) : α := o.side.signed o.quantity

omit [Quantity α] in
/-- Still waiting. -/
def isOpen (o : Order α) : Bool := o.status = .active || o.status = .triggered

omit [Quantity α] in
/-- Withdraws an order that is still waiting; any other stays as it is. -/
def cancel (o : Order α) : Order α := if o.isOpen then { o with status := .cancelled } else o

end Order

end Holdings
