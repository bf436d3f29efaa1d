import Holdings.Json.Choice
import Holdings.Json.Fields
import Holdings.Order.Basic

/-!
# Orders in JSON

Reading does not check an order: its prices may be anything. An order whose status is not given waits.
-/

namespace Holdings

instance : Named Side where
  values := [.buy, .sell]
  name
    | .buy => "buy"
    | .sell => "sell"

instance : Named OrderStatus where
  values := [.active, .triggered, .filled, .cancelled]
  name
    | .active => "active"
    | .triggered => "triggered"
    | .filled => "filled"
    | .cancelled => "cancelled"

variable {α : Type} [Quantity α]

namespace OrderKind

omit [Quantity α] in
/-- Writes a kind of order. -/
def toJson : OrderKind α → Json α
  | .stop s => .tagged "stop" [("stop_price", .real s)]
  | .stopLimit s l => .tagged "stop_limit" [("stop_price", .real s), ("limit_price", .real l)]
  | .limit l => .tagged "limit" [("limit_price", .real l)]

/-- The readers of the kinds of order, by their tags. -/
def choices : List (String × (Json α → Option (OrderKind α))) :=
  [("stop", fun body => do
      let f ← Fields.of? ["stop_price"] body
      return .stop (← f.required "stop_price" Json.number?)),
    ("stop_limit", fun body => do
      let f ← Fields.of? ["stop_price", "limit_price"] body
      return .stopLimit (← f.required "stop_price" Json.number?)
        (← f.required "limit_price" Json.number?)),
    ("limit", fun body => do
      let f ← Fields.of? ["limit_price"] body
      return .limit (← f.required "limit_price" Json.number?))]

/-- Reads a kind of order. -/
def ofJson? (origin : Origin) (j : Json α) : Option (OrderKind α) := j.choose? origin choices

end OrderKind

namespace Order

omit [Quantity α] in
/-- Writes an order. -/
def toJson (o : Order α) : Json α := .object
  [("id", .count o.id), ("asset", .text o.asset), ("side", Named.toJson o.side),
    ("kind", o.kind.toJson), ("quantity", .real o.quantity), ("status", Named.toJson o.status)]

/-- Reads an order. -/
def ofJson? (origin : Origin) (j : Json α) : Option (Order α) := do
  let f ← Fields.of? ["id", "asset", "side", "kind", "quantity", "status"] j
  let id ← f.required "id" Json.natural?
  let asset ← f.required "asset" Json.text?
  let side ← f.required "side" (Named.ofJson? origin.inside)
  let kind ← f.required "kind" (OrderKind.ofJson? origin.inside)
  let quantity ← f.required "quantity" Json.number?
  let status ← f.withDefault "status" .active (Named.ofJson? origin.inside)
  return ⟨id, asset, side, kind, quantity, status⟩

end Order

end Holdings
