import Holdings.Form.Position
import Holdings.Snapshot

/-!
# Snapshots in JSON

The state of the trigger was not always recorded: a record without it is armed.
-/

namespace Holdings

variable {α : Type} [Quantity α]

namespace Record

omit [Quantity α] in
/-- Writes a record. -/
def toJson (r : Record α) : Json α := .object
  [("sid", .text r.asset), ("amount", .real r.amount), ("cost_basis", .real r.basis),
    ("last_sale_price", .real r.lastPrice), ("last_sale_date", .maybe .stamp r.lastTime),
    ("take_profit_price", .real r.takeProfit), ("stop_loss_price", .real r.stopLoss),
    ("trigger_state", r.trigger.toJson)]

/-- Reads a record. -/
def ofJson? (origin : Origin) (j : Json α) : Option (Record α) := do
  let f ← Fields.of? ["sid", "amount", "cost_basis", "last_sale_price", "last_sale_date",
    "take_profit_price", "stop_loss_price", "trigger_state"] j
  let asset ← f.required "sid" Json.text?
  let amount ← f.required "amount" Json.number?
  let basis ← f.required "cost_basis" Json.number?
  let lastPrice ← f.required "last_sale_price" Json.number?
  let lastTime ← f.optional "last_sale_date" Json.instant?
  let takeProfit ← f.withDefault "take_profit_price" 0 Json.number?
  let stopLoss ← f.withDefault "stop_loss_price" 0 Json.number?
  let trigger ← f.withDefault "trigger_state" .armed (TriggerState.ofJson? origin.inside)
  return ⟨asset, amount, basis, lastPrice, lastTime, takeProfit, stopLoss, trigger⟩

end Record

namespace Snapshot

omit [Quantity α] in
/-- Writes a snapshot. -/
def toJson (s : Snapshot α) : Json α := .object
  [("positions", .array (s.records.map Record.toJson)), ("realized_pnl", .real s.realized)]

/-- Reads a snapshot. -/
def ofJson? (origin : Origin) (j : Json α) : Option (Snapshot α) := do
  let f ← Fields.of? ["positions", "realized_pnl"] j
  let records ← f.required "positions" (Json.list? (Record.ofJson? origin.inside.inside))
  let realized ← f.withDefault "realized_pnl" 0 Json.number?
  return ⟨records, realized⟩

end Snapshot

end Holdings
