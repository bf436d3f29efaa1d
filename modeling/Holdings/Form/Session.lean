import Holdings.Form.Market
import Holdings.Form.Order
import Holdings.Form.Snapshot
import Holdings.Session

/-!
# Events and reports in JSON

Events are read and reports are written. An event is a tagged record; that of a bar has the fields of the
bar itself.
-/

namespace Holdings

variable {α : Type} [Quantity α]

namespace Event

/-- The readers of the events, by their tags. -/
def choices : List (String × (Json α → Option (Event α))) :=
  [("fill", fun body => do
      let f ← Fields.of?
        ["asset", "quantity", "price", "cost", "timestamp", "stop_loss", "take_profit"] body
      let asset ← f.required "asset" Json.text?
      let quantity ← f.required "quantity" Json.number?
      let price ← f.required "price" Json.number?
      let cost ← f.optional "cost" Json.number?
      let time ← f.optional "timestamp" Json.instant?
      return .fill asset quantity price cost time (← ExitLevels.ofFields? f)),
    ("mark", fun body => do
      let f ← Fields.of? ["asset", "price", "timestamp"] body
      return .mark (← f.required "asset" Json.text?) (← f.required "price" Json.number?)
        (← f.required "timestamp" Json.instant?)),
    ("bar", fun body => (Bar.ofJson? body).map .bar),
    ("exit_levels", fun body => do
      let f ← Fields.of? ["asset", "stop_loss", "take_profit"] body
      return .levels (← f.required "asset" Json.text?) (← ExitLevels.ofFields? f)),
    ("stop_order", fun body => do
      let f ← Fields.of? ["order"] body
      return .order (← f.required "order" (Order.ofJson? .held))),
    ("split", fun body => do
      let f ← Fields.of? ["asset", "ratio"] body
      return .split (← f.required "asset" Json.text?) (← f.required "ratio" Json.number?)),
    ("dividend", fun body => do
      let f ← Fields.of? ["asset", "cash_per_share"] body
      return .dividend (← f.required "asset" Json.text?)
        (← f.required "cash_per_share" Json.number?))]

/-- Reads an event. -/
def ofJson? (origin : Origin) (j : Json α) : Option (Event α) := j.choose? origin choices

/-- Reads a list of events from a whole text. -/
def listOfJson? (j : Json α) : Option (List (Event α)) := j.list? (ofJson? (.text 1))

end Event

namespace Report

omit [Quantity α] in
/-- Writes a report. -/
def toJson (r : Report α) : Json α := .object
  [("events", .count r.tally.events), ("fills", .count r.tally.fills),
    ("rejected", .count r.tally.rejected), ("triggers_fired", .count r.tally.exits),
    ("orders_filled", .count r.tally.ordersFilled),
    ("orders_cancelled", .count r.tally.ordersCancelled), ("net_cash", .real r.tally.netCash),
    ("split_cash", .real r.tally.splitCash), ("dividend_cash", .real r.tally.dividendCash),
    ("realized_pnl", .real r.realized), ("unrealized_pnl", .real r.unrealized),
    ("market_value", .real r.marketValue), ("open_orders", .count r.openOrders),
    ("positions", .array (r.records.map Record.toJson))]

end Report

end Holdings
