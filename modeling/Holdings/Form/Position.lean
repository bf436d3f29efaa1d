import Holdings.Exit.Trigger
import Holdings.Json.Choice
import Holdings.Json.Fields
import Holdings.Position.CorporateAction
import Holdings.Position.Settlement

/-!
# Positions, fills and exits in JSON
-/

namespace Holdings

instance : Named ExitReason where
  values := [.stopLoss, .takeProfit]
  name := ExitReason.label

instance : Named FillKind where
  values := [.opened, .increased, .reduced, .closed, .flipped]
  name
    | .opened => "opened"
    | .increased => "increased"
    | .reduced => "reduced"
    | .closed => "closed"
    | .flipped => "flipped"

variable {α : Type} [Quantity α]

namespace ExitLevels

omit [Quantity α] in
/-- Writes levels. -/
def toJson (l : ExitLevels α) : Json α := .object
  [("stop_loss", .maybe .real l.stopLoss), ("take_profit", .maybe .real l.takeProfit)]

/-- Reads levels, among other fields or alone. -/
def ofFields? (f : Fields α) : Option (ExitLevels α) := do
  let stopLoss ← f.optional "stop_loss" Json.number?
  let takeProfit ← f.optional "take_profit" Json.number?
  return ⟨stopLoss, takeProfit⟩

/-- Reads levels. -/
def ofJson? (j : Json α) : Option (ExitLevels α) :=
  (Fields.of? ["stop_loss", "take_profit"] j).bind ofFields?

end ExitLevels

namespace TriggerState

omit [Quantity α] in
/-- Writes the state of a trigger. -/
def toJson : TriggerState → Json α
  | .armed => .text "armed"
  | .fired reason => .object [("fired", Named.toJson reason)]
  | .disarmed => .text "disarmed"

/-- A state without a reason, by its name. -/
def ofName? (s : String) : Option TriggerState :=
  if s = "armed" then some .armed else if s = "disarmed" then some .disarmed else none

omit [Quantity α] in
/-- Reads the state of a trigger. -/
def ofJson? (origin : Origin) : Json α → Option TriggerState
  | .text s => ofName? s
  | .object [(s, beside)] =>
    if s = "fired" then (Named.ofJson? origin.inside beside).map .fired
    else if origin.isSilent beside then ofName? s
    else none
  | _ => none

end TriggerState

namespace Position

omit [Quantity α] in
/-- Writes a position. -/
def toJson (p : Position α) : Json α := .object
  [("asset", .text p.asset), ("amount", .real p.amount), ("cost_basis", .real p.basis),
    ("last_sale_price", .real p.lastPrice), ("last_sale_date", .maybe .stamp p.lastTime),
    ("exit_levels", p.levels.toJson), ("trigger_state", p.trigger.toJson)]

/-- Reads a position. -/
def ofJson? (origin : Origin) (j : Json α) : Option (Position α) := do
  let f ← Fields.of? ["asset", "amount", "cost_basis", "last_sale_price", "last_sale_date",
    "exit_levels", "trigger_state"] j
  let asset ← f.required "asset" Json.text?
  let amount ← f.required "amount" Json.number?
  let basis ← f.required "cost_basis" Json.number?
  let lastPrice ← f.required "last_sale_price" Json.number?
  let lastTime ← f.nullable "last_sale_date" Json.instant?
  let levels ← f.required "exit_levels" ExitLevels.ofJson?
  let trigger ← f.required "trigger_state" (TriggerState.ofJson? origin.inside)
  return ⟨asset, amount, basis, lastPrice, lastTime, levels, trigger⟩

end Position

namespace Fill

omit [Quantity α] in
/-- Writes a fill; levels are left out where it carries none. -/
def toJson (f : Fill α) : Json α := .object <|
  [("asset", .text f.asset), ("quantity", .real f.quantity), ("price", .real f.price),
    ("cost", .real f.cost), ("timestamp", .maybe .stamp f.time)]
    ++ (f.levels.map fun l => ("exit_levels", l.toJson)).toList

/-- Reads a fill. Where no cost is given there was none. -/
def ofJson? (j : Json α) : Option (Fill α) := do
  let f ← Fields.of? ["asset", "quantity", "price", "cost", "timestamp", "exit_levels"] j
  let asset ← f.required "asset" Json.text?
  let quantity ← f.required "quantity" Json.number?
  let price ← f.required "price" Json.number?
  let cost ← f.withDefault "cost" 0 Json.number?
  let time ← f.optional "timestamp" Json.instant?
  let levels ← f.optional "exit_levels" ExitLevels.ofJson?
  return ⟨asset, quantity, price, cost, time, levels⟩

end Fill

namespace ExitIntent

omit [Quantity α] in
/-- Writes the trade that leaves a position. -/
def toJson (i : ExitIntent α) : Json α := .object
  [("asset", .text i.asset), ("quantity", .real i.quantity), ("reason", Named.toJson i.reason),
    ("level", .real i.level), ("price", .real i.price), ("timestamp", .maybe .stamp i.time)]

/-- Reads the trade that leaves a position. -/
def ofJson? (origin : Origin) (j : Json α) : Option (ExitIntent α) := do
  let f ← Fields.of? ["asset", "quantity", "reason", "level", "price", "timestamp"] j
  let asset ← f.required "asset" Json.text?
  let quantity ← f.required "quantity" Json.number?
  let reason ← f.required "reason" (Named.ofJson? origin.inside)
  let level ← f.required "level" Json.number?
  let price ← f.required "price" Json.number?
  let time ← f.optional "timestamp" Json.instant?
  return ⟨asset, quantity, reason, level, price, time⟩

end ExitIntent

namespace Dividend

omit [Quantity α] in
/-- Writes the cash owed for a dividend. -/
def toJson (d : Dividend α) : Json α := .object [("asset", .text d.asset), ("cash", .real d.cash)]

/-- Reads the cash owed for a dividend. -/
def ofJson? (j : Json α) : Option (Dividend α) := do
  let f ← Fields.of? ["asset", "cash"] j
  return ⟨← f.required "asset" Json.text?, ← f.required "cash" Json.number?⟩

end Dividend

namespace StockDividend

omit [Quantity α] in
/-- Writes the shares owed for a dividend. -/
def toJson (d : StockDividend α) : Json α := .object
  [("payment_asset", .text d.paymentAsset), ("share_count", .real d.shares)]

/-- Reads the shares owed for a dividend. -/
def ofJson? (j : Json α) : Option (StockDividend α) := do
  let f ← Fields.of? ["payment_asset", "share_count"] j
  return ⟨← f.required "payment_asset" Json.text?, ← f.required "share_count" Json.number?⟩

end StockDividend

end Holdings
