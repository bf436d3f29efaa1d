import Mathlib
import Holdings.Proofs.Form.RoundTrip
import Holdings.Proofs.Json.Shown

/-!
# What the text of a report says

A report is written and never read by the library itself. Here stands a reader of reports, which looks for each field
by its name. The profit, the cash and the worth in a report may have left the finite numbers, and then their places in
the text are empty. So what is read is a report of numbers that may be missing: `Report.shown` is the report with just
its finite numbers.

`Report.parse?_pretty` — the text of a report is read as what is shown of it.
-/

namespace Holdings

variable {α β : Type}

/-! ## Numbers of another kind in the same places -/

/-- The same tally with other numbers. -/
def Tally.map (f : α → β) (t : Tally α) : Tally β :=
  { t with
    netCash := f t.netCash
    splitCash := f t.splitCash
    dividendCash := f t.dividendCash }

/-- The same record with other numbers. -/
def Record.map (f : α → β) (r : Record α) : Record β :=
  { r with
    amount := f r.amount
    basis := f r.basis
    lastPrice := f r.lastPrice
    takeProfit := f r.takeProfit
    stopLoss := f r.stopLoss }

/-- The same report with other numbers. -/
def Report.map (f : α → β) (r : Report α) : Report β :=
  { tally := r.tally.map f
    realized := f r.realized
    unrealized := f r.unrealized
    marketValue := f r.marketValue
    openOrders := r.openOrders
    records := r.records.map (Record.map f) }

variable [Numeral α]

/-! ## Records -/

namespace Record

/-- The numbers of a record that are finite come back, and so does its time. -/
def LegibleIfFinite (r : Record α) : Prop :=
  (∀ x ∈ [r.amount, r.basis, r.lastPrice, r.takeProfit, r.stopLoss], Numeral.LegibleIfFinite x) ∧
    ∀ i ∈ r.lastTime, i.Legible

instance [DecidableEq α] (r : Record α) : Decidable r.LegibleIfFinite := inferInstanceAs (Decidable (_ ∧ _))

/-- Reads a record of a report. -/
def readShown? (j : Json α) : Option (Record (Option α)) := do
  let f ← Fields.of? ["sid", "amount", "cost_basis", "last_sale_price", "last_sale_date",
    "take_profit_price", "stop_loss_price", "trigger_state"] j
  let number := fun name => f.required name (Json.maybe? Json.number?)
  return {
    asset := ← f.required "sid" Json.text?
    amount := ← number "amount"
    basis := ← number "cost_basis"
    lastPrice := ← number "last_sale_price"
    lastTime := ← f.required "last_sale_date" (Json.maybe? Json.instant?)
    takeProfit := ← number "take_profit_price"
    stopLoss := ← number "stop_loss_price"
    trigger := ← f.required "trigger_state" (TriggerState.ofJson? (.text 3)) }

end Record

theorem TriggerState.shown_toJson (t : TriggerState) : (t.toJson : Json α).shown = t.toJson := by
  cases t <;> simp [toJson]

namespace Record

theorem legible_shown_toJson {r : Record α} (h : r.LegibleIfFinite) : r.toJson.shown.Legible := by
  simpa [toJson, TriggerState.shown_toJson, TriggerState.legible_toJson] using h.1

theorem readShown?_toJson {r : Record α} (h : r.LegibleIfFinite) :
    readShown? r.toJson.shown = some (r.map Quantity.finite?) := by
  simp [readShown?, toJson, map, Fields.of?_object, Fields.required, Json.maybe?_stamp h.2, TriggerState.shown_toJson,
    TriggerState.ofJson?_toJson]

end Record

/-! ## Reports -/

/-- Reads the tally among the fields of a report. -/
def Tally.ofFields? (f : Fields α) : Option (Tally (Option α)) := do
  let count := fun name => f.required name Json.natural?
  let number := fun name => f.required name (Json.maybe? Json.number?)
  return {
    events := ← count "events"
    fills := ← count "fills"
    rejected := ← count "rejected"
    exits := ← count "triggers_fired"
    ordersFilled := ← count "orders_filled"
    ordersCancelled := ← count "orders_cancelled"
    netCash := ← number "net_cash"
    splitCash := ← number "split_cash"
    dividendCash := ← number "dividend_cash" }

namespace Report

/-- The counts of a report have 64 bits. Its numbers that are finite come back, and so do the times in it. -/
def Legible (r : Report α) : Prop :=
  (∀ n ∈ [r.tally.events, r.tally.fills, r.tally.rejected, r.tally.exits, r.tally.ordersFilled,
      r.tally.ordersCancelled, r.openOrders], n ≤ Json.greatestWord) ∧
    (∀ x ∈ [r.tally.netCash, r.tally.splitCash, r.tally.dividendCash, r.realized, r.unrealized, r.marketValue],
      Numeral.LegibleIfFinite x) ∧
    ∀ x ∈ r.records, x.LegibleIfFinite

instance [DecidableEq α] (r : Report α) : Decidable r.Legible := inferInstanceAs (Decidable (_ ∧ _ ∧ _))

/-- What the text of a report shows: a number that is not finite is missing. -/
def shown (r : Report α) : Report (Option α) := r.map Quantity.finite?

/-- Reads a report. -/
def ofJson? (j : Json α) : Option (Report (Option α)) := do
  let f ← Fields.of? ["events", "fills", "rejected", "triggers_fired", "orders_filled", "orders_cancelled",
    "net_cash", "split_cash", "dividend_cash", "realized_pnl", "unrealized_pnl", "market_value", "open_orders",
    "positions"] j
  let number := fun name => f.required name (Json.maybe? Json.number?)
  return {
    tally := ← Tally.ofFields? f
    realized := ← number "realized_pnl"
    unrealized := ← number "unrealized_pnl"
    marketValue := ← number "market_value"
    openOrders := ← f.required "open_orders" Json.natural?
    records := ← f.required "positions" (Json.list? Record.readShown?) }

/-- Reads the text of a report. -/
def parse? (text : String) : Option (Report (Option α)) := (Json.parse? text).bind ofJson?

theorem legible_shown_toJson {r : Report α} (h : r.Legible) : r.toJson.shown.Legible := by
  obtain ⟨hcounts, hnumbers, hrecords⟩ := h
  have hcount : ∀ n ≤ Json.greatestWord, (Json.count n : Json α).Legible := fun _ => Json.legible_count
  simp only [List.forall_mem_cons] at hcounts
  simp only [toJson, Json.shown_object, Json.shown_array, Json.shown_count, Json.legible_object_iff,
    Json.legible_array_iff, Json.legible_shown_real_iff, List.map_cons, List.map_nil, List.forall_mem_cons,
    List.forall_mem_map] at hnumbers ⊢
  simpa [hcount, hcounts, hnumbers] using fun x hx => Record.legible_shown_toJson (hrecords x hx)

theorem ofJson?_toJson {r : Report α} (h : r.Legible) : ofJson? r.toJson.shown = some r.shown := by
  have hrecords : (Json.array (r.records.map fun x => x.toJson.shown)).list? Record.readShown? =
      some (r.records.map (Record.map Quantity.finite?)) :=
    Json.list?_array fun x hx => Record.readShown?_toJson (h.2.2 x hx)
  rw [toJson, Json.shown_object, ofJson?]
  refine Fields.bind_of?_object (.refl _) (by simp) fun f hfind => ?_
  simp only [List.map_cons, List.map_nil, List.forall_mem_cons] at hfind
  simp [Tally.ofFields?, Fields.required, hfind, hrecords, shown, map, Tally.map, Function.comp_def]

/-- **The text of a report is read back** as what it shows, also where blanks follow it. -/
theorem parse?_pretty {r : Report α} (h : r.Legible) (blanks : String)
    (hblanks : ∀ c ∈ blanks.toList, Json.isSpace c = true) : parse? (r.pretty ++ blanks) = some r.shown := by
  rw [parse?, pretty, Json.pretty_eq_text, Json.parse?_text_shown (legible_shown_toJson h) blanks hblanks,
    Option.bind_some, ofJson?_toJson h]

end Report

end Holdings
