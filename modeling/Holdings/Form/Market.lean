import Holdings.Instrument
import Holdings.Json.Choice
import Holdings.Json.Fields

/-!
# Bars and instruments in JSON
-/

namespace Holdings

instance : Named TickRule where
  values := [.nearest, .down, .up]
  name
    | .nearest => "round_nearest"
    | .down => "round_down"
    | .up => "round_up"

instance : Named AssetClass where
  values := [.equity, .future, .forex, .crypto]
  name
    | .equity => "equity"
    | .future => "future"
    | .forex => "forex"
    | .crypto => "crypto"

variable {α : Type} [Quantity α]

namespace Bar

omit [Quantity α] in
/-- Writes a bar. -/
def toJson (b : Bar α) : Json α := .object
  [("asset", .text b.asset), ("timestamp", .stamp b.time), ("open", .real b.opening),
    ("high", .real b.high), ("low", .real b.low), ("close", .real b.closing),
    ("volume", .real b.volume)]

/-- Reads a bar. Its volume need not be given. -/
def ofJson? (j : Json α) : Option (Bar α) := do
  let f ← Fields.of? ["asset", "timestamp", "open", "high", "low", "close", "volume"] j
  let asset ← f.required "asset" Json.text?
  let time ← f.required "timestamp" Json.instant?
  let opening ← f.required "open" Json.number?
  let high ← f.required "high" Json.number?
  let low ← f.required "low" Json.number?
  let closing ← f.required "close" Json.number?
  let volume ← f.withDefault "volume" 0 Json.number?
  return ⟨asset, time, opening, high, low, closing, volume⟩

end Bar

namespace Instrument

omit [Quantity α] in
/-- Writes an instrument. -/
def toJson (i : Instrument α) : Json α := .object
  [("asset", .text i.asset), ("tick_size", .real i.tick),
    ("asset_class", Named.toJson i.assetClass), ("price_multiplier", .real i.multiplier)]

/-- Reads an instrument. A contract stands for one unit where nothing else is given. -/
def ofJson? (origin : Origin) (j : Json α) : Option (Instrument α) := do
  let f ← Fields.of? ["asset", "tick_size", "asset_class", "price_multiplier"] j
  let asset ← f.required "asset" Json.text?
  let tick ← f.required "tick_size" Json.number?
  let assetClass ← f.required "asset_class" (Named.ofJson? origin.inside)
  let multiplier ← f.withDefault "price_multiplier" 1.0 Json.number?
  return ⟨asset, tick, assetClass, multiplier⟩

end Instrument

end Holdings
