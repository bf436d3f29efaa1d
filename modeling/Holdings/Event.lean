import Holdings.Fill
import Holdings.Order.Basic

/-!
# Events: what is recorded of a day

An `Event` concerns one asset: a trade, an observed price or bar, a change of exit levels, a new resting
order, a split or a dividend.
-/

namespace Holdings

/-- A recorded event. -/
inductive Event (α : Type) where
  /-- a trade; without a cost the cost model prices it -/
  | fill (asset : Asset) (quantity price : α) (cost : Option α) (time : Option Instant)
      (levels : ExitLevels α)
  /-- an observed price -/
  | mark (asset : Asset) (price : α) (time : Instant)
  /-- the prices of a stretch of time -/
  | bar (bar : Bar α)
  /-- new exit levels -/
  | levels (asset : Asset) (levels : ExitLevels α)
  /-- a new resting order -/
  | order (order : Order α)
  /-- a split of `ratio` old shares into one -/
  | split (asset : Asset) (ratio : α)
  /-- a dividend per share -/
  | dividend (asset : Asset) (perShare : α)

namespace Event

variable {α : Type}

/-- The asset that an event concerns. -/
def asset : Event α → Asset
  | .fill asset .. => asset
  | .mark asset _ _ => asset
  | .bar b => b.asset
  | .levels asset _ => asset
  | .order o => o.asset
  | .split asset _ => asset
  | .dividend asset _ => asset

end Event

end Holdings
