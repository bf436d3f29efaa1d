import Holdings.Quantity.Basic

/-!
# Cost models: what a trade costs

The cost of a trade is charged on its quantity without sign.
-/

namespace Holdings

/-- How trades are priced. -/
inductive CostModel (α : Type) where
  /-- nothing -/
  | free
  /-- an amount for each share, and at least a minimum -/
  | perShare (amount minimum : α)
  /-- the same amount for every trade -/
  | perTrade (amount : α)
  /-- ten-thousandths of the value traded -/
  | basisPoints (rate : α)
deriving DecidableEq

namespace CostModel

variable {α : Type}

/-- The numbers of a model. -/
def rates : CostModel α → List α
  | .free => []
  | .perShare amount minimum => [amount, minimum]
  | .perTrade amount => [amount]
  | .basisPoints rate => [rate]

variable [Quantity α]

/-- The cost of trading a quantity at a price. -/
def cost (m : CostModel α) (quantity price : α) : α :=
  match m with
  | .free => 0.0
  | .perShare amount minimum => Quantity.atLeast (Quantity.abs quantity * amount) minimum
  | .perTrade amount => amount
  | .basisPoints rate => Quantity.abs quantity * price * rate / 10000.0

end CostModel

end Holdings
