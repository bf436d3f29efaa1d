import Holdings.Json.Choice
import Holdings.Json.Fields
import Holdings.Policy

/-!
# Policies in JSON

Every field of a policy has a default, so that an empty object is the usual policy. Reading does not check
the numbers.
-/

namespace Holdings

instance : Named GapRule where
  values := [.atOpen, .atTrigger, .atWorst]
  name
    | .atOpen => "fill_at_open"
    | .atTrigger => "fill_at_trigger"
    | .atWorst => "fill_at_worst"

instance : Named Activation where
  values := [.nextBar, .sameBar]
  name
    | .nextBar => "next_bar"
    | .sameBar => "same_bar"

instance : Named CostTreatment where
  values := [.intoBasis, .expensed]
  name
    | .intoBasis => "into_basis"
    | .expensed => "excluded"

variable {α : Type} [Quantity α]

namespace Lot

omit [Quantity α] in
/-- Writes a grid of amounts. -/
def toJson : Lot α → Json α
  | .wholeShares => .tagged "full_shares" []
  | .fractional precision => .tagged "fractional" [("precision", .real precision)]

/-- The readers of the grids, by their tags. -/
def choices : List (String × (Json α → Option (Lot α))) :=
  [("full_shares", Json.noFields? .wholeShares),
    ("fractional", fun body => do
      let f ← Fields.of? ["precision"] body
      return .fractional (← f.required "precision" Json.number?))]

/-- Reads a grid of amounts. -/
def ofJson? (origin : Origin) (j : Json α) : Option (Lot α) := j.choose? origin choices

end Lot

namespace CostModel

omit [Quantity α] in
/-- Writes a cost model. -/
def toJson : CostModel α → Json α
  | .free => .tagged "none" []
  | .perShare amount minimum =>
    .tagged "per_share" [("amount", .real amount), ("minimum", .real minimum)]
  | .perTrade amount => .tagged "per_trade" [("amount", .real amount)]
  | .basisPoints rate => .tagged "bps" [("bps", .real rate)]

/-- The readers of the cost models, by their tags. -/
def choices : List (String × (Json α → Option (CostModel α))) :=
  [("none", Json.noFields? .free),
    ("per_share", fun body => do
      let f ← Fields.of? ["amount", "minimum"] body
      return .perShare (← f.required "amount" Json.number?)
        (← f.withDefault "minimum" 0 Json.number?)),
    ("per_trade", fun body => do
      let f ← Fields.of? ["amount"] body
      return .perTrade (← f.required "amount" Json.number?)),
    ("bps", fun body => do
      let f ← Fields.of? ["bps"] body
      return .basisPoints (← f.required "bps" Json.number?))]

/-- Reads a cost model. -/
def ofJson? (origin : Origin) (j : Json α) : Option (CostModel α) := j.choose? origin choices

end CostModel

namespace Policy

omit [Quantity α] in
/-- Writes a policy. -/
def toJson (p : Policy α) : Json α := .object
  [("rounding", p.lot.toJson), ("gap_policy", Named.toJson p.gap),
    ("stop_limit_activation", Named.toJson p.activation), ("min_fill_quantity", .real p.minimum),
    ("cost_amortization", Named.toJson p.treatment), ("costs", p.costs.toJson)]

/-- Reads a policy. -/
def ofJson? (origin : Origin) (j : Json α) : Option (Policy α) := do
  let f ← Fields.of? ["rounding", "gap_policy", "stop_limit_activation", "min_fill_quantity",
    "cost_amortization", "costs"] j
  let inner := origin.inside
  let lot ← f.withDefault "rounding" usual.lot (Lot.ofJson? inner)
  let gap ← f.withDefault "gap_policy" (usual (α := α)).gap (Named.ofJson? inner)
  let activation ← f.withDefault "stop_limit_activation" (usual (α := α)).activation (Named.ofJson? inner)
  let minimum ← f.withDefault "min_fill_quantity" usual.minimum Json.number?
  let treatment ← f.withDefault "cost_amortization" (usual (α := α)).treatment (Named.ofJson? inner)
  let costs ← f.withDefault "costs" usual.costs (CostModel.ofJson? inner)
  return ⟨lot, gap, activation, minimum, treatment, costs⟩

end Policy

end Holdings
