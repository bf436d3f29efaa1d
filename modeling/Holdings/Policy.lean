import Holdings.Cost
import Holdings.Lot
import Holdings.Order.Decision
import Holdings.Position.Settlement

/-!
# Policies: how a book is kept

A `Policy` gathers what can be chosen: lots, gaps and activation of orders, the smallest fill, where costs
go and what trades cost. `Policy.check` is what every policy read from a file has to satisfy.
-/

namespace Holdings

/-- How a book is kept. -/
structure Policy (α : Type) where
  /-- the amounts that can be held -/
  lot : Lot α
  /-- where a stop fills that was gapped -/
  gap : GapRule
  /-- when a stop-limit becomes a limit -/
  activation : Activation
  /-- the smallest quantity of a fill -/
  minimum : α
  /-- where the cost of a fill goes -/
  treatment : CostTreatment
  /-- what trades cost -/
  costs : CostModel α
deriving DecidableEq

/-- Why a policy is refused. -/
inductive PolicyFault (α : Type) where
  /-- the smallest quantity is not finite or not positive -/
  | minimum (minimum : α)
  /-- the precision of the lots is not finite or not positive -/
  | precision (precision : α)
  /-- a number of the cost model is not finite, or negative -/
  | costs (model : CostModel α)
deriving DecidableEq

namespace Policy

variable {α : Type} [Quantity α]

/-- The policy where nothing was chosen. -/
def usual : Policy α where
  lot := .usual
  gap := .atOpen
  activation := .nextBar
  minimum := 1e-9
  treatment := .intoBasis
  costs := .free

/-- The first flaw of a policy: of its smallest quantity, then its lots, then its costs. -/
def fault? (p : Policy α) : Option (PolicyFault α) :=
  if Quantity.isNotPositive p.minimum then some (.minimum p.minimum)
  else match p.lot with
    | .fractional precision =>
      if Quantity.isNotPositive precision then some (.precision precision) else costFault?
    | .wholeShares => costFault?
where
  /-- the flaw of the costs -/
  costFault? : Option (PolicyFault α) :=
    if p.costs.rates.any Quantity.isNoPrice then some (.costs p.costs) else none

/-- The numbers of a policy make sense. -/
def check (p : Policy α) : Except (PolicyFault α) Unit :=
  match p.fault? with
  | some fault => .error fault
  | none => .ok ()

omit [Quantity α] in
/-- How orders are decided. -/
def fillRule (p : Policy α) : FillRule := ⟨p.gap, p.activation⟩

/-- On which terms fills settle. -/
def settlement (p : Policy α) : Settlement α := .ofMinimum p.minimum p.treatment

end Policy

end Holdings
