import Holdings.Fill
import Holdings.Position.Basic

/-!
# Settlement: what a fill does to a position

Comparing the signs of the amount held and of the fill gives the kind of the fill:

* *opened* — nothing was held: the fill becomes the position;
* *increased* — same side: the basis becomes the average of the old basis and the entry price, weighted
  by quantity;
* *reduced* — other side and smaller: the part that leaves is realised, the basis stays;
* *closed* — nothing is left: all of it is realised;
* *flipped* — other side and larger: the old amount is realised and the rest is entered anew.

A remainder below the smallest quantity counts as nothing. The cost of a fill goes into its price per
unit (`CostTreatment.intoBasis`), which makes purchases dearer and sales poorer, or is expensed.
-/

namespace Holdings

/-- Where the cost of a fill goes. -/
inductive CostTreatment where
  /-- into the price per unit -/
  | intoBasis
  /-- off the profit at once -/
  | expensed
deriving DecidableEq

/-- What a fill did. -/
inductive FillKind where
  /-- it became the position -/
  | opened
  /-- it added to the position -/
  | increased
  /-- it took from the position -/
  | reduced
  /-- it ended the position -/
  | closed
  /-- it turned the position to the other side -/
  | flipped
deriving DecidableEq

/-- The result of a fill. -/
structure Outcome (α : Type) where
  /-- what the fill did -/
  kind : FillKind
  /-- profit on the part that left the position -/
  realized : α
  /-- cost taken off the profit at once -/
  expensed : α
  /-- the amount held afterwards -/
  amount : α
  /-- the basis afterwards -/
  basis : α
deriving DecidableEq

/-- The terms on which fills settle. -/
structure Settlement (α : Type) where
  /-- the smallest quantity of a fill; a smaller remainder counts as nothing -/
  minimum : α
  /-- where the cost goes -/
  treatment : CostTreatment

variable {α : Type} [Quantity α]

namespace Outcome

/-- The whole effect of a fill on the profit. -/
def netProfit (o : Outcome α) : α := o.realized - o.expensed

end Outcome

namespace Settlement

/-- Terms with the magnitude of a quantity as the smallest one. -/
def ofMinimum (minimum : α) (treatment : CostTreatment) : Settlement α :=
  ⟨Quantity.abs minimum, treatment⟩

/-- The first flaw of a fill for a position in its asset. -/
def fillFault? (s : Settlement α) (f : Fill α) : Option (FillFault α) :=
  if !Quantity.isFinite f.quantity then some (.quantity f.quantity)
  else if f.quantity == 0 then some .zeroQuantity
  else if Quantity.abs f.quantity < s.minimum then some (.dust f.quantity s.minimum)
  else if Quantity.isNoPrice f.price then some (.price f.price)
  else if !Quantity.isFinite f.cost then some (.cost f.cost)
  else none

/-- The first reason to refuse a fill for a position. -/
def fault? (s : Settlement α) (p : Position α) (f : Fill α) : Option (Fault α) :=
  if p.asset ≠ f.asset then some (.asset p.asset f.asset)
  else (s.fillFault? f).map .fill

/-- The amount after a fill. -/
def remaining (s : Settlement α) (held quantity : α) : α :=
  let sum := held + quantity
  if Quantity.abs sum < s.minimum then 0 else sum

/-- The price per unit at which a fill enters or leaves a position. -/
def unitPrice (s : Settlement α) (f : Fill α) : α :=
  match s.treatment with
  | .intoBasis => f.price + f.cost / f.quantity
  | .expensed => f.price

/-- The cost of a fill that is expensed. -/
def expense (s : Settlement α) (f : Fill α) : α :=
  match s.treatment with
  | .intoBasis => 0.0
  | .expensed => f.cost

/-- What a fill of a quantity does to an amount, when `left` is the amount after it. -/
def kindOf (held quantity left : α) : FillKind :=
  if held == 0 then .opened
  else if Quantity.sameSide held quantity then .increased
  else if left == 0 then .closed
  else if Quantity.sameSide left held then .reduced
  else .flipped

/-- The basis after a fill. -/
def basisAfter (s : Settlement α) (p : Position α) (f : Fill α) : α :=
  let left := s.remaining p.amount f.quantity
  match kindOf p.amount f.quantity left with
  | .opened => s.unitPrice f
  | .increased => (p.amount * p.basis + f.quantity * s.unitPrice f) / left
  | .reduced => p.basis
  | .closed => 0
  | .flipped => s.unitPrice f

/-- The profit that a fill realises. -/
def realizedBy (s : Settlement α) (p : Position α) (f : Fill α) : α :=
  match kindOf p.amount f.quantity (s.remaining p.amount f.quantity) with
  | .opened => 0.0
  | .increased => 0.0
  | .reduced => -f.quantity * (s.unitPrice f - p.basis)
  | .closed => p.amount * (s.unitPrice f - p.basis)
  | .flipped => p.amount * (s.unitPrice f - p.basis)

omit [Quantity α] in
/-- Whether a fill at a time brings a newer price than the position has. -/
def isNewer (p : Position α) (time : Instant) : Bool :=
  match p.lastTime with
  | none => true
  | some last => last.before time

omit [Quantity α] in
/-- The position with the price of a fill, where it is newer than the one it has. -/
def observe (p : Position α) (f : Fill α) : Position α :=
  match f.time with
  | some time => if isNewer p time then { p with lastPrice := f.price, lastTime := some time } else p
  | none => p

/-- A fill that passed the checks: its result, and the position after it. Levels do not survive the
end of a position, nor a change of its side. -/
def settle (s : Settlement α) (p : Position α) (f : Fill α) : Outcome α × Position α :=
  let left := s.remaining p.amount f.quantity
  let kind := kindOf p.amount f.quantity left
  let basis := s.basisAfter p f
  let moved : Position α := { p with amount := left, basis := basis }
  let guarded :=
    if moved.isFlat || kind = .closed || kind = .flipped then moved.withoutLevels else moved
  ({ kind := kind
     realized := s.realizedBy p f
     expensed := s.expense f
     amount := left
     basis := basis },
   observe guarded f)

/-- Applies a fill to a position, with the exit levels it carries unless it leaves nothing to guard.
A fill that is refused, also for its levels, changes nothing. -/
def apply (s : Settlement α) (p : Position α) (f : Fill α) :
    Except (Fault α) (Outcome α × Position α) :=
  match s.fault? p f with
  | some fault => .error fault
  | none =>
    let (outcome, next) := s.settle p f
    match f.levels with
    | none => .ok (outcome, next)
    | some levels =>
      if next.isFlat then .ok (outcome, next)
      else (next.configure levels).map fun guarded => (outcome, guarded)

end Settlement

end Holdings
