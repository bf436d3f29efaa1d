import Holdings.Instrument
import Holdings.Lot
import Holdings.Position.Basic

/-!
# Corporate actions: splits, dividends and charges

A split of ratio `r` turns `r` old shares into one new one. The amount is rounded onto the lots towards
zero, and what is left over is paid out in cash at the new basis. Basis, levels and cash are rounded to
the cent.

A dividend is owed on the amount held; a short position owes it. A charge that comes outside any fill
is spread over the whole position.
-/

namespace Holdings

/-- Cash owed on the pay date of a dividend. -/
structure Dividend (α : Type) where
  /-- what it is paid on -/
  asset : Asset
  /-- how much; negative for a short position -/
  cash : α
deriving DecidableEq

/-- Shares owed for a dividend that is paid in shares. -/
structure StockDividend (α : Type) where
  /-- what it is paid in -/
  paymentAsset : Asset
  /-- how many -/
  shares : α
deriving DecidableEq

namespace Position

variable {α : Type} [Quantity α]

/-- The nearest cent. -/
def toCent (x : α) : α := Quantity.round (x * 100.0) / 100.0

/-- The shares that a split leaves, before and after rounding, with the rest between them. -/
structure SplitShares (α : Type) where
  /-- on the lots -/
  kept : α
  /-- off the lots: paid out -/
  rest : α

/-- How a split of a ratio divides an amount. -/
def splitShares (amount ratio : α) (lot : Lot α) : SplitShares α :=
  let raw := amount / ratio
  let kept := lot.round raw
  ⟨kept, raw - kept⟩

/-- Splits a position that is not flat by a ratio that is a positive number: the cash paid out and the
position after it. A position that is rounded away loses its basis and its levels. -/
def splitHeld (p : Position α) (ratio : α) (lot : Lot α) : α × Position α :=
  let shares := splitShares p.amount ratio lot
  let basis := toCent (p.basis * ratio)
  let scale := fun x => toCent (x * ratio)
  let moved : Position α :=
    { p with amount := shares.kept, basis := basis, lastPrice := p.lastPrice * ratio }
  let next : Position α :=
    if moved.isFlat then { moved with basis := 0 }.withoutLevels
    else { moved with levels := p.levels.map scale scale }
  (toCent (shares.rest * basis), next)

/-- Applies a split of an asset. -/
def split (p : Position α) (asset : Asset) (ratio : α) (lot : Lot α) :
    Except (Fault α) (α × Position α) :=
  if p.asset ≠ asset then .error (.asset p.asset asset)
  else if Quantity.isNotPositive ratio then .error (.ratio ratio)
  else if p.isFlat then .ok (0, p)
  else .ok (p.splitHeld ratio lot)

/-- The cash owed for a dividend per share. -/
def dividend (p : Position α) (perShare : α) : Dividend α := ⟨p.asset, p.amount * perShare⟩

/-- The shares owed for a dividend of a ratio of shares per share, rounded onto the lots. -/
def stockDividend (p : Position α) (paymentAsset : Asset) (ratio : α) (lot : Lot α) :
    StockDividend α :=
  ⟨paymentAsset, lot.round (p.amount * ratio)⟩

/-- A charge in units of the price: for a futures contract it is divided by the multiplier. -/
def chargeInPrice (instrument : Option (Instrument α)) (cost : α) : α :=
  match instrument with
  | some i => if i.isFuture && !(i.multiplier == 0) then cost / i.multiplier else cost
  | none => cost

/-- Spreads a charge over a position. A long position then breaks even higher and a short one lower. -/
def charge (p : Position α) (instrument : Option (Instrument α)) (cost : α) :
    Except (Fault α) (Position α) :=
  match instrument.filter fun i => i.asset ≠ p.asset with
  | some i => .error (.asset p.asset i.asset)
  | none =>
    if !Quantity.isFinite cost then .error (.fill (.cost cost))
    else if cost == 0 || p.isFlat then .ok p
    else .ok { p with basis := (p.basis * p.amount + chargeInPrice instrument cost) / p.amount }

end Position

end Holdings
