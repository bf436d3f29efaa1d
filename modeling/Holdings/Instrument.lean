import Holdings.Bar

/-!
# Instruments: the prices an asset can have

An `Instrument` says how far apart the prices of an asset are (its tick), what class of asset it is, and
how much of the asset one contract stands for. `roundPrice` moves a price onto the ticks; a price within
a thousand-millionth of a tick counts as lying on it.
-/

namespace Holdings

/-- The classes of assets. -/
inductive AssetClass where
  /-- shares -/
  | equity
  /-- futures contracts -/
  | future
  /-- currencies -/
  | forex
  /-- crypto-currencies -/
  | crypto
deriving DecidableEq

/-- Which way a price between two ticks goes. -/
inductive TickRule where
  /-- to the nearer tick; a half goes away from zero -/
  | nearest
  /-- down -/
  | down
  /-- up -/
  | up
deriving DecidableEq

/-- What is known of a tradable asset. -/
structure Instrument (α : Type) where
  /-- the asset -/
  asset : Asset
  /-- the distance of two prices -/
  tick : α
  /-- the class of the asset -/
  assetClass : AssetClass
  /-- how much of the asset one contract stands for -/
  multiplier : α
deriving DecidableEq

namespace Instrument

variable {α : Type} [Quantity α]

/-- A share with ticks of a cent. -/
def share (asset : Asset) : Instrument α := ⟨asset, 0.01, .equity, 1.0⟩

omit [Quantity α] in
/-- A futures contract. -/
def isFuture (i : Instrument α) : Bool := i.assetClass = .future

/-- How near to a tick counts as on it, in ticks. -/
def tolerance : α := 1e-9

/-- A whole number of ticks in place of one that is hardly different. -/
def settleNear (x : α) : α :=
  let whole := Quantity.round x
  if Quantity.abs (x - whole) < tolerance then whole else x

/-- A whole number of ticks. -/
def wholeTicks (rule : TickRule) (x : α) : α :=
  match rule with
  | .nearest => Quantity.round x
  | .down => Quantity.floor x
  | .up => Quantity.ceil x

/-- A price on the ticks. Where ticks are not positive every price is as good as any. -/
def roundPrice (i : Instrument α) (rule : TickRule) (price : α) : α :=
  if i.tick ≤ 0 then price else wholeTicks rule (settleNear (price / i.tick)) * i.tick

end Instrument

end Holdings
