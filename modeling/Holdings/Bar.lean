import Holdings.Quantity.Basic
import Holdings.Instant.Basic

/-!
# Bars: the prices of one asset over a stretch of time

A `Bar` gives the opening, highest, lowest and closing price. A single price is a bar whose four
prices coincide. A bar is *void* when a price is missing, and *sane* when its prices agree with each
other and are not negative.
-/

namespace Holdings

/-- An asset is known by its ticker or contract code. -/
abbrev Asset : Type := String

/-- The prices of an asset over a stretch of time. -/
structure Bar (α : Type) where
  /-- whose prices they are -/
  asset : Asset
  /-- when the stretch ends -/
  time : Instant
  /-- the first price -/
  opening : α
  /-- the highest price -/
  high : α
  /-- the lowest price -/
  low : α
  /-- the last price -/
  closing : α
  /-- how much was traded; nothing is decided by it -/
  volume : α

namespace Bar

variable {α : Type} [Quantity α]

/-- One price as a bar. -/
def tick (asset : Asset) (time : Instant) (price : α) : Bar α :=
  ⟨asset, time, price, price, price, price, 0⟩

/-- One of the prices has no value. -/
def isVoid (b : Bar α) : Bool :=
  Quantity.isVoid b.opening || Quantity.isVoid b.high || Quantity.isVoid b.low ||
    Quantity.isVoid b.closing

/-- No price is missing, the high is the highest, the low is the lowest, and none is negative. -/
def isSane (b : Bar α) : Bool :=
  !b.isVoid && b.low ≤ b.high && b.opening ≤ b.high && b.closing ≤ b.high && b.low ≤ b.opening &&
    b.low ≤ b.closing && 0 ≤ b.low

end Bar

end Holdings
