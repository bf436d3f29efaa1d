import Holdings.Bar
import Holdings.Exit.Levels

/-!
# Fills: executed trades

A `Fill` is a trade that happened. Its quantity is signed, positive for a purchase, and its cost is the
whole cost of the trade. It may carry exit levels for the position it leads to.
-/

namespace Holdings

/-- An executed trade. -/
structure Fill (α : Type) where
  /-- what was traded -/
  asset : Asset
  /-- how much; negative for a sale -/
  quantity : α
  /-- at which price -/
  price : α
  /-- commission and fees together -/
  cost : α
  /-- when, if that is known -/
  time : Option Instant
  /-- exit levels for the position, if it carries any -/
  levels : Option (ExitLevels α)
deriving DecidableEq

namespace Fill

variable {α : Type} [Quantity α]

/-- The cash that the trade brings; a purchase costs. -/
def netCash (f : Fill α) : α := -(f.quantity * f.price) - f.cost

omit [Quantity α] in
/-- The same trade without exit levels. -/
def withoutLevels (f : Fill α) : Fill α := { f with levels := none }

end Fill

end Holdings
