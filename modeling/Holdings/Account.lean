import Holdings.Exit.Trigger
import Holdings.Policy
import Holdings.Position.CorporateAction
import Holdings.Snapshot

/-!
# Accounts: the positions of all assets

An `Account` is a book of positions and the profit realised so far. A position enters the book with its
first fill and leaves it when a fill or a split makes it flat. `Terms` are what an account is kept by: how
fills settle, the lots, and what is known of the instruments.

Every operation is a function from accounts to accounts. One that is refused gives a fault and no
account, so that the account before it stands.
-/

namespace Holdings

/-- What an account is kept by. -/
structure Terms (α : Type) where
  /-- how fills settle -/
  settlement : Settlement α
  /-- the amounts that can be held -/
  lot : Lot α
  /-- what is known of the instrument of an asset -/
  instrument : Asset → Option (Instrument α)

/-- The positions of all assets. -/
structure Account (α : Type) where
  /-- the positions by asset -/
  book : Book (Position α)
  /-- the profit realised so far, less expensed costs -/
  realized : α

variable {α : Type} [Quantity α]

/-- The terms of a policy, with what is known of the instruments. -/
def Policy.terms (p : Policy α) (instrument : Asset → Option (Instrument α)) : Terms α :=
  ⟨p.settlement, p.lot, instrument⟩

namespace Terms

/-- Moves one level onto the ticks, if it is a price above zero. -/
def roundLevel (i : Instrument α) (rule : TickRule) (price : α) : α :=
  if 0 < price && Quantity.isFinite price then i.roundPrice rule price else price

/-- Moves levels onto the ticks of an asset, away from the entry: a stop-loss down and a take-profit up for a
long position, and the other way round for a short one. -/
def roundLevels (t : Terms α) (asset : Asset) (long : Bool) (l : ExitLevels α) : ExitLevels α :=
  match t.instrument asset with
  | none => l
  | some i =>
    if long then l.map (roundLevel i .down) (roundLevel i .up)
    else l.map (roundLevel i .up) (roundLevel i .down)

end Terms

namespace Account

/-- Nothing held and nothing realised. -/
def empty : Account α := ⟨.empty, 0⟩

/-- The position in an asset, if there is one. -/
def get? (a : Account α) (asset : Asset) : Option (Position α) := a.book.get? asset

/-- The position in an asset, a flat one if there is none. -/
def held (a : Account α) (asset : Asset) : Position α := (a.get? asset).getD (.flat asset)

/-- The positions in the order of their assets. -/
def positions (a : Account α) : List (Position α) := a.book.values

/-- What all positions are worth at their last prices. -/
def marketValue (a : Account α) : α := Quantity.total (a.positions.map Position.marketValue)

/-- What leaving all positions at their last prices would gain. -/
def unrealized (a : Account α) : α := Quantity.total (a.positions.map Position.unrealized)

/-- Puts a position into the book. -/
def keep (a : Account α) (asset : Asset) (p : Position α) : Account α :=
  { a with book := a.book.insert asset p }

/-- Takes a position out of the book. -/
def release (a : Account α) (asset : Asset) : Account α := { a with book := a.book.erase asset }

/-! ## Fills and marks -/

/-- A fill with the levels it carries on the ticks, for the direction that the fill leads to. -/
def onTicks (t : Terms α) (a : Account α) (f : Fill α) : Fill α :=
  let amount := ((a.get? f.asset).map Position.amount).getD 0.0
  { f with levels := f.levels.map (t.roundLevels f.asset (0 < amount + f.quantity)) }

/-- Applies a fill. The position it leads to is kept unless it is flat. -/
def apply (t : Terms α) (a : Account α) (f : Fill α) :
    Except (Fault α) (Outcome α × Account α) :=
  match t.settlement.apply (a.held f.asset) (a.onTicks t f) with
  | .error fault => .error fault
  | .ok (outcome, p) =>
    let next := if outcome.amount == 0 then a.release f.asset else a.keep f.asset p
    .ok (outcome, { next with realized := a.realized + outcome.netProfit })

/-- Records an observed price; says whether a position is held that it concerns. -/
def mark (a : Account α) (asset : Asset) (price : α) (time : Instant) :
    Except (Fault α) (Bool × Account α) :=
  match a.get? asset with
  | none => .ok (false, a)
  | some p => (p.mark price time).map fun q => (true, a.keep asset q)

/-! ## Exit levels -/

/-- Sets the levels of a position, on its ticks. -/
def setLevels (t : Terms α) (a : Account α) (asset : Asset) (l : ExitLevels α) :
    Except (Fault α) (Account α) :=
  match a.get? asset with
  | none => .error (.levels (.flat asset))
  | some p => (p.configure (t.roundLevels asset p.isLong l)).map (a.keep asset)

/-- Looks whether a price crosses a level of the position in an asset. -/
def trigger? (a : Account α) (asset : Asset) (price : α) (time : Option Instant) :
    Option (ExitIntent α × Account α) :=
  match a.get? asset with
  | none => none
  | some p => (p.trigger? price time).map fun (intent, q) => (intent, a.keep asset q)

/-- Looks at every position whose asset has a price: the trades that leave positions, in the order of the
assets, and the account with those positions fired. -/
def triggerAll (a : Account α) (priceOf : Asset → Option α) (time : Option Instant) :
    List (ExitIntent α) × Account α :=
  let look := fun asset (p : Position α) => (priceOf asset).bind fun price => p.trigger? price time
  (a.book.entries.filterMap fun e => (look e.1 e.2).map Prod.fst,
    { a with book := a.book.map fun asset p => ((look asset p).map Prod.snd).getD p })

/-- Resting orders in place of the levels of positions, numbered through from `first`. -/
def exitOrdersOf (first : Nat) : List (Position α) → List (Order α)
  | [] => []
  | p :: rest =>
    let orders := p.exitOrders first
    orders ++ exitOrdersOf (first + orders.length) rest

/-- Resting orders in place of all levels. -/
def exitOrders (a : Account α) (first : Nat) : List (Order α) := exitOrdersOf first a.positions

/-! ## Corporate actions -/

/-- Applies a split; says how much cash is paid out. -/
def split (t : Terms α) (a : Account α) (asset : Asset) (ratio : α) :
    Except (Fault α) (α × Account α) :=
  match a.get? asset with
  | none => if Quantity.isNotPositive ratio then .error (.ratio ratio) else .ok (0, a)
  | some p => (p.split asset ratio t.lot).map fun (cash, q) =>
      (cash, if q.isFlat then a.release asset else a.keep asset q)

/-- The cash owed for a dividend, if the asset is held. -/
def dividend? (a : Account α) (asset : Asset) (perShare : α) : Option (Dividend α) :=
  (a.get? asset).map fun p => p.dividend perShare

/-- The shares owed for a dividend that is paid in shares, if the asset is held. -/
def stockDividend? (t : Terms α) (a : Account α) (asset paymentAsset : Asset) (ratio : α) :
    Option (StockDividend α) :=
  (a.get? asset).map fun p => p.stockDividend paymentAsset ratio t.lot

/-- Spreads a charge over a position; where there is none it has no effect. -/
def charge (t : Terms α) (a : Account α) (asset : Asset) (cost : α) :
    Except (Fault α) (Account α) :=
  match a.get? asset with
  | none => .ok a
  | some p => (p.charge (t.instrument asset) cost).map (a.keep asset)

/-! ## Snapshots -/

/-- Writes the account down. -/
def snapshot (a : Account α) : Snapshot α := .ofPositions a.positions a.realized

/-- The account of a snapshot. -/
def ofSnapshot (s : Snapshot α) : Except (RecordFault α) (Account α) :=
  s.toPositions.map fun positions =>
    { book := .ofList (positions.map fun p => (p.asset, p)), realized := s.realized }

end Account

end Holdings
