import Holdings.Book
import Holdings.Position.Basic

/-!
# Snapshots: a book written down

A `Snapshot` is a list of records, one for each position, and the profit realised so far. A `Record` is
flat and writes a level that is not set as zero. `Snapshot.toPositions` rebuilds the positions and
refuses a record that no book can hold, and an asset that is recorded twice.
-/

namespace Holdings

/-- A position written down. -/
structure Record (α : Type) where
  /-- the asset -/
  asset : Asset
  /-- the amount -/
  amount : α
  /-- the basis -/
  basis : α
  /-- the last observed price -/
  lastPrice : α
  /-- when it was observed -/
  lastTime : Option Instant
  /-- the take-profit, or zero -/
  takeProfit : α
  /-- the stop-loss, or zero -/
  stopLoss : α
  /-- whether the levels wait -/
  trigger : TriggerState
deriving DecidableEq

/-- Why a record is refused. -/
inductive RecordFlaw (α : Type) where
  /-- the amount is not finite, or zero -/
  | amount (amount : α)
  /-- the basis is not finite -/
  | basis (basis : α)
  /-- the last price is not finite, or negative -/
  | lastPrice (price : α)
  /-- the levels are refused -/
  | levels (cause : LevelFault α)
  /-- a level was crossed, but none is set -/
  | firedWithoutLevel
  /-- the asset is recorded before -/
  | duplicate
deriving DecidableEq

/-- A flaw and the asset whose record has it. -/
structure RecordFault (α : Type) where
  /-- the asset -/
  asset : Asset
  /-- what is wrong with its record -/
  flaw : RecordFlaw α
deriving DecidableEq

/-- A book written down. -/
structure Snapshot (α : Type) where
  /-- the positions -/
  records : List (Record α)
  /-- the profit realised so far -/
  realized : α
deriving DecidableEq

variable {α : Type} [Quantity α]

namespace Record

/-- The record of a position. -/
def ofPosition (p : Position α) : Record α :=
  let (stopLoss, takeProfit) := p.levels.sentinels
  { asset := p.asset
    amount := p.amount
    basis := p.basis
    lastPrice := p.lastPrice
    lastTime := p.lastTime
    takeProfit := takeProfit
    stopLoss := stopLoss
    trigger := p.trigger }

/-- The levels of a record. -/
def levels (r : Record α) : ExitLevels α := .ofSentinels r.stopLoss r.takeProfit

/-- The position of a record, before its levels are put on. -/
def bare (r : Record α) : Position α :=
  { Position.flat r.asset with
    amount := r.amount
    basis := r.basis
    lastPrice := r.lastPrice
    lastTime := r.lastTime }

/-- The position of a record with its levels. Levels come back armed, unless the record says that they
have fired or that they do not wait. -/
def rebuilt (r : Record α) : Position α :=
  let p := r.bare.withLevels r.levels.normalized
  match r.trigger with
  | .armed => p
  | state => { p with trigger := state }

/-- Whether a record says that a level was crossed. -/
def hasFired (r : Record α) : Bool :=
  match r.trigger with
  | .fired _ => true
  | _ => false

/-- The first flaw of a record. -/
def flaw? (r : Record α) : Option (RecordFlaw α) :=
  if !Quantity.isFinite r.amount || r.amount == 0 then some (.amount r.amount)
  else if !Quantity.isFinite r.basis then some (.basis r.basis)
  else if Quantity.isNoPrice r.lastPrice then some (.lastPrice r.lastPrice)
  else match r.bare.levelFault? r.levels.normalized with
    | some cause => some (.levels cause)
    | none =>
      if r.hasFired && r.levels.normalized.isEmpty then some .firedWithoutLevel else none

/-- Rebuilds the position of a record. -/
def toPosition (r : Record α) : Except (RecordFault α) (Position α) :=
  match r.flaw? with
  | some flaw => .error ⟨r.asset, flaw⟩
  | none => .ok r.rebuilt

end Record

namespace Snapshot

/-- Rebuilds positions from records whose assets are not among those already `seen`. -/
def rebuild (seen : List Asset) : List (Record α) → Except (RecordFault α) (List (Position α))
  | [] => .ok []
  | r :: rest =>
    if r.asset ∈ seen then .error ⟨r.asset, .duplicate⟩
    else do
      let p ← r.toPosition
      let ps ← rebuild (r.asset :: seen) rest
      return p :: ps

/-- Rebuilds the positions of a snapshot, in the order of the records; the first fault counts. -/
def toPositions (s : Snapshot α) : Except (RecordFault α) (List (Position α)) :=
  rebuild [] s.records

/-- Writes positions down in their order. -/
def ofPositions (positions : List (Position α)) (realized : α) : Snapshot α :=
  ⟨positions.map Record.ofPosition, realized⟩

end Snapshot

end Holdings
