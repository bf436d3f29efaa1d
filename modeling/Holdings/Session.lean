import Holdings.Account
import Holdings.Event

/-!
# Sessions: a list of events played against a fresh account

A `Session` is an account, the orders that rest, and a tally. `Session.handle` plays one event:

* a price or a bar first looks for exit levels that it crosses. An exit is carried out at once and
  withdraws the resting orders of the asset, so that no protective order fills after it;
* where no exit fires, the resting orders of the asset are decided; a price is decided as a bar of
  that one price.

Within a bar the price is taken to move against the position first. A level crossed at the opening is
left at the opening price, and one crossed later at the level itself.

An event can be refused half way through, and what was done before it was refused stays done: so
`handle` gives a session in every case, and beside it whether the event was refused. `Session.run` plays a
list of events and goes on after a refusal, or stops there if it is strict. `Session.report` is the result.
-/

namespace Holdings

/-- What happened in a session. -/
structure Tally (α : Type) where
  /-- events played -/
  events : Nat
  /-- fills applied -/
  fills : Nat
  /-- events refused -/
  rejected : Nat
  /-- exits fired -/
  exits : Nat
  /-- resting orders filled -/
  ordersFilled : Nat
  /-- resting orders withdrawn by exits -/
  ordersCancelled : Nat
  /-- cash brought by all fills -/
  netCash : α
  /-- cash paid out for splits -/
  splitCash : α
  /-- cash owed for dividends -/
  dividendCash : α
deriving DecidableEq

/-- Why an event is refused. -/
inductive Rejection (α : Type) where
  /-- a change of a position is refused -/
  | position (fault : Fault α)
  /-- an order is flawed -/
  | order (fault : OrderFault α)
  /-- the prices of a bar do not agree with each other -/
  | bar (asset : Asset) (time : Instant)
  /-- a dividend is not finite -/
  | dividend (asset : Asset) (perShare : α)
deriving DecidableEq

/-- An account with resting orders and a tally. -/
structure Session (α : Type) where
  /-- the positions -/
  account : Account α
  /-- the orders that rest, in the order they came -/
  orders : List (Order α)
  /-- what happened so far -/
  tally : Tally α

/-- The result of a session. -/
structure Report (α : Type) where
  /-- what happened -/
  tally : Tally α
  /-- the profit realised -/
  realized : α
  /-- the profit not yet realised -/
  unrealized : α
  /-- the worth of the positions -/
  marketValue : α
  /-- how many orders still rest -/
  openOrders : Nat
  /-- the positions -/
  records : List (Record α)
deriving DecidableEq

/-- A refused event that ended a strict run. -/
structure Abort (α : Type) where
  /-- its place in the list, from zero -/
  index : Nat
  /-- the asset it concerned -/
  asset : Asset
  /-- why it was refused -/
  cause : Rejection α
deriving DecidableEq

variable {α : Type} [Quantity α]

/-- Nothing happened. -/
def Tally.zero : Tally α := ⟨0, 0, 0, 0, 0, 0, 0, 0, 0⟩

namespace Session

/-- A fresh session. -/
def start : Session α := ⟨.empty, [], .zero⟩

/-- A session, and whether what was tried was refused. -/
abbrev Play (α : Type) := Session α × Except (Rejection α) Unit

/-- The terms of a session: those of its policy, with nothing known of instruments. -/
def terms (policy : Policy α) : Terms α := policy.terms fun _ => none

/-- Changes the tally. -/
def count (s : Session α) (f : Tally α → Tally α) : Session α := { s with tally := f s.tally }

/-- Applies a fill and counts it with its cash. -/
def fill (policy : Policy α) (s : Session α) (f : Fill α) :
    Except (Rejection α) (Session α) :=
  match s.account.apply (terms policy) f with
  | .error fault => .error (.position fault)
  | .ok (_, account) =>
    .ok ({ s with account := account }.count fun t =>
      { t with fills := t.fills + 1, netCash := t.netCash + f.netCash })

/-! ## Exits -/

/-- An exit that fired: the trade, the account with the position fired, the price that crossed the level,
and whether it was the first of the path. -/
structure FiredExit (α : Type) where
  /-- the trade -/
  intent : ExitIntent α
  /-- the account with the position fired -/
  account : Account α
  /-- the price that crossed the level -/
  price : α
  /-- the price was the first of the path -/
  atFirst : Bool

/-- The first price after the first one of a path that crosses a level. -/
def laterExit? (account : Account α) (asset : Asset) (time : Instant) :
    List α → Option (FiredExit α)
  | [] => none
  | price :: rest =>
    match account.trigger? asset price (some time) with
    | some (intent, fired) => some ⟨intent, fired, price, false⟩
    | none => laterExit? account asset time rest

/-- The first price of a path that crosses a level of the position in an asset. -/
def firstExit? (account : Account α) (asset : Asset) (time : Instant) :
    List α → Option (FiredExit α)
  | [] => none
  | price :: rest =>
    match account.trigger? asset price (some time) with
    | some (intent, fired) => some ⟨intent, fired, price, true⟩
    | none => laterExit? account asset time rest

/-- The price at which an exit is carried out: where the path begins, or else the level. -/
def FiredExit.exitPrice (e : FiredExit α) : α := if e.atFirst then e.price else e.intent.level

/-- The fill that carries an exit out. -/
def FiredExit.fill (policy : Policy α) (e : FiredExit α) : Fill α :=
  e.intent.toFill e.exitPrice (policy.costs.cost e.intent.quantity e.exitPrice)

/-- Withdraws the resting orders of an asset and counts them. -/
def cancelOrders (s : Session α) (asset : Asset) : Session α :=
  let mine := s.orders.filter fun o => o.asset = asset
  let all := s.orders.map fun o => if o.asset = asset then o.cancel else o
  { s with orders := all.filter Order.isOpen }.count fun t =>
    { t with ordersCancelled := t.ordersCancelled + mine.length }

/-- Carries out an exit that fired. -/
def playExit (policy : Policy α) (s : Session α) (asset : Asset) (e : FiredExit α) : Play α :=
  let fired := { s with account := e.account }.count fun t => { t with exits := t.exits + 1 }
  match fired.fill policy (e.fill policy) with
  | .error cause => (fired, .error cause)
  | .ok closed => (closed.cancelOrders asset, .ok ())

/-! ## Resting orders -/

/-- A decided fill of a resting order: the signed quantity and the price. -/
structure DueFill (α : Type) where
  /-- how much, with the sign of the side -/
  quantity : α
  /-- where -/
  price : α

/-- Decides the orders of the asset of a bar, in their order: all orders as they stand afterwards, and
the fills that are due. A fault ends it, with the orders before it decided. -/
def decideOrders (rule : FillRule) (b : Bar α) :
    List (Order α) → List (Order α) × Except (OrderFault α) (List (DueFill α))
  | [] => ([], .ok [])
  | o :: rest =>
    if o.asset = b.asset then
      match o.decide rule b with
      | .error fault => (o :: rest, .error fault)
      | .ok (decision, next) =>
        let (others, due) := decideOrders rule b rest
        let mine := match decision with
          | .filled execution => [⟨o.signedQuantity, execution.price⟩]
          | _ => []
        (next :: others, due.map (mine ++ ·))
    else
      let (others, due) := decideOrders rule b rest
      (o :: others, due)

/-- The fill of a resting order on a bar. -/
def DueFill.fill (policy : Policy α) (b : Bar α) (d : DueFill α) : Fill α :=
  ⟨b.asset, d.quantity, d.price, policy.costs.cost d.quantity d.price, some b.time, none⟩

/-- Applies the fills of resting orders in turn; one that is refused ends it. -/
def fillDue (policy : Policy α) (b : Bar α) (s : Session α) : List (DueFill α) → Play α
  | [] => (s, .ok ())
  | d :: rest =>
    match s.fill policy (d.fill policy b) with
    | .error cause => (s, .error cause)
    | .ok next =>
      fillDue policy b
        (next.count fun t => { t with ordersFilled := t.ordersFilled + 1 }) rest

/-- Decides the resting orders against a bar and applies the fills that are due. -/
def playOrders (policy : Policy α) (s : Session α) (b : Bar α) : Play α :=
  match decideOrders policy.fillRule b s.orders with
  | (orders, .error fault) => ({ s with orders := orders }, .error (.order fault))
  | (orders, .ok due) => fillDue policy b { s with orders := orders.filter Order.isOpen } due

/-! ## Events -/

/-- The prices of a bar in the order in which a position is taken to see them: the opening, then the worst
for it, then the best. -/
def pathOf (account : Account α) (b : Bar α) : List α :=
  match account.get? b.asset with
  | none => []
  | some p => if p.isLong then [b.opening, b.low, b.high] else [b.opening, b.high, b.low]

/-- Looks for an exit on a path of prices, and decides the resting orders where none fires, if the bar
makes sense. -/
def playPrices (policy : Policy α) (s : Session α) (path : List α) (b : Bar α) : Play α :=
  match firstExit? s.account b.asset b.time path with
  | some e => s.playExit policy b.asset e
  | none => if b.isSane then s.playOrders policy b else (s, .ok ())

/-- Plays an observed price. -/
def playMark (policy : Policy α) (s : Session α) (asset : Asset) (price : α) (time : Instant) :
    Play α :=
  match s.account.mark asset price time with
  | .error fault => (s, .error (.position fault))
  | .ok (_, account) =>
    { s with account := account }.playPrices policy [price] (.tick asset time price)

/-- Plays a bar. A void one is passed over. -/
def playBar (policy : Policy α) (s : Session α) (b : Bar α) : Play α :=
  if b.isVoid then (s, .ok ())
  else if !b.isSane then (s, .error (.bar b.asset b.time))
  else match s.account.mark b.asset b.closing b.time with
    | .error fault => (s, .error (.position fault))
    | .ok (_, account) =>
      { s with account := account }.playPrices policy (pathOf account b) b

/-- Plays a dividend. -/
def playDividend (s : Session α) (asset : Asset) (perShare : α) : Play α :=
  if !Quantity.isFinite perShare then (s, .error (.dividend asset perShare))
  else match s.account.dividend? asset perShare with
    | none => (s, .ok ())
    | some d => (s.count fun t => { t with dividendCash := t.dividendCash + d.cash }, .ok ())

/-- The fill of a trade that was recorded, with its cost or else the one of the cost model. It carries
levels only where it has any. -/
def recordedFill (policy : Policy α) (asset : Asset) (quantity price : α) (cost : Option α)
    (time : Option Instant) (levels : ExitLevels α) : Fill α :=
  ⟨asset, quantity, price, cost.getD (policy.costs.cost quantity price), time,
    if levels.isEmpty then none else some levels⟩

/-- Plays one event: the session after it, and whether it was refused. -/
def handle (policy : Policy α) (s : Session α) : Event α → Play α
  | .fill asset quantity price cost time levels =>
    match s.fill policy (recordedFill policy asset quantity price cost time levels) with
    | .error cause => (s, .error cause)
    | .ok next => (next, .ok ())
  | .mark asset price time => s.playMark policy asset price time
  | .bar b => s.playBar policy b
  | .levels asset levels =>
    match s.account.setLevels (terms policy) asset levels with
    | .error fault => (s, .error (.position fault))
    | .ok account => ({ s with account := account }, .ok ())
  | .order o =>
    match o.check with
    | .error fault => (s, .error (.order fault))
    | .ok () => ({ s with orders := s.orders ++ [o] }, .ok ())
  | .split asset ratio =>
    match s.account.split (terms policy) asset ratio with
    | .error fault => (s, .error (.position fault))
    | .ok (cash, account) =>
      ({ s with account := account }.count fun t => { t with splitCash := t.splitCash + cash },
        .ok ())
  | .dividend asset perShare => s.playDividend asset perShare

/-- Plays one event and counts it, and counts it once more if it was refused. -/
def step (policy : Policy α) (s : Session α) (e : Event α) : Play α :=
  match (s.count fun t => { t with events := t.events + 1 }).handle policy e with
  | (next, .ok ()) => (next, .ok ())
  | (next, .error cause) =>
    (next.count fun t => { t with rejected := t.rejected + 1 }, .error cause)

/-- Plays events from a place in the list on. -/
def runFrom (policy : Policy α) (strict : Bool) (index : Nat) (s : Session α) :
    List (Event α) → Session α × Except (Abort α) Unit
  | [] => (s, .ok ())
  | e :: rest =>
    match s.step policy e with
    | (next, .ok ()) => runFrom policy strict (index + 1) next rest
    | (next, .error cause) =>
      if strict then (next, .error ⟨index, e.asset, cause⟩)
      else runFrom policy strict (index + 1) next rest

/-- Plays a list of events. A refused event is passed over, or ends the run if it is strict. -/
def run (policy : Policy α) (strict : Bool) (s : Session α) (events : List (Event α)) :
    Session α × Except (Abort α) Unit :=
  s.runFrom policy strict 0 events

/-- The result of a session. -/
def report (s : Session α) : Report α where
  tally := s.tally
  realized := s.account.realized
  unrealized := s.account.unrealized
  marketValue := s.account.marketValue
  openOrders := s.orders.length
  records := s.account.snapshot.records

end Session

end Holdings
