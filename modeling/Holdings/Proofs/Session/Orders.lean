import Mathlib
import Holdings.Proofs.Session.Course

/-!
# The resting orders of a session

`decideOrders` decides the orders one after another and stops at a flawed one. Orders are checked before they rest
(`OrdersSound`), so among resting orders there is none, and each is decided by itself (`decideOrders_eq`). What
an event does to the orders follows: an exit withdraws those of its asset, a bar takes away those whose fill is
due, and of the others nothing but the status changes.
-/

namespace Holdings

variable {α : Type} [Quantity α]

namespace Order

variable {rule : FillRule} {b : Bar α} {o : Order α}

omit [Quantity α] in
/-- An order as it was placed, however far it has come. -/
def ticket (o : Order α) : Order α := { o with status := .active }

/-- What a bar decides of an order without flaw; orders of other assets are passed over. -/
def decisionOn (rule : FillRule) (b : Bar α) (o : Order α) : Decision α :=
  if o.asset = b.asset && (o.isOpen && !b.isVoid) then o.decideOpen rule b else .noFill

/-- The order after a bar. -/
def advance (rule : FillRule) (b : Bar α) (o : Order α) : Order α := o.after (o.decisionOn rule b)

/-- The fill of an order that is due on a bar. -/
def due? (rule : FillRule) (b : Bar α) (o : Order α) : Option (Session.DueFill α) :=
  match o.decisionOn rule b with
  | .filled execution => some ⟨o.signedQuantity, execution.price⟩
  | _ => none

/-- A bar of another asset passes an order over, and so does any bar once the order does not wait. -/
theorem decisionOn_eq_noFill (h : o.asset = b.asset → o.isOpen = false) :
    o.decisionOn rule b = .noFill := by
  refine if_neg fun hguard => ?_
  simp only [Bool.and_eq_true, decide_eq_true_eq] at hguard
  rw [h hguard.1] at hguard
  exact Bool.false_ne_true hguard.2.1

theorem advance_eq_self (h : o.asset = b.asset → o.isOpen = false) : o.advance rule b = o := by
  rw [advance, decisionOn_eq_noFill h]
  rfl

theorem due?_eq_none (h : o.asset = b.asset → o.isOpen = false) : o.due? rule b = none := by
  rw [due?, decisionOn_eq_noFill h]

/-- An order without flaw is decided on a bar of its asset. -/
theorem decide_eq (h : o.check = .ok ()) (ha : o.asset = b.asset) :
    o.decide rule b = .ok (o.decisionOn rule b, o.advance rule b) := by
  rw [Order.decide, h, advance, decisionOn]
  simp only [ha, bind, Except.bind, decide_true, Bool.true_and, ne_eq, not_true_eq_false, if_false]
  split <;> rfl

/-- A bar changes the status of an order and nothing else. -/
@[simp] theorem ticket_advance (rule : FillRule) (b : Bar α) (o : Order α) :
    (o.advance rule b).ticket = o.ticket := by
  rw [advance]
  cases o.decisionOn rule b <;> rfl

omit [Quantity α] in
@[simp] theorem ticket_cancel (o : Order α) : o.cancel.ticket = o.ticket := by
  rw [cancel]
  split <;> rfl

theorem asset_advance (rule : FillRule) (b : Bar α) (o : Order α) :
    (o.advance rule b).asset = o.asset := by
  change (o.advance rule b).ticket.asset = o.ticket.asset
  rw [ticket_advance]

omit [Quantity α] in
theorem asset_cancel (o : Order α) : o.cancel.asset = o.asset := by
  change o.cancel.ticket.asset = o.ticket.asset
  rw [ticket_cancel]

omit [Quantity α] in
/-- An order that was withdrawn does not wait, nor does one that was done before. -/
theorem isOpen_cancel (o : Order α) : o.cancel.isOpen = false := by
  rw [cancel]
  split
  · rfl
  · next hdone => simpa using hdone

/-- The check of an order does not look at its status. -/
theorem check_ticket (o : Order α) : o.ticket.check = o.check := rfl

/-- An order whose fill is due is done. -/
theorem isOpen_advance_of_due {d : Session.DueFill α} (h : o.due? rule b = some d) :
    (o.advance rule b).isOpen = false := by
  rw [due?] at h
  split at h
  · next execution hfilled =>
    rw [advance, hfilled]
    rfl
  · cases h

/-- An order that waits goes on waiting unless its fill is due. -/
theorem isOpen_advance (rule : FillRule) (b : Bar α) (h : o.isOpen = true) :
    (o.advance rule b).isOpen = (o.due? rule b).isNone := by
  rw [advance, due?]
  rcases o.decisionOn rule b with - | - | execution
  · exact h
  · rfl
  · rfl

/-- An order that waits after a bar waited before it. -/
theorem isOpen_of_advance (h : (o.advance rule b).isOpen = true) : o.isOpen = true := by
  by_contra hclosed
  rw [advance_eq_self fun _ => by simpa using hclosed] at h
  exact hclosed h

/-- A fill that is due is for the whole quantity. -/
theorem quantity_of_due {d : Session.DueFill α} (h : o.due? rule b = some d) :
    o.asset = b.asset ∧ d.quantity = o.signedQuantity := by
  rw [due?] at h
  split at h
  · next execution hfilled =>
    obtain rfl := Option.some.inj h
    refine ⟨?_, rfl⟩
    rw [decisionOn] at hfilled
    split at hfilled
    · next hguard => simpa using (Bool.and_eq_true_iff.mp hguard).1
    · cases hfilled
  · cases h

end Order

namespace Event

/-- The order that an event puts to rest, if it passes its check. -/
def placed : Event α → List (Order α)
  | .order o => if o.flaw?.isNone then [o] else []
  | _ => []

theorem eq_order_of_mem_placed {e : Event α} {o : Order α} (h : o ∈ e.placed) : e = .order o := by
  cases e with
  | order o' =>
    rw [placed] at h
    split at h
    · rw [List.mem_singleton.mp h]
    · cases h
  | _ => cases h

theorem placed_of_isObservation {e : Event α} (he : e.isObservation = true) : e.placed = [] := by
  cases e with
  | mark => rfl
  | bar => rfl
  | _ => cases he

theorem check_of_mem_placed {e : Event α} {o : Order α} (h : o ∈ e.placed) : o.check = .ok () := by
  obtain rfl := eq_order_of_mem_placed h
  rw [placed] at h
  split at h
  · next hnone => rw [Order.check, Option.isNone_iff_eq_none.mp hnone]
  · cases h

end Event

namespace Session

/-- **Resting orders are decided one by one**: where none is flawed, each stands as the bar leaves it and the fills
that are due come in the order of the orders. -/
theorem decideOrders_eq (rule : FillRule) (b : Bar α) : ∀ {orders : List (Order α)},
    (∀ o ∈ orders, o.check = .ok ()) →
    decideOrders rule b orders =
      (orders.map (Order.advance rule b), .ok (orders.filterMap (Order.due? rule b)))
  | [], _ => rfl
  | o :: rest, h => by
    have ih := decideOrders_eq rule b fun o' ho' => h o' (List.mem_cons_of_mem _ ho')
    rw [decideOrders]
    split
    · next ha =>
      rw [Order.decide_eq (h o (List.mem_cons_self ..)) ha]
      dsimp only
      rw [ih, List.map_cons]
      rcases hdecision : o.decisionOn rule b with - | - | execution <;>
        simp [Order.due?, hdecision, Except.map]
    · next ha =>
      rw [ih, List.map_cons, List.filterMap_cons_none (Order.due?_eq_none fun heq => absurd heq ha),
        Order.advance_eq_self fun heq => absurd heq ha]

/-! ## What events do to the orders -/

variable {policy : Policy α}

/-- No resting order is flawed. -/
def OrdersSound (s : Session α) : Prop := ∀ o ∈ s.orders, o.check = .ok ()

theorem fill_orders {s next : Session α} {f : Fill α} (h : s.fill policy f = .ok next) :
    next.orders = s.orders := by
  obtain ⟨o, account, -, rfl⟩ := fill_eq_ok h
  rfl

theorem fillDue_orders (b : Bar α) : ∀ (due : List (DueFill α)) (s : Session α),
    (fillDue policy b s due).1.orders = s.orders
  | [], s => rfl
  | d :: rest, s => by
    rw [fillDue]
    rcases hf : s.fill policy (d.fill policy b) with cause | next
    · rfl
    · have horders : next.orders = s.orders := fill_orders hf
      exact (fillDue_orders b rest _).trans horders

/-- The session whose due orders are taken away before their fills are applied. -/
def withoutDue (policy : Policy α) (s : Session α) (b : Bar α) : Session α :=
  { s with orders := (s.orders.map (Order.advance policy.fillRule b)).filter Order.isOpen }

/-- Resting orders that are sound are decided and taken away, and then the fills that are due are applied. -/
theorem playOrders_eq {s : Session α} (h : s.OrdersSound) (b : Bar α) :
    s.playOrders policy b = fillDue policy b (s.withoutDue policy b)
      (s.orders.filterMap (Order.due? policy.fillRule b)) := by
  rw [playOrders, decideOrders_eq policy.fillRule b h]
  rfl

theorem playOrders_orders {s : Session α} (h : s.OrdersSound) (b : Bar α) :
    (s.playOrders policy b).1.orders =
      (s.orders.map (Order.advance policy.fillRule b)).filter Order.isOpen := by
  rw [playOrders_eq h, fillDue_orders]
  rfl

/-- A session whose exit has fired and is counted. -/
def fire (s : Session α) (e : FiredExit α) : Session α :=
  { s with account := e.account }.count fun t => { t with exits := t.exits + 1 }

/-- The fill of an exit is refused once the exit is counted, or applied before the orders are withdrawn. -/
theorem playExit_cases (policy : Policy α) (s : Session α) (asset : Asset) (e : FiredExit α) :
    (∃ cause, (s.fire e).fill policy (e.fill policy) = .error cause ∧
      s.playExit policy asset e = (s.fire e, .error cause)) ∨
    ∃ closed, (s.fire e).fill policy (e.fill policy) = .ok closed ∧
      s.playExit policy asset e = (closed.cancelOrders asset, .ok ()) := by
  have hfire : ({ s with account := e.account }.count fun t => { t with exits := t.exits + 1 }) =
      s.fire e := rfl
  simp only [playExit, hfire]
  rcases (s.fire e).fill policy (e.fill policy) with cause | closed
  · exact .inl ⟨cause, rfl, rfl⟩
  · exact .inr ⟨closed, rfl, rfl⟩

/-- An order that was there: as it was, or waiting at another status. -/
def Keeps (s : Session α) (o' : Order α) : Prop :=
  o' ∈ s.orders ∨ o'.isOpen = true ∧ ∃ o ∈ s.orders, o'.ticket = o.ticket

/-- An exit leaves no order that was not there. -/
theorem keeps_of_mem_playExit {s : Session α} {asset : Asset} {e : FiredExit α} {o' : Order α}
    (h : o' ∈ (s.playExit policy asset e).1.orders) : s.Keeps o' := by
  rcases playExit_cases policy s asset e with ⟨cause, -, hplay⟩ | ⟨closed, hf, hplay⟩ <;>
    rw [hplay] at h
  · exact .inl h
  · have horders : closed.orders = (s.fire e).orders := fill_orders hf
    obtain ⟨hmem, hopen⟩ := List.mem_filter.mp h
    obtain ⟨o, ho, rfl⟩ := List.mem_map.mp hmem
    refine .inr ⟨hopen, o, horders ▸ ho, ?_⟩
    split
    · exact o.ticket_cancel
    · rfl

/-- Prices leave no order that was not there. -/
theorem keeps_of_mem_playPrices {s : Session α} (hs : s.OrdersSound) {path : List α} {b : Bar α}
    {o' : Order α} (h : o' ∈ (s.playPrices policy path b).1.orders) : s.Keeps o' := by
  rw [playPrices] at h
  split at h
  · exact keeps_of_mem_playExit h
  · split at h
    · rw [playOrders_orders hs] at h
      obtain ⟨hmem, hopen⟩ := List.mem_filter.mp h
      obtain ⟨o, ho, rfl⟩ := List.mem_map.mp hmem
      exact .inr ⟨hopen, o, ho, Order.ticket_advance ..⟩
    · exact .inl h

/-- An event that observes nothing places its order, if it has one, and leaves the others, and the counts of
exits and orders. -/
theorem handle_of_not_observation (policy : Policy α) (s : Session α) {e : Event α}
    (he : e.isObservation = false) :
    (s.handle policy e).1.orders = s.orders ++ e.placed ∧
      (s.handle policy e).1.tally.exits = s.tally.exits ∧
      (s.handle policy e).1.tally.ordersFilled = s.tally.ordersFilled ∧
      (s.handle policy e).1.tally.ordersCancelled = s.tally.ordersCancelled := by
  have hnone : s.orders = s.orders ++ [] := (List.append_nil _).symm
  cases e with
  | mark => cases he
  | bar => cases he
  | fill asset quantity price cost time levels =>
    rw [Session.handle]
    split
    · exact ⟨hnone, rfl, rfl, rfl⟩
    · next next hf =>
      obtain ⟨o, account, -, rfl⟩ := fill_eq_ok hf
      exact ⟨hnone, rfl, rfl, rfl⟩
  | levels asset l =>
    rw [Session.handle]
    split <;> exact ⟨hnone, rfl, rfl, rfl⟩
  | order o =>
    rw [Session.handle, Order.check, Event.placed]
    rcases o.flaw? with - | flaw
    · exact ⟨rfl, rfl, rfl, rfl⟩
    · exact ⟨hnone, rfl, rfl, rfl⟩
  | split asset ratio =>
    rw [Session.handle]
    split <;> exact ⟨hnone, rfl, rfl, rfl⟩
  | dividend asset perShare =>
    rw [Session.handle, playDividend]
    split
    · exact ⟨hnone, rfl, rfl, rfl⟩
    · split <;> exact ⟨hnone, rfl, rfl, rfl⟩

/-- **The orders after an event** were there before it, or the event placed them. -/
theorem mem_handle_orders {s : Session α} (hs : s.OrdersSound) {e : Event α} {o' : Order α}
    (h : o' ∈ (s.handle policy e).1.orders) : s.Keeps o' ∨ o' ∈ e.placed := by
  rcases hx : s.observation? e with - | x
  · by_cases he : e.isObservation = true
    · rw [(observation?_eq_none policy he hx).1] at h
      exact .inl (.inl h)
    · rw [(handle_of_not_observation policy s (by simpa using he)).1] at h
      exact (List.mem_append.mp h).imp_left .inl
  · rw [(observation?_eq_some policy hx).2.2] at h
    exact .inl (keeps_of_mem_playPrices (s := x.session s) hs h)

/-- **Every event leaves the orders sound**: an order is checked before it rests. -/
theorem OrdersSound.handle {s : Session α} (hs : s.OrdersSound) (e : Event α) :
    (s.handle policy e).1.OrdersSound := by
  intro o' ho'
  rcases mem_handle_orders hs ho' with (hmem | ⟨-, o, ho, hticket⟩) | hplaced
  · exact hs o' hmem
  · -- at most its status changed, and the check does not look at that
    rw [← Order.check_ticket, hticket, Order.check_ticket, hs o ho]
  · exact Event.check_of_mem_placed hplaced

theorem OrdersSound.step {s : Session α} (hs : s.OrdersSound) (e : Event α) :
    (s.step policy e).1.OrdersSound := by
  have hhandled : (s.taken.handle policy e).1.OrdersSound := OrdersSound.handle (s := s.taken) hs e
  rcases step_cases policy s e with ⟨-, heq⟩ | ⟨cause, -, heq⟩ <;> rw [heq] <;> exact hhandled

end Session

end Holdings
