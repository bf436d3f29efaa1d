import Mathlib
import Holdings.Proofs.Session.Orders

/-!
# What becomes of the orders

An order that was accepted rests until it leaves, and it leaves in one of three ways: its fill is applied, an exit
withdraws it, or it is *lost* — taken away as done although its fill was not applied, because that fill or the one
of an order before it on the same bar was refused.

* `Session.departuresOf` — the orders that leave during a list of events, each with its fate;
* `Session.Moves` — the ledger of a stretch of a session: the orders that came are those that left and those that
  rest, and the tally counts the two fates it knows;
* `Session.orders_accounted_for` — the ledger of a run, and that the tally alone balances exactly if no order was
  lost.
-/

namespace Holdings

variable {α : Type}

/-- What became of an order that rests no more. -/
inductive Fate (α : Type) where
  /-- its fill was applied -/
  | filled (fill : Fill α)
  /-- an exit withdrew it -/
  | withdrawn
  /-- it was taken away, but a refusal kept its fill from being applied -/
  | lost (cause : Rejection α)

/-- An order that left. -/
structure Departure (α : Type) where
  /-- the order -/
  order : Order α
  /-- what became of it -/
  fate : Fate α

namespace Departure

/-- The fill that was applied for the order. -/
def fill? (d : Departure α) : Option (Fill α) :=
  match d.fate with
  | .filled f => some f
  | _ => none

/-- Its fill was applied. -/
def isFilled (d : Departure α) : Bool := d.fill?.isSome

/-- An exit withdrew it. -/
def isWithdrawn (d : Departure α) : Bool :=
  match d.fate with
  | .withdrawn => true
  | _ => false

/-- It was lost. -/
def isLost (d : Departure α) : Bool :=
  match d.fate with
  | .lost _ => true
  | _ => false

/-- An order has one fate. -/
theorem countP_fates (gone : List (Departure α)) :
    gone.countP isFilled + gone.countP isWithdrawn + gone.countP isLost = gone.length := by
  induction gone with
  | nil => rfl
  | cons d rest ih =>
    have hone : (if d.isFilled then 1 else 0) + (if d.isWithdrawn then 1 else 0) +
        (if d.isLost then 1 else 0) = 1 := by
      obtain ⟨o, f | - | cause⟩ := d <;> rfl
    rw [List.countP_cons, List.countP_cons, List.countP_cons, List.length_cons]
    omega

end Departure

variable [Quantity α]

/-- The fill of an order that left is for its asset and its whole quantity. -/
def Departure.Whole (d : Departure α) : Prop :=
  ∀ f ∈ d.fill?, f.asset = d.order.asset ∧ f.quantity = d.order.signedQuantity

namespace Session

/-! ## The orders that leave -/

/-- The orders whose fill is due on a bar, with that fill. -/
def dueOrders (policy : Policy α) (s : Session α) (b : Bar α) : List (Order α × DueFill α) :=
  s.orders.filterMap fun o => (o.due? policy.fillRule b).map fun d => (o, d)

/-- The fates of orders whose fills are applied in turn: after a refusal the rest are lost. -/
def fatesOfDue (policy : Policy α) (b : Bar α) (s : Session α) :
    List (Order α × DueFill α) → List (Departure α)
  | [] => []
  | (o, d) :: rest =>
    match s.fill policy (d.fill policy b) with
    | .error cause => ⟨o, .lost cause⟩ :: rest.map fun e => ⟨e.1, .lost cause⟩
    | .ok next =>
      ⟨o, .filled (d.fill policy b)⟩ ::
        fatesOfDue policy b (next.count fun t => { t with ordersFilled := t.ordersFilled + 1 }) rest

/-- The orders that an exit withdraws. -/
def withdrawals (s : Session α) (asset : Asset) : List (Departure α) :=
  (s.orders.filter fun o => o.asset = asset).map fun o => ⟨o, .withdrawn⟩

/-- The orders that leave at an exit: none if its fill is refused. -/
def exitDepartures (policy : Policy α) (s : Session α) (asset : Asset) (e : FiredExit α) :
    List (Departure α) :=
  match (s.playExit policy asset e).2 with
  | .error _ => []
  | .ok () => s.withdrawals asset

/-- The orders that leave on a path of prices. -/
def priceDepartures (policy : Policy α) (s : Session α) (path : List α) (b : Bar α) :
    List (Departure α) :=
  match firstExit? s.account b.asset b.time path with
  | some e => s.exitDepartures policy b.asset e
  | none =>
    if b.isSane then fatesOfDue policy b (s.withoutDue policy b) (s.dueOrders policy b) else []

/-- The orders that leave at an event. -/
def departures (policy : Policy α) (s : Session α) (e : Event α) : List (Departure α) :=
  match s.observation? e with
  | none => []
  | some x => (x.session s).priceDepartures policy x.path x.bar

theorem departures_of_none {policy : Policy α} {s : Session α} {e : Event α}
    (h : s.observation? e = none) : s.departures policy e = [] := by
  rw [departures, h]

theorem departures_of_some {policy : Policy α} {s : Session α} {e : Event α} {x : Observation α}
    (h : s.observation? e = some x) :
    s.departures policy e = (x.session s).priceDepartures policy x.path x.bar := by
  rw [departures, h]

/-- The orders that leave during a list of events of which none ends the run. -/
def departuresOf (policy : Policy α) (s : Session α) : List (Event α) → List (Departure α)
  | [] => []
  | e :: rest => s.taken.departures policy e ++ (s.step policy e).1.departuresOf policy rest

/-- An exit withdraws orders and does nothing else to them. -/
theorem fate_of_mem_exitDepartures {policy : Policy α} {s : Session α} {asset : Asset}
    {e : FiredExit α} {x : Departure α} (hx : x ∈ s.exitDepartures policy asset e) :
    x.fate = .withdrawn := by
  rw [exitDepartures] at hx
  split at hx
  · cases hx
  · obtain ⟨o, -, rfl⟩ := List.mem_map.mp hx
    rfl

/-! ## The ledger -/

/-- The ledger of a stretch of a session: the orders `came`, and those in `gone` left. -/
structure Moves (s : Session α) (came : List (Order α)) (gone : List (Departure α))
    (s' : Session α) : Prop where
  /-- the orders that rested or came are those that left and those that rest -/
  tickets : ((s.orders ++ came).map Order.ticket).Perm
    (gone.map (fun d => d.order.ticket) ++ s'.orders.map Order.ticket)
  /-- each order that was filled is counted -/
  filled : s'.tally.ordersFilled = s.tally.ordersFilled + gone.countP Departure.isFilled
  /-- and each that was withdrawn -/
  cancelled : s'.tally.ordersCancelled = s.tally.ordersCancelled + gone.countP Departure.isWithdrawn

namespace Moves

variable {s s' s'' : Session α} {came came' : List (Order α)} {gone gone' : List (Departure α)}

omit [Quantity α] in
/-- A stretch in which no order comes or leaves. -/
theorem still (horders : s'.orders = s.orders)
    (hfilled : s'.tally.ordersFilled = s.tally.ordersFilled)
    (hcancelled : s'.tally.ordersCancelled = s.tally.ordersCancelled) : Moves s [] [] s' :=
  ⟨by rw [horders, List.append_nil]; exact .refl _, hfilled, hcancelled⟩

omit [Quantity α] in
theorem refl (s : Session α) : Moves s [] [] s := still rfl rfl rfl

omit [Quantity α] in
theorem trans (h : Moves s came gone s') (h' : Moves s' came' gone' s'') :
    Moves s (came ++ came') (gone ++ gone') s'' where
  tickets := by
    have hfirst := h.tickets.append_right (came'.map Order.ticket)
    have hsecond := h'.tickets.append_left (gone.map fun d => d.order.ticket)
    simp only [List.map_append, List.append_assoc] at hfirst hsecond ⊢
    exact hfirst.trans hsecond
  filled := by
    rw [h'.filled, h.filled, List.countP_append, Nat.add_assoc]
  cancelled := by
    rw [h'.cancelled, h.cancelled, List.countP_append, Nat.add_assoc]

end Moves

/-- Every resting order waits. -/
def Waiting (s : Session α) : Prop := ∀ o ∈ s.orders, o.isOpen = true

variable {policy : Policy α}

/-! ## Withdrawals -/

omit [Quantity α] in
theorem cancelOrders_orders {s : Session α} (h : s.Waiting) (asset : Asset) :
    (s.cancelOrders asset).orders = s.orders.filter fun o => !decide (o.asset = asset) := by
  change (s.orders.map fun o => if o.asset = asset then o.cancel else o).filter Order.isOpen = _
  have hkept : ∀ o ∈ s.orders, (if o.asset = asset then o.cancel else o).isOpen =
      !decide (o.asset = asset) := by
    intro o ho
    split
    · next ha => simp [ha, Order.isOpen_cancel]
    · next ha => simp [ha, h o ho]
  rw [List.filter_map]
  refine (congrArg _ (List.filter_congr hkept)).trans ?_
  refine (List.map_congr_left fun o ho => ?_).trans (List.map_id _)
  have ha : o.asset ≠ asset := by simpa using (List.mem_filter.mp ho).2
  exact if_neg ha

omit [Quantity α] in
theorem cancelOrders_moves {s : Session α} (h : s.Waiting) (asset : Asset) :
    Moves s [] (s.withdrawals asset) (s.cancelOrders asset) where
  tickets := by
    rw [cancelOrders_orders h, withdrawals, List.append_nil, List.map_map]
    have hsplit := (List.filter_append_perm (fun o : Order α => decide (o.asset = asset)) s.orders).map
      Order.ticket
    rw [List.map_append] at hsplit
    exact hsplit.symm
  filled := by
    have hnone : (s.withdrawals asset).countP Departure.isFilled = 0 := by
      simp [withdrawals, List.countP_map, Function.comp_def, Departure.isFilled, Departure.fill?]
    rw [hnone]
    rfl
  cancelled := by
    have hall : (s.withdrawals asset).countP Departure.isWithdrawn =
        (s.orders.filter fun o => o.asset = asset).length := by
      simp [withdrawals, List.countP_map, Function.comp_def, Departure.isWithdrawn]
    rw [hall]
    rfl

/-! ## Fills that are due -/

theorem fatesOfDue_orders (policy : Policy α) (b : Bar α) :
    ∀ (pairs : List (Order α × DueFill α)) (s : Session α),
    (fatesOfDue policy b s pairs).map Departure.order = pairs.map Prod.fst
  | [], _ => rfl
  | (o, d) :: rest, s => by
    rw [fatesOfDue]
    split
    · simp
    · rw [List.map_cons, fatesOfDue_orders policy b rest, List.map_cons]

/-- The tally counts the orders that are filled in turn. -/
theorem fillDue_tally (policy : Policy α) (b : Bar α) :
    ∀ (pairs : List (Order α × DueFill α)) (s : Session α),
    (fillDue policy b s (pairs.map Prod.snd)).1.tally.ordersFilled =
        s.tally.ordersFilled + (fatesOfDue policy b s pairs).countP Departure.isFilled ∧
      (fillDue policy b s (pairs.map Prod.snd)).1.tally.ordersCancelled =
        s.tally.ordersCancelled + (fatesOfDue policy b s pairs).countP Departure.isWithdrawn
  | [], s => ⟨rfl, rfl⟩
  | (o, d) :: rest, s => by
    rw [List.map_cons, fillDue, fatesOfDue]
    rcases hf : s.fill policy (d.fill policy b) with cause | next
    · have hlost : ∀ p : Departure α → Bool, (∀ o, p ⟨o, .lost cause⟩ = false) →
          (⟨o, .lost cause⟩ :: rest.map fun e => ⟨e.1, .lost cause⟩ : List (Departure α)).countP p = 0 :=
        fun p hp => by simp [List.countP_map, Function.comp_def, hp]
      exact ⟨by rw [hlost _ fun _ => rfl]; rfl, by rw [hlost _ fun _ => rfl]; rfl⟩
    · obtain ⟨account, -, -, rfl⟩ := fill_eq_ok hf
      obtain ⟨hfilled, hcancelled⟩ := fillDue_tally policy b rest _
      refine ⟨hfilled.trans ?_, hcancelled.trans ?_⟩
      · rw [List.countP_cons_of_pos rfl]
        change s.tally.ordersFilled + 1 + _ = _
        omega
      · rw [List.countP_cons_of_neg Bool.false_ne_true]
        rfl

theorem dueOrders_snd (policy : Policy α) (s : Session α) (b : Bar α) :
    (s.dueOrders policy b).map Prod.snd = s.orders.filterMap (Order.due? policy.fillRule b) := by
  simp [dueOrders, List.map_filterMap, Function.comp_def]

/-- The orders of a session are those that are due on a bar and those that it leaves. -/
theorem dueOrders_perm (b : Bar α) : ∀ {orders : List (Order α)},
    (∀ o ∈ orders, o.isOpen = true) → (orders.map Order.ticket).Perm
      ((orders.filterMap fun o => (o.due? policy.fillRule b).map fun d => (o, d)).map
          (fun e => e.1.ticket) ++
        ((orders.map (Order.advance policy.fillRule b)).filter Order.isOpen).map Order.ticket)
  | [], _ => .refl _
  | o :: rest, h => by
    have ih := dueOrders_perm b fun o' ho' => h o' (List.mem_cons_of_mem _ ho')
    have hopen := Order.isOpen_advance policy.fillRule b (h o (List.mem_cons_self ..))
    rcases hdue : o.due? policy.fillRule b with - | d <;> rw [hdue] at hopen
    · -- the order waits on
      rw [List.filterMap_cons_none (by rw [hdue]; rfl), List.map_cons, List.map_cons,
        List.filter_cons_of_pos hopen, List.map_cons, Order.ticket_advance]
      exact (ih.cons _).trans List.perm_middle.symm
    · rw [List.filterMap_cons_some (by rw [hdue]; rfl), List.map_cons, List.map_cons, List.map_cons,
        List.filter_cons_of_neg (by rw [hopen]; exact Bool.false_ne_true)]
      exact ih.cons _

theorem playOrders_moves {s : Session α} (hs : s.OrdersSound) (hw : s.Waiting) (b : Bar α) :
    Moves s [] (fatesOfDue policy b (s.withoutDue policy b) (s.dueOrders policy b))
      (s.playOrders policy b).1 := by
  have htally := fillDue_tally policy b (s.dueOrders policy b) (s.withoutDue policy b)
  rw [playOrders_eq hs, ← dueOrders_snd]
  refine ⟨?_, htally.1, htally.2⟩
  rw [fillDue_orders, List.append_nil]
  have horders := congrArg (List.map Order.ticket)
    (fatesOfDue_orders policy b (s.dueOrders policy b) (s.withoutDue policy b))
  rw [List.map_map, List.map_map] at horders
  exact (dueOrders_perm b hw).trans (List.Perm.of_eq (congrArg (· ++ _) horders.symm))

/-! ## Events -/

theorem fill_moves {s next : Session α} {f : Fill α} (h : s.fill policy f = .ok next) :
    Moves s [] [] next := by
  obtain ⟨o, account, -, rfl⟩ := fill_eq_ok h
  exact .still rfl rfl rfl

theorem playExit_moves {s : Session α} (hw : s.Waiting) (asset : Asset) (e : FiredExit α) :
    Moves s [] (s.exitDepartures policy asset e) (s.playExit policy asset e).1 := by
  rw [exitDepartures]
  rcases playExit_cases policy s asset e with ⟨cause, -, hplay⟩ | ⟨closed, hf, hplay⟩ <;> rw [hplay]
  · exact .still rfl rfl rfl
  · -- the orders are withdrawn last, as they were before the exit fired
    have hclosed : Moves (s.fire e) [] [] closed := fill_moves hf
    have horders : closed.orders = (s.fire e).orders := fill_orders hf
    have hwithdrawn := cancelOrders_moves (s := closed) (fun o ho => hw o (horders ▸ ho)) asset
    rw [withdrawals, horders] at hwithdrawn
    have hfired : Moves s [] [] (s.fire e) := .still rfl rfl rfl
    exact (hfired.trans hclosed).trans hwithdrawn

theorem playPrices_moves {s : Session α} (hs : s.OrdersSound) (hw : s.Waiting) (path : List α)
    (b : Bar α) : Moves s [] (s.priceDepartures policy path b) (s.playPrices policy path b).1 := by
  rw [priceDepartures, playPrices]
  rcases firstExit? s.account b.asset b.time path with - | e
  · dsimp only
    split
    · exact playOrders_moves hs hw b
    · exact .refl s
  · exact playExit_moves hw b.asset e

/-- **The ledger of an event**, whether it is refused or not. -/
theorem handle_moves {s : Session α} (hs : s.OrdersSound) (hw : s.Waiting) (e : Event α) :
    Moves s e.placed (s.departures policy e) (s.handle policy e).1 := by
  rcases hx : s.observation? e with - | x
  · rw [departures_of_none hx]
    by_cases he : e.isObservation = true
    · rw [(observation?_eq_none policy he hx).1, e.placed_of_isObservation he]
      exact .refl s
    · obtain ⟨horders, -, hfilled, hcancelled⟩ :=
        handle_of_not_observation policy s (e := e) (by simpa using he)
      exact ⟨by rw [horders]; exact .refl _, hfilled, hcancelled⟩
  · have hmarked : Moves s [] [] (x.session s) := .still rfl rfl rfl
    rw [departures_of_some hx, (observation?_eq_some policy hx).2.2,
      e.placed_of_isObservation (isObservation_of_observation? hx)]
    exact hmarked.trans (playPrices_moves (s := x.session s) hs hw x.path x.bar)

/-- Orders that wait when they are placed wait as long as they rest. -/
theorem Waiting.handle {s : Session α} (hs : s.OrdersSound) (hw : s.Waiting) {e : Event α}
    (he : ∀ o ∈ e.placed, o.isOpen = true) : (s.handle policy e).1.Waiting := by
  intro o' ho'
  rcases mem_handle_orders hs ho' with (hmem | ⟨hopen, -⟩) | hplaced
  · exact hw o' hmem
  · exact hopen
  · exact he o' hplaced

/-! ## Runs -/

theorem step_moves {s : Session α} (hs : s.OrdersSound) (hw : s.Waiting) (e : Event α) :
    Moves s e.placed (s.taken.departures policy e) (s.step policy e).1 := by
  have htaken : Moves s [] [] s.taken := .still rfl rfl rfl
  have hhandled : Moves s e.placed (s.taken.departures policy e) (s.taken.handle policy e).1 :=
    htaken.trans (handle_moves (s := s.taken) hs hw e)
  rcases step_cases policy s e with ⟨-, heq⟩ | ⟨cause, -, heq⟩ <;> rw [heq]
  · exact hhandled
  · have hrejected : Moves (s.taken.handle policy e).1 [] []
        ((s.taken.handle policy e).1.count fun t => { t with rejected := t.rejected + 1 }) :=
      .still rfl rfl rfl
    have hall := hhandled.trans hrejected
    rwa [List.append_nil, List.append_nil] at hall

theorem Waiting.step {s : Session α} (hs : s.OrdersSound) (hw : s.Waiting) {e : Event α}
    (he : ∀ o ∈ e.placed, o.isOpen = true) : (s.step policy e).1.Waiting := by
  have hhandled : (s.taken.handle policy e).1.Waiting := Waiting.handle (s := s.taken) hs hw he
  rcases step_cases policy s e with ⟨-, heq⟩ | ⟨cause, -, heq⟩ <;> rw [heq] <;> exact hhandled

/-! ## The fills of the orders that were filled -/

theorem mem_fatesOfDue {b : Bar α} {x : Departure α} {f : Fill α} (hf : f ∈ x.fill?) :
    ∀ {pairs : List (Order α × DueFill α)} {s : Session α}, x ∈ fatesOfDue policy b s pairs →
      ∃ d, (x.order, d) ∈ pairs ∧ f = d.fill policy b
  | [], _, hx => by cases hx
  | (o, d) :: rest, s, hx => by
    rw [fatesOfDue] at hx
    split at hx
    · next cause _ =>
      -- a lost order has no fill
      rcases List.mem_cons.mp hx with rfl | hx
      · cases hf
      · obtain ⟨e, -, rfl⟩ := List.mem_map.mp hx
        cases hf
    · rcases List.mem_cons.mp hx with rfl | hx
      · exact ⟨d, List.mem_cons_self .., (Option.some.inj hf).symm⟩
      · obtain ⟨d', hd', hfill⟩ := mem_fatesOfDue hf hx
        exact ⟨d', List.mem_cons_of_mem _ hd', hfill⟩

theorem priceDepartures_whole (s : Session α) (path : List α) (b : Bar α) :
    ∀ x ∈ s.priceDepartures policy path b, x.Whole := by
  intro x hx f hf
  rw [priceDepartures] at hx
  split at hx
  · rw [Option.mem_def, Departure.fill?, fate_of_mem_exitDepartures hx] at hf
    cases hf
  · split at hx
    · obtain ⟨d, hd, rfl⟩ := mem_fatesOfDue hf hx
      obtain ⟨o, -, hpair⟩ := List.mem_filterMap.mp hd
      obtain ⟨d', hdue, hpair⟩ := Option.map_eq_some_iff.mp hpair
      obtain ⟨rfl, rfl⟩ := Prod.mk.inj hpair
      obtain ⟨hasset, hquantity⟩ := Order.quantity_of_due hdue
      exact ⟨hasset.symm, hquantity⟩
    · cases hx

theorem departures_whole (s : Session α) (e : Event α) :
    ∀ d ∈ s.departures policy e, d.Whole := by
  intro d hd
  rcases hx : s.observation? e with - | x
  · rw [departures_of_none hx] at hd
    cases hd
  · rw [departures_of_some hx] at hd
    exact priceDepartures_whole _ _ _ d hd

theorem departuresOf_whole : ∀ {events : List (Event α)} {s : Session α},
    ∀ x ∈ s.departuresOf policy events, x.Whole
  | [], _, x, hx => by cases hx
  | e :: rest, s, x, hx => by
    rcases List.mem_append.mp hx with hfirst | hrest
    · exact departures_whole s.taken e x hfirst
    · exact departuresOf_whole x hrest

/-- Fills that are due are applied in turn, and the journal has those of the orders that were filled. -/
theorem fills_fatesOfDue (b : Bar α) : ∀ (pairs : List (Order α × DueFill α)) (s : Session α),
    (fatesOfDue policy b s pairs).filterMap Departure.fill? =
      (s.account.journal (terms policy) (s.triedFills policy b (pairs.map Prod.snd))).map Applied.fill
  | [], _ => rfl
  | (o, d) :: rest, s => by
    rw [fatesOfDue, List.map_cons, triedFills]
    rcases hf : s.fill policy (d.fill policy b) with cause | next
    · -- nothing is tried after a refusal, and what is lost has no fill
      obtain ⟨-, hentry⟩ := perform_of_refused hf
      have hlost : (rest.map fun e => (⟨e.1, .lost cause⟩ : Departure α)).filterMap Departure.fill? =
          [] := by
        refine List.filterMap_eq_nil_iff.mpr fun x hx => ?_
        obtain ⟨e, -, rfl⟩ := List.mem_map.mp hx
        rfl
      rw [List.filterMap_cons_none rfl, hlost, Account.journal, hentry]
      rfl
    · obtain ⟨hperform, outcome, hentry⟩ := perform_of_fill hf
      rw [Account.journal, hentry, hperform]
      exact congrArg (d.fill policy b :: ·) (fills_fatesOfDue b rest _)

theorem priceDepartures_fills {s : Session α} (hs : s.OrdersSound) (path : List α) (b : Bar α) :
    ((s.priceDepartures policy path b).filterMap Departure.fill?).Sublist
      ((s.account.journal (terms policy) (s.priceOperations policy path b)).map Applied.fill) := by
  rw [priceDepartures, priceOperations]
  rcases firstExit? s.account b.asset b.time path with - | e
  · dsimp only
    split
    · rw [fills_fatesOfDue, dueOrders_snd, orderOperations, decideOrders_eq policy.fillRule b hs]
      exact .refl _
    · exact .slnil
  · have hnone : (s.exitDepartures policy b.asset e).filterMap Departure.fill? = [] :=
      List.filterMap_eq_nil_iff.mpr fun x hx => by
        rw [Departure.fill?, fate_of_mem_exitDepartures hx]
    exact hnone ▸ List.nil_sublist _

/-- The fills of orders at an event are in its journal. -/
theorem departures_fills {s : Session α} (hs : s.OrdersSound) (e : Event α) :
    ((s.departures policy e).filterMap Departure.fill?).Sublist
      ((s.account.journal (terms policy) (s.operations policy e)).map Applied.fill) := by
  rcases hx : s.observation? e with - | x
  · rw [departures_of_none hx]
    exact List.nil_sublist _
  · obtain ⟨⟨held, hm⟩, hoperations, -⟩ := observation?_eq_some policy hx
    rw [departures_of_some hx, hoperations, Account.journal, perform_of_mark hm]
    exact priceDepartures_fills (s := x.session s) hs x.path x.bar

/-- **Each order that was filled has a fill of its own** among those that were applied. -/
theorem departuresOf_fills : ∀ {events : List (Event α)} {s : Session α}, s.OrdersSound →
    ((s.departuresOf policy events).filterMap Departure.fill?).Sublist
      ((s.journal policy events).map Applied.fill)
  | [], _, _ => .slnil
  | e :: rest, s, hs => by
    have hsound : (s.step policy e).1.OrdersSound := hs.step e
    have haccount : (s.step policy e).1.account = s.account.run (terms policy) _ :=
      (step_performs s e).account
    rw [departuresOf, journal, operationsOf, Account.journal_append, ← haccount,
      List.filterMap_append, List.map_append]
    exact (departures_fills (s := s.taken) hs e).append (departuresOf_fills hsound)

/-- **The ledger of a run**, over accepted and refused events alike. -/
theorem runFrom_moves : ∀ {events : List (Event α)} (index : Nat) {s : Session α},
    s.OrdersSound → s.Waiting → (∀ e ∈ events, ∀ o ∈ e.placed, o.isOpen = true) →
    Moves s (events.flatMap Event.placed) (s.departuresOf policy events)
      (s.runFrom policy false index events).1
  | [], _, s, _, _, _ => .refl s
  | e :: rest, index, s, hs, hw, hopen => by
    have hstep : Moves s e.placed _ (s.step policy e).1 := step_moves hs hw e
    have hs' : (s.step policy e).1.OrdersSound := hs.step e
    have hw' : (s.step policy e).1.Waiting := Waiting.step hs hw (hopen e (List.mem_cons_self ..))
    have hrest := fun next (h : (s.step policy e).1 = next) =>
      runFrom_moves (index + 1) (h ▸ hs') (h ▸ hw') fun e' he' => hopen e' (List.mem_cons_of_mem _ he')
    rw [List.flatMap_cons, departuresOf, runFrom]
    rcases hnext : s.step policy e with ⟨next, cause | ⟨⟩⟩ <;> rw [hnext] at hstep
    · exact hstep.trans (hrest next (by rw [hnext]))
    · exact hstep.trans (hrest next (by rw [hnext]))

/-- **Every order is accounted for.** After any run, with events accepted and refused, the orders that were placed
are those that left and those that still rest, each once. An order that was filled has a fill of its own among
those that were applied, for its asset and its whole quantity, and the tally counts it; so it does those that
exits withdrew. It has no count of lost orders: that is by how much the orders filled, withdrawn and resting fall
short of those placed, and they come to them exactly if no order was lost. -/
theorem orders_accounted_for (policy : Policy α) (events : List (Event α))
    (h : ∀ o, Event.order o ∈ events → o.isOpen = true) :
    let report := (start.run policy false events).1.report
    let resting := (start.run policy false events).1.orders
    let placed := events.flatMap Event.placed
    let gone := start.departuresOf policy events
    (placed.map Order.ticket).Perm
        (gone.map (fun d => d.order.ticket) ++ resting.map Order.ticket) ∧
      (gone.filterMap Departure.fill?).Sublist ((start.journal policy events).map Applied.fill) ∧
      (∀ d ∈ gone, d.Whole) ∧
      report.tally.ordersFilled = gone.countP Departure.isFilled ∧
      report.tally.ordersCancelled = gone.countP Departure.isWithdrawn ∧
      placed.length = report.tally.ordersFilled + report.tally.ordersCancelled +
        report.openOrders + gone.countP Departure.isLost ∧
      (placed.length = report.tally.ordersFilled + report.tally.ordersCancelled + report.openOrders ↔
        ∀ d ∈ gone, d.isLost = false) := by
  intro report resting placed gone
  have hsound : (start : Session α).OrdersSound := fun o ho => by cases ho
  have hwaiting : (start : Session α).Waiting := fun o ho => by cases ho
  have hopen : ∀ e ∈ events, ∀ o ∈ e.placed, o.isOpen = true := fun e he o ho =>
    h o (Event.eq_order_of_mem_placed ho ▸ he)
  have hmoves : Moves start placed gone (start.run policy false events).1 :=
    runFrom_moves 0 hsound hwaiting hopen
  have hfilled : report.tally.ordersFilled = gone.countP Departure.isFilled :=
    hmoves.filled.trans (Nat.zero_add _)
  have hcancelled : report.tally.ordersCancelled = gone.countP Departure.isWithdrawn :=
    hmoves.cancelled.trans (Nat.zero_add _)
  have hbalance : placed.length = report.tally.ordersFilled + report.tally.ordersCancelled +
      report.openOrders + gone.countP Departure.isLost := by
    have hlength := hmoves.tickets.length_eq
    have hfates := Departure.countP_fates gone
    rw [List.length_append, List.length_map, List.length_map, List.length_map, List.length_append]
      at hlength
    change 0 + placed.length = gone.length + resting.length at hlength
    have hresting : report.openOrders = resting.length := rfl
    omega
  refine ⟨hmoves.tickets, departuresOf_fills hsound, departuresOf_whole, hfilled, hcancelled,
    hbalance, ?_⟩
  have hnone : gone.countP Departure.isLost = 0 ↔ ∀ d ∈ gone, d.isLost = false := by
    simp [List.countP_eq_zero]
  rw [← hnone]
  omega

/-- A stop that protects a whole position is placed, reached and filled. -/
theorem orders_accounted_for_stop :
    let policy : Policy Rat := .usual
    let events : List (Event Rat) :=
      [.fill "SPY" 10 100 none none .unset, .order ⟨1, "SPY", .sell, .stop 95, 10, .active⟩,
        .mark "SPY" 94 ⟨19724, 75600, 0⟩]
    let report := (start.run policy false events).1.report
    (∀ o, Event.order o ∈ events → o.isOpen = true) ∧
      (events.flatMap Event.placed).length =
        report.tally.ordersFilled + report.tally.ordersCancelled + report.openOrders := by
  intro policy events report
  have hopen : ∀ o, Event.order o ∈ events → o.isOpen = true := by simp [events, Order.isOpen]
  have hkept : ∀ d ∈ start.departuresOf policy events, d.isLost = false := by decide +kernel
  exact ⟨hopen, (orders_accounted_for policy events hopen).2.2.2.2.2.2.mpr hkept⟩

/-- **Two orders that are lost.** Both stops are reached by the same price. The fill of the first is refused for its
quantity, and the second, which would have sold the whole position, is gone with it. -/
theorem orders_lost_to_dust :
    let policy : Policy Rat := .usual
    let events : List (Event Rat) :=
      [.fill "SPY" 10 100 none none .unset,
        .order ⟨1, "SPY", .sell, .stop 95, 1 / 10 ^ 12, .active⟩,
        .order ⟨2, "SPY", .sell, .stop 95, 10, .active⟩, .mark "SPY" 94 ⟨19724, 75600, 0⟩]
    let report := (start.run policy false events).1.report
    policy.check = .ok () ∧ (∀ o, Event.order o ∈ events → o.isOpen = true) ∧
      (events.flatMap Event.placed).length = 2 ∧ report.tally.ordersFilled = 0 ∧
      report.tally.ordersCancelled = 0 ∧ report.openOrders = 0 := by
  intro policy events report
  have hopen : ∀ o, Event.order o ∈ events → o.isOpen = true := by simp [events, Order.isOpen]
  exact ⟨by decide +kernel, hopen, by decide +kernel, by decide +kernel, by decide +kernel,
    by decide +kernel⟩

end Session

end Holdings
