import Mathlib
import Holdings.Proofs.Session.Blotter
import Holdings.Proofs.Session.Exits

/-!
# An exit and resting orders never trade on the same prices

A price may cross a level of a position and reach orders that rest in the same asset. If the exit fired and the orders
were decided as well, a stop that protects the position would fill after it was left, and open one on the other side.
An observed price or bar is therefore for the exit or for the orders.

* `Session.applied_of_exit?` and `Session.fillDue_ok` — what is applied of an exit, and of the orders that are due;
* `Order.othersOf` — the open orders of all other assets, which `Session.othersOf_handle` finds untouched;
* `Session.exit_or_orders_trade` — an observation that is accepted makes whole orders trade that rested in its asset,
  or an exit, which ends the position and leaves no order of the asset.
-/

namespace Holdings

variable {α : Type} [Quantity α]

namespace Session

variable {policy : Policy α} {s : Session α} {e : Event α} {exit : FiredExit α}

/-! ## Sessions that can be reached -/

theorem Proper.handle (h : s.Proper) (e : Event α) : (s.handle policy e).1.Proper :=
  ⟨(handle_performs s e).account ▸ h.held.run (Position.stable_held _) _, h.orders.handle e⟩

theorem Reachable.proper (h : Reachable policy s) : s.Proper := by
  induction h with
  | start => exact proper_start
  | handle e _ ih => exact ih.handle e
  | step e _ ih => exact ih.step e

/-! ## What an event applies -/

/-- The fills that an event applies, with the positions that they meet. -/
def applied (policy : Policy α) (s : Session α) (e : Event α) : List (Applied α) :=
  s.account.journal (terms policy) (s.operations policy e)

/-- An event with an exit applies the fill of that exit, unless it is refused. -/
theorem applied_of_exit? (policy : Policy α) (h : s.exit? e = some exit) :
    s.applied policy e = exit.account.entry (terms policy) (.fill (exit.fill policy)) := by
  obtain ⟨x, -, -, hx, hexit, -⟩ := exit?_eq_some h
  have hfirst : firstExit? (x.session s).account e.asset x.bar.time x.path = some exit := hexit
  have hfire : x.account.trigger? e.asset exit.price (some x.bar.time) = some (exit.intent, exit.account) :=
    firstExit?_eq_some hexit
  have hfired : x.account.perform (terms policy) (.trigger e.asset exit.price (some x.bar.time)) = exit.account := by
    rw [Account.perform, Account.perform?, hfire]
    rfl
  obtain ⟨⟨held, hm⟩, hoperations, -⟩ := observation?_eq_some policy hx
  rw [priceOperations, observation?_asset hx, hfirst] at hoperations
  rw [observation?_asset hx] at hm
  -- neither the price nor the trigger has an entry of its own
  rw [applied, hoperations, Account.journal, perform_of_mark hm, Account.journal, hfired, Account.journal,
    Account.journal, List.append_nil]
  rfl

/-- The position that an exit leaves has the amount that was held before the event. -/
theorem held_of_exit? (hs : s.Proper) (h : s.exit? e = some exit) : ∃ p q, s.account.get? e.asset = some p ∧
    exit.account.get? e.asset = some q ∧ q.amount = p.amount ∧ q.isFlat = false ∧
    exit.intent.asset = e.asset ∧ exit.intent.quantity = -p.amount := by
  obtain ⟨x, r, q, hx, hexit, hr, hfire, hkeep⟩ := exit?_eq_some h
  obtain ⟨⟨held, hm⟩, -, -⟩ := observation?_eq_some .usual hx
  have hasset : exit.intent.asset = e.asset :=
    Account.asset_of_trigger? (hs.mark hm .usual).held (firstExit?_eq_some hexit)
  obtain ⟨hflat, -, reason, level, -, hintent, rfl⟩ := Position.trigger?_eq_some hfire
  have hbefore : ∃ p, s.account.get? e.asset = some p ∧ p.amount = r.amount := by
    rw [observation?_asset hx] at hm
    rcases Account.mark_eq_ok hm with hsame | ⟨p, p', hp, hmark, hafter⟩
    · exact ⟨r, hsame ▸ hr, rfl⟩
    · obtain ⟨-, rfl⟩ := Position.mark_eq_ok hmark
      rw [hafter, Account.get?_keep, if_pos rfl] at hr
      obtain rfl := Option.some.inj hr
      exact ⟨p, hp, rfl⟩
  obtain ⟨p, hp, hamount⟩ := hbefore
  refine ⟨p, { r with levels := .only reason level, trigger := .fired reason }, hp, ?_, hamount.symm, hflat, hasset,
    ?_⟩
  · rw [hkeep, Account.get?_keep, if_pos rfl]
  · rw [hintent, hamount]

/-- Fills that are due and are all accepted are all applied, and counted as orders that were filled. -/
theorem fillDue_ok (b : Bar α) : ∀ {due : List (DueFill α)} {s : Session α},
    (fillDue policy b s due).2 = .ok () →
    (s.account.journal (terms policy) (s.triedFills policy b due)).map Applied.fill =
        due.map (DueFill.fill policy b) ∧
      (fillDue policy b s due).1.tally.ordersFilled = s.tally.ordersFilled + due.length
  | [], s, _ => ⟨rfl, rfl⟩
  | d :: rest, s, h => by
    rw [fillDue] at h ⊢
    rw [triedFills]
    rcases hf : s.fill policy (d.fill policy b) with cause | next <;> rw [hf] at h
    · cases h
    · obtain ⟨hfills, hcount⟩ := fillDue_ok b h
      obtain ⟨hperform, outcome, hentry⟩ := perform_of_fill hf
      obtain ⟨o, account, -, rfl⟩ := fill_eq_ok hf
      refine ⟨?_, hcount.trans ?_⟩
      · rw [Account.journal, hentry, hperform]
        exact congrArg (d.fill policy b :: ·) hfills
      · rw [List.length_cons]
        change s.tally.ordersFilled + 1 + rest.length = _
        omega

end Session

namespace Order

variable {rule : FillRule} {b : Bar α} {o : Order α}

/-- An order whose fill is due waits. -/
theorem isOpen_of_due {d : Session.DueFill α} (h : o.due? rule b = some d) : o.isOpen = true := by
  by_contra hclosed
  rw [due?_eq_none fun _ => by simpa using hclosed] at h
  cases h

/-- The orders whose fills are due on a bar. -/
def dueOn (rule : FillRule) (b : Bar α) (orders : List (Order α)) : List (Order α) :=
  orders.filter fun o => (o.due? rule b).isSome

theorem mem_dueOn {orders : List (Order α)} (h : o ∈ dueOn rule b orders) : o.asset = b.asset ∧ o.isOpen = true := by
  obtain ⟨d, hd⟩ := Option.isSome_iff_exists.mp (List.mem_filter.mp h).2
  exact ⟨(quantity_of_due hd).1, isOpen_of_due hd⟩

/-- **A fill that is due** is one of the asset of its order and for its whole quantity. -/
theorem map_fill_due (policy : Policy α) (rule : FillRule) (b : Bar α) (orders : List (Order α)) :
    ((orders.filterMap (due? rule b)).map (Session.DueFill.fill policy b)).map (fun f => (f.asset, f.quantity)) =
      (dueOn rule b orders).map fun o => (o.asset, o.signedQuantity) := by
  induction orders with
  | nil => rfl
  | cons o rest ih =>
    rcases hd : o.due? rule b with - | d
    · rw [List.filterMap_cons_none hd, ih, dueOn, dueOn, List.filter_cons_of_neg (by simp [hd])]
    · obtain ⟨hasset, hquantity⟩ := quantity_of_due hd
      rw [List.filterMap_cons_some hd, dueOn, List.filter_cons_of_pos (by simp [hd]), List.map_cons, List.map_cons,
        List.map_cons, ih, hasset, ← hquantity]
      rfl

/-- The orders of all other assets that wait, in their order. -/
def othersOf (asset : Asset) (orders : List (Order α)) : List (Order α) :=
  orders.filter fun o => o.asset ≠ asset && o.isOpen

omit [Quantity α] in
/-- Orders are changed one by one and dropped when they do not wait any more: where none of another asset is changed,
those of them that wait stay. -/
theorem othersOf_map_filter {asset : Asset} {g : Order α → Order α} (hasset : ∀ o, (g o).asset = o.asset)
    (hsame : ∀ o, o.asset ≠ asset → g o = o) (orders : List (Order α)) :
    othersOf asset ((orders.map g).filter isOpen) = othersOf asset orders := by
  have hkept : ∀ o ∈ orders, (((g o).asset ≠ asset && (g o).isOpen) && (g o).isOpen) =
      (o.asset ≠ asset && o.isOpen) := by
    intro o _
    by_cases ho : o.asset = asset
    · simp [hasset, ho]
    · simp [hsame o ho]
  simp only [othersOf, List.filter_filter, List.filter_map, Function.comp_def]
  rw [List.filter_congr hkept]
  refine (List.map_congr_left fun o ho => hsame o ?_).trans (List.map_id' _)
  simpa using (Bool.and_eq_true_iff.mp (List.mem_filter.mp ho).2).1

end Order

namespace Session

variable {policy : Policy α} {s : Session α} {e : Event α} {exit : FiredExit α}

/-- Prices leave the orders of all other assets that wait. -/
theorem othersOf_playPrices (hs : s.OrdersSound) (path : List α) (b : Bar α) :
    Order.othersOf b.asset (s.playPrices policy path b).1.orders = Order.othersOf b.asset s.orders := by
  rw [playPrices]
  split
  · next exit _ =>
    rcases playExit_cases policy s b.asset exit with ⟨cause, -, hplay⟩ | ⟨closed, hf, hplay⟩ <;> rw [hplay]
    · rfl
    · have horders : closed.orders = (s.fire exit).orders := fill_orders hf
      rw [show s.orders = closed.orders from horders.symm]
      refine Order.othersOf_map_filter (fun o => ?_) (fun o ho => if_neg ho) closed.orders
      split
      · exact o.asset_cancel
      · rfl
  · split
    · rw [playOrders_orders hs]
      exact Order.othersOf_map_filter (Order.asset_advance _ b)
        (fun o ho => Order.advance_eq_self fun heq => absurd heq ho) s.orders
    · rfl

/-- **An observation leaves the orders of all other assets that wait**, each at its place. -/
theorem othersOf_handle (hs : s.OrdersSound) (he : e.isObservation = true) :
    Order.othersOf e.asset (s.handle policy e).1.orders = Order.othersOf e.asset s.orders := by
  rcases hx : s.observation? e with - | x
  · rw [(observation?_eq_none policy he hx).1]
  · rw [(observation?_eq_some policy hx).2.2, ← observation?_asset hx]
    exact othersOf_playPrices (s := x.session s) hs x.path x.bar

/-! ## Either the orders trade or an exit does -/

/-- **The orders trade**, or nothing does. -/
structure OrdersTrade (policy : Policy α) (s : Session α) (e : Event α) : Prop where
  /-- no exit fires -/
  quiet : s.exit? e = none
  /-- and none is counted -/
  exits : (s.handle policy e).1.tally.exits = s.tally.exits
  /-- the fills are those of orders of the asset that waited, each for the whole quantity of another one of them -/
  fills : ∃ filled : List (Order α), filled.Sublist s.orders ∧
    (∀ o ∈ filled, o.asset = e.asset ∧ o.isOpen = true) ∧
    (s.applied policy e).map (fun x => (x.fill.asset, x.fill.quantity)) =
      filled.map (fun o => (o.asset, o.signedQuantity)) ∧
    (s.handle policy e).1.tally.ordersFilled = s.tally.ordersFilled + filled.length

/-- **An exit trades**, and nothing else does. -/
structure ExitTrades (policy : Policy α) (s : Session α) (e : Event α) (exit : FiredExit α) : Prop where
  /-- the exit fires -/
  fires : s.exit? e = some exit
  /-- and is counted -/
  exits : (s.handle policy e).1.tally.exits = s.tally.exits + 1
  /-- the one fill is that of all that was held, and ends the position -/
  fill : ∃ p x, s.account.get? e.asset = some p ∧ s.applied policy e = [x] ∧ x.fill = exit.fill policy ∧
    x.fill.asset = e.asset ∧ x.fill.quantity = -p.amount ∧ x.outcome.kind = .closed
  /-- nothing is held any more -/
  absent : (s.handle policy e).1.account.get? e.asset = none
  /-- no order is filled -/
  ordersFilled : (s.handle policy e).1.tally.ordersFilled = s.tally.ordersFilled
  /-- and none of the asset rests any more -/
  withdrawn : ∀ o ∈ (s.handle policy e).1.orders, o.asset ≠ e.asset

theorem ordersTrade_of_exit? (hs : s.Proper) (he : e.isObservation = true) (hok : (s.handle policy e).2 = .ok ())
    (h : s.exit? e = none) : OrdersTrade policy s e := by
  have hexits := exits_handle policy s e
  rw [h] at hexits
  refine ⟨h, hexits, ?_⟩
  rcases hx : s.observation? e with - | x
  · -- at most a refused price was tried
    obtain ⟨hsame, -, hoperations⟩ := observation?_eq_none policy he hx
    have happlied : s.applied policy e = [] := by
      rcases hoperations with hnone | ⟨asset, price, time, -, hmark⟩
      · rw [applied, hnone]
        rfl
      · rw [applied, hmark]
        rfl
    exact ⟨[], List.nil_sublist _, by simp, by rw [happlied]; rfl, by rw [hsame]; rfl⟩
  · obtain ⟨⟨held, hm⟩, hoperations, hplay⟩ := observation?_eq_some policy hx
    have hnone := firstExit?_of_exit?_eq_none hx h
    rw [priceOperations, hnone] at hoperations
    rw [playPrices, hnone] at hplay
    dsimp only at hoperations hplay
    have happlied : s.applied policy e = x.account.journal (terms policy)
        (if x.bar.isSane then (x.session s).orderOperations policy x.bar else []) := by
      rw [applied, hoperations, Account.journal, perform_of_mark hm]
      rfl
    by_cases hsane : x.bar.isSane = true
    · have hsound : (x.session s).OrdersSound := hs.orders
      rw [if_pos hsane, orderOperations, decideOrders_eq policy.fillRule x.bar hsound] at happlied
      rw [if_pos hsane, playOrders_eq hsound] at hplay
      rw [hplay] at hok ⊢
      obtain ⟨hfills, hcount⟩ := fillDue_ok x.bar hok
      refine ⟨Order.dueOn policy.fillRule x.bar s.orders, List.filter_sublist, fun o ho => ?_, ?_, ?_⟩
      · rw [← observation?_asset hx]
        exact Order.mem_dueOn ho
      · rw [happlied, ← Order.map_fill_due policy]
        have hlist := congrArg (List.map fun f : Fill α => (f.asset, f.quantity)) hfills
        rw [List.map_map] at hlist
        exact hlist
      · have hlength := congrArg List.length (Order.map_fill_due policy policy.fillRule x.bar s.orders)
        simp only [List.length_map] at hlength
        rw [hcount, ← hlength]
        rfl
    · rw [if_neg hsane] at happlied hplay
      exact ⟨[], List.nil_sublist _, by simp, by rw [happlied]; rfl, by rw [hplay]; rfl⟩

theorem exitTrades_of_exit? [Quantity.LawfulZero α] [Quantity.LawfulNeg α] (hs : s.Proper)
    (hok : (s.handle policy e).2 = .ok ()) (h : s.exit? e = some exit) : ExitTrades policy s e exit := by
  have hexits := exits_handle policy s e
  rw [h] at hexits
  obtain ⟨p, q, hp, hq, hamount, hflat, hasset, hquantity⟩ := held_of_exit? hs h
  have hplay : s.handle policy e = s.playExit policy e.asset exit := handle_of_exit? policy h
  rcases playExit_cases policy s e.asset exit with ⟨cause, -, hend⟩ | ⟨closed, hf, hend⟩ <;> rw [hend] at hplay
  · rw [hplay] at hok
    cases hok
  obtain ⟨o, account, happly, rfl⟩ := fill_eq_ok hf
  have happly : exit.account.apply (terms policy) (exit.fill policy) = .ok (o, account) := happly
  have hfill : (exit.fill policy).asset = e.asset := hasset
  obtain ⟨hkind, habsent⟩ := Account.ends_of_apply happly (hfill ▸ hq) hflat (hquantity.trans (by rw [hamount]))
  have happlied : s.applied policy e = [⟨exit.account.held (exit.fill policy).asset, exit.fill policy, o⟩] := by
    rw [applied_of_exit? policy h, Account.entry, happly]
  refine ⟨h, hexits, ⟨p, _, hp, happlied, rfl, hasset, hquantity, hkind⟩, ?_, ?_, ?_⟩
  · rw [hplay, ← hfill]
    exact habsent
  · rw [hplay]
    rfl
  · intro order horder hmine
    have hopen : order.isOpen = true := by
      rw [hplay] at horder
      exact (List.mem_filter.mp horder).2
    have hrests : order ∈ Order.openOf e.asset (s.handle policy e).1.orders :=
      List.mem_filter.mpr ⟨horder, by simp [hmine, hopen]⟩
    rw [hplay, openOf_cancelOrders] at hrests
    cases hrests

/-- **An exit and resting orders never trade on the same price or bar.** In any session that can be reached, let an
observed price or bar be accepted. Either no exit fires, and what is applied are fills of orders of the asset that
waited, each for its whole quantity and none of them twice. Or an exit fires, and the one fill that is applied is that
of all that was held in the asset: it ends the position, which leaves the book, no order is filled, and none of the
asset rests any more. The orders of all other assets that wait stay as they are, each at its place. -/
theorem exit_or_orders_trade [Quantity.LawfulZero α] [Quantity.LawfulNeg α] (hs : Reachable policy s)
    (he : e.isObservation = true) (hok : (s.handle policy e).2 = .ok ()) :
    (OrdersTrade policy s e ∨ ∃ exit, ExitTrades policy s e exit) ∧
      Performs policy s (s.operations policy e) (s.handle policy e).1 ∧
      Order.othersOf e.asset (s.handle policy e).1.orders = Order.othersOf e.asset s.orders := by
  refine ⟨?_, handle_performs s e, othersOf_handle hs.proper.orders he⟩
  rcases hexit : s.exit? e with - | exit
  · exact .inl (ordersTrade_of_exit? hs.proper he hok hexit)
  · exact .inr ⟨exit, exitTrades_of_exit? hs.proper hok hexit⟩

/-- Ten shares are guarded at 90 by their stop-loss and by a seller's stop. A price of 85 crosses both: the exit sells
the shares, and the stop, which would have sold ten more, is gone. A stop in another asset stays. -/
theorem exit_or_orders_trade_protected :
    let policy : Policy Float := .usual
    let stop : Order Float := ⟨1, "SPY", .sell, .stop 90, 10, .active⟩
    let other : Order Float := ⟨2, "QQQ", .buy, .stop 400, 3, .active⟩
    let guarded := (start.handle policy (.fill "SPY" 10 100 none none ⟨some 90, none⟩)).1
    let s := ((guarded.handle policy (.order stop)).1.handle policy (.order other)).1
    let e : Event Float := .mark "SPY" 85 ⟨19724, 75600, 0⟩
    (s.handle policy e).2 = .ok () ∧ (∃ exit, ExitTrades policy s e exit) ∧
      Order.othersOf "SPY" (s.handle policy e).1.orders = [other] := by
  intro policy stop other guarded s e
  have hs : Reachable policy s := ((Reachable.start.handle _).handle _).handle _
  have hok : (s.handle policy e).2 = .ok () := by decide +kernel
  obtain ⟨htrade, -, hothers⟩ := exit_or_orders_trade hs rfl hok
  have hcounted : (s.handle policy e).1.tally.exits = s.tally.exits + 1 := by decide +kernel
  refine ⟨hok, htrade.resolve_left fun horders => ?_, hothers.trans (by decide +kernel)⟩
  have hquiet := horders.exits
  omega

end Session

end Holdings
