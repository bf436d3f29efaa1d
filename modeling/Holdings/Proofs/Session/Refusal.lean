import Mathlib
import Holdings.Proofs.Session.Orders

/-!
# What a refused event leaves behind

A trade, new levels, an order, a split and a dividend are checked before anything changes, and so is an observed
price or bar itself. Once the price is recorded, though, it sets off fills: that of an exit that fires, or those
of the orders that are due. By the time such a fill is refused the exit has been counted, or the orders have been
taken away. `refused_unchanged_iff` says that these are the only events that are refused and yet change a session.
-/

namespace Holdings

variable {α : Type} [Quantity α]

/-- A fill is not refused for an observed price. -/
theorem Settlement.apply_eq_error {s : Settlement α} {p : Position α} {f : Fill α} {fault : Fault α}
    (h : s.apply p f = .error fault) (price : α) : fault ≠ .mark price := by
  rw [apply] at h
  split at h
  · next cause hcause =>
    obtain rfl := Except.error.inj h
    rw [fault?] at hcause
    split at hcause
    · rintro rfl
      cases hcause
    · obtain ⟨flaw, -, rfl⟩ := Option.map_eq_some_iff.mp hcause
      exact fun heq => by cases heq
  · dsimp only at h
    split at h
    · cases h
    · split at h
      · cases h
      · next levels _ _ =>
        rw [Position.configure] at h
        split at h
        · obtain rfl := Except.error.inj h
          exact fun heq => by cases heq
        · cases h

namespace Session

variable {policy : Policy α} {s : Session α} {cause : Rejection α}

/-- A session that a list of calls leads to from a fresh one, whether they are refused or not. -/
inductive Reachable (policy : Policy α) : Session α → Prop where
  /-- a fresh session -/
  | start : Reachable policy start
  /-- one more event -/
  | handle {s : Session α} (e : Event α) : Reachable policy s → Reachable policy (s.handle policy e).1
  /-- one more event, counted -/
  | step {s : Session α} (e : Event α) : Reachable policy s → Reachable policy (s.step policy e).1

/-- Reachable sessions hold no flawed order. -/
theorem Reachable.ordersSound (h : Reachable policy s) : s.OrdersSound := by
  induction h with
  | start => exact fun o ho => by cases ho
  | handle e _ ih => exact ih.handle e
  | step e _ ih => exact ih.step e

/-! ## Refused fills -/

theorem fill_refused {f : Fill α} (h : s.fill policy f = .error cause) :
    cause.isObservation = false := by
  obtain ⟨fault, happly, rfl⟩ := fill_eq_error h
  rw [Account.apply] at happly
  split at happly
  · next fault' hfault =>
    obtain rfl := Except.error.inj happly
    cases fault' with
    | mark price => exact absurd rfl (Settlement.apply_eq_error hfault price)
    | _ => rfl
  · cases happly

/-- Among fills that are due, one is refused only if there is one. -/
theorem fillDue_refused (b : Bar α) : ∀ {due : List (DueFill α)} {s : Session α},
    (fillDue policy b s due).2 = .error cause → due ≠ [] ∧ cause.isObservation = false
  | [], s, h => by cases h
  | d :: rest, s, h => by
    refine ⟨List.cons_ne_nil d rest, ?_⟩
    rw [fillDue] at h
    split at h
    · next cause' hf =>
      obtain rfl := Except.error.inj h
      exact fill_refused hf
    · exact (fillDue_refused b h).2

/-- Where an order is due, fewer orders rest afterwards, whatever becomes of its fill. -/
theorem length_withoutDue_lt {b : Bar α}
    (h : s.orders.filterMap (Order.due? policy.fillRule b) ≠ []) :
    (s.withoutDue policy b).orders.length < s.orders.length := by
  obtain ⟨d, hd⟩ := List.exists_mem_of_ne_nil _ h
  obtain ⟨o, ho, hdue⟩ := List.mem_filterMap.mp hd
  have hdone : ∃ o' ∈ s.orders.map (Order.advance policy.fillRule b), ¬o'.isOpen = true :=
    ⟨_, List.mem_map_of_mem ho, by simp [Order.isOpen_advance_of_due hdue]⟩
  have hlt := List.length_filter_lt_length_iff_exists.mpr hdone
  rwa [List.length_map] at hlt

/-- **Prices that are refused have changed the session**: an exit was counted, or an order was taken away. -/
theorem playPrices_refused (hs : s.OrdersSound) {path : List α} {b : Bar α}
    (h : (s.playPrices policy path b).2 = .error cause) :
    cause.isObservation = false ∧
      ((s.playPrices policy path b).1.tally.exits = s.tally.exits + 1 ∨
        (s.playPrices policy path b).1.orders.length < s.orders.length) := by
  rw [playPrices] at h ⊢
  split at h
  · next e hexit =>
    rcases playExit_cases policy s b.asset e with ⟨cause', hf, hplay⟩ | ⟨closed, -, hplay⟩ <;>
      rw [hplay] at h ⊢
    · -- the exit was counted before its fill was tried
      obtain rfl := Except.error.inj h
      exact ⟨fill_refused hf, .inl rfl⟩
    · cases h
  · split at h
    · next hexit hsane =>
      rw [playOrders_eq hs] at h
      obtain ⟨hdue, hcause⟩ := fillDue_refused b h
      refine ⟨hcause, .inr ?_⟩
      -- the orders that are due were taken away first, and there is one
      rw [if_pos hsane, playOrders_eq hs, fillDue_orders]
      exact length_withoutDue_lt hdue
    · cases h

/-- Of the other events a refused one leaves the session as it was. -/
theorem refused_of_not_observation {e : Event α} (he : e.isObservation = false)
    (h : (s.handle policy e).2 = .error cause) : (s.handle policy e).1 = s := by
  cases e with
  | mark => cases he
  | bar => cases he
  | fill asset quantity price cost time levels =>
    rw [Session.handle] at h ⊢
    split at h
    · rfl
    · cases h
  | levels asset l =>
    rw [Session.handle] at h ⊢
    split at h
    · rfl
    · cases h
  | order o =>
    rw [Session.handle] at h ⊢
    split at h
    · rfl
    · cases h
  | split asset ratio =>
    rw [Session.handle] at h ⊢
    split at h
    · rfl
    · cases h
  | dividend asset perShare =>
    rw [Session.handle, playDividend] at h ⊢
    split_ifs at h ⊢
    · rfl
    · split at h <;> cases h

/-- **Which refused events change nothing**: all but observed prices and bars that were themselves accepted. Of a
price or a bar, a refusal that is not about the price or the bar itself means that a fill it set off was refused,
and then the session is not what it was. -/
theorem refused_unchanged_iff (hs : Reachable policy s) {e : Event α}
    (h : (s.handle policy e).2 = .error cause) :
    (s.handle policy e).1 = s ↔ (e.isObservation = true → cause.isObservation = true) := by
  rcases hx : s.observation? e with - | x
  · -- nothing was observed, or nothing but the observation is refused
    by_cases he : e.isObservation = true
    · obtain ⟨hsame, hcause, -⟩ := observation?_eq_none policy he hx
      exact iff_of_true hsame fun _ => hcause cause h
    · refine iff_of_true ?_ fun he' => absurd he' he
      exact refused_of_not_observation (by simpa using he) h
  · obtain ⟨-, -, hplay⟩ := observation?_eq_some policy hx
    rw [hplay] at h ⊢
    obtain ⟨hcause, hmoved⟩ := playPrices_refused (s := x.session s) hs.ordersSound h
    have he : e.isObservation = true := isObservation_of_observation? hx
    rw [hcause, he]
    refine iff_of_false (fun heq => ?_) (by simp)
    rw [heq] at hmoved
    rcases hmoved with hexits | hlength
    · exact absurd hexits (Nat.lt_succ_self _).ne
    · exact absurd hlength (Nat.lt_irrefl _)

/-- A negative price is refused for a position that is held, and the session stays as it is. -/
theorem refused_unchanged_of_negative_mark :
    let policy : Policy Rat := .usual
    let s := (start.handle policy (.fill "SPY" 10 100 none none .unset)).1
    let mark : Event Rat := .mark "SPY" (-1) ⟨19724, 75600, 0⟩
    Reachable policy s ∧ (s.handle policy mark).2 = .error (.position (.mark (-1))) ∧
      (s.handle policy mark).1 = s := by
  intro policy s mark
  have hs : Reachable policy s := .handle _ .start
  have hrefused : (s.handle policy mark).2 = .error (.position (.mark (-1))) := by decide +kernel
  exact ⟨hs, hrefused, (refused_unchanged_iff hs hrefused).mpr fun _ => rfl⟩

/-- A stop that sells less than the smallest quantity. It passes the check of orders. -/
def dustStop : Order Rat := ⟨1, "SPY", .sell, .stop 95, 1 / 10 ^ 12, .active⟩

/-- **A refused price that changes the session**: it reaches a stop whose fill is refused for its quantity. The
refusal leaves the price recorded, and the order is gone. -/
theorem refused_mark_drops_order :
    let policy : Policy Rat := .usual
    let s := ((start.handle policy (.fill "SPY" 10 100 none none .unset)).1.handle policy
      (.order dustStop)).1
    let mark : Event Rat := .mark "SPY" 94 ⟨19724, 75600, 0⟩
    policy.check = .ok () ∧ Reachable policy s ∧
      (s.handle policy mark).2 = .error (.position (.fill (.dust (-1 / 10 ^ 12) (1 / 10 ^ 9)))) ∧
      s.orders = [dustStop] ∧ (s.handle policy mark).1.orders = [] ∧
      s.account.positions.map Position.lastPrice = [0] ∧
      (s.handle policy mark).1.account.positions.map Position.lastPrice = [94] ∧
      (s.handle policy mark).1 ≠ s := by
  intro policy s mark
  have hbefore : s.orders = [dustStop] := by decide +kernel
  have hafter : (s.handle policy mark).1.orders = [] := by decide +kernel
  refine ⟨by decide +kernel, .handle _ (.handle _ .start), by decide +kernel, hbefore, hafter,
    by decide +kernel, by decide +kernel, fun heq => ?_⟩
  rw [heq, hbefore] at hafter
  cases hafter

end Session

end Holdings
