import Mathlib
import Holdings.Proofs.Account.Restoration
import Holdings.Proofs.Session.Blotter

/-!
# Orders are lost to dust alone

The check of an order asks for a positive quantity and does not look at the smallest quantity of a fill. In exact
arithmetic that is the one thing that can go wrong with an order that is due: `fill_eq_error_iff` says when its
fill is refused, and `some_lost_iff` that an order below the smallest quantity is behind every loss.
-/

namespace Holdings

namespace GapRule

variable {α : Type} [Quantity α]

/-- A stop fills at the opening price or at the stop. -/
theorem price_cases (gap : GapRule) (side : Side) (opening stop : α) :
    gap.price opening stop side = opening ∨ gap.price opening stop side = stop := by
  cases gap with
  | atOpen => exact .inl rfl
  | atTrigger => exact .inr rfl
  | atWorst =>
    cases side with
    | buy =>
      rw [price, Quantity.higher]
      split <;> simp
    | sell =>
      rw [price, Quantity.lower]
      split <;> simp

end GapRule

namespace Order

section Price

variable {α : Type} [Quantity α] {rule : FillRule} {b : Bar α} {o : Order α} {x : Execution α}

theorem price_of_decideStop {stop : α} (h : o.decideStop rule stop b = .filled x) :
    x.price = b.opening ∨ x.price = stop := by
  rw [decideStop] at h
  split_ifs at h
  · obtain rfl := Decision.filled.inj h
    exact rule.gap.price_cases o.side b.opening stop
  · obtain rfl := Decision.filled.inj h
    exact .inr rfl

theorem price_of_decideLimit {limit : α} (h : o.decideLimit limit b = .filled x) :
    x.price = limit := by
  rw [decideLimit] at h
  split_ifs at h
  obtain rfl := Decision.filled.inj h
  rfl

/-- An order fills at one of its prices or at the opening of the bar. -/
theorem price_of_decideOpen (h : o.decideOpen rule b = .filled x) :
    x.price = b.opening ∨ x.price ∈ o.kind.prices := by
  rw [decideOpen] at h
  split at h
  · next stop _ hkind =>
    rw [hkind]
    exact (price_of_decideStop h).imp_right fun heq => by simp [OrderKind.prices, OrderKind.stop?, heq]
  · next limit _ hkind =>
    rw [hkind, price_of_decideLimit h]
    simp [OrderKind.prices, OrderKind.stop?, OrderKind.limit?]
  · next stop limit hkind _ =>
    have hlimit : limit ∈ o.kind.prices := by
      simp [hkind, OrderKind.prices, OrderKind.stop?, OrderKind.limit?]
    split_ifs at h
    split at h
    · cases h
    · split at h
      · next y hy =>
        obtain rfl := Decision.filled.inj h
        exact .inr (price_of_decideLimit hy ▸ hlimit)
      · cases h
  · next stop limit hkind _ =>
    rw [hkind, price_of_decideLimit h]
    simp [OrderKind.prices, OrderKind.stop?, OrderKind.limit?]

theorem price_of_due {d : Session.DueFill α} (h : o.due? rule b = some d) :
    d.price = b.opening ∨ d.price ∈ o.kind.prices := by
  rw [due?] at h
  split at h
  · next execution hfilled =>
    obtain rfl := Option.some.inj h
    rw [decisionOn] at hfilled
    split at hfilled
    · exact price_of_decideOpen hfilled
    · cases hfilled
  · cases h

end Price

/-- **The check of an order** in exact arithmetic: its quantity and its prices are above zero. -/
theorem check_eq_ok_iff {o : Order Rat} :
    o.check = .ok () ↔ 0 < o.quantity ∧ ∀ x ∈ o.kind.prices, 0 < x := by
  rw [check, flaw?]
  by_cases hquantity : o.quantity ≤ 0
  · simp [hquantity, hquantity.not_gt]
  · rcases hfind : o.kind.prices.find? Quantity.isNotPositive with - | x
    · have hprices : ∀ x ∈ o.kind.prices, 0 < x := by simpa using List.find?_eq_none.mp hfind
      simpa [hquantity, hfind, not_le.mp hquantity] using hprices
    · have hx := List.find?_some hfind
      have hmem := List.mem_of_find?_eq_some hfind
      simp only [hquantity, Quantity.isNotPositive_rat, decide_false, Bool.false_eq_true,
        if_false, Option.map_some, reduceCtorEq, false_iff, not_and, not_forall]
      exact fun _ => ⟨x, hmem, by simpa using hx⟩

theorem abs_signedQuantity (o : Order Rat) : |o.signedQuantity| = |o.quantity| := by
  rw [signedQuantity]
  cases o.side <;> simp [Side.signed]

/-- The fill of a sound order that is due on a sane bar has a price and the quantity of the order. -/
theorem due_sound {o : Order Rat} {rule : FillRule} {b : Bar Rat} {d : Session.DueFill Rat}
    (ho : o.check = .ok ()) (hb : b.isSane = true) (h : o.due? rule b = some d) :
    0 ≤ d.price ∧ |d.quantity| = o.quantity := by
  obtain ⟨hquantity, hprices⟩ := check_eq_ok_iff.mp ho
  refine ⟨?_, ?_⟩
  · rcases price_of_due h with heq | hmem
    · rw [heq]
      simp only [Bar.isSane, Bool.and_eq_true, decide_eq_true_eq] at hb
      exact hb.2.trans hb.1.1.2
    · exact (hprices _ hmem).le
  · rw [(quantity_of_due h).2, abs_signedQuantity, abs_of_pos hquantity]

end Order

namespace Session

variable {policy : Policy Rat}

/-- The account of a session holds sound positions, and no resting order is flawed. -/
def Sound (s : Session Rat) : Prop := s.account.All Position.Sound ∧ s.OrdersSound

theorem Sound.step {s : Session Rat} (h : s.Sound) (e : Event Rat) : (s.step policy e).1.Sound :=
  ⟨all_step (Position.stable_sound _) h.1 e, h.2.step e⟩

/-- **When a fill is refused** that has a price, a quantity and no levels: if its quantity is below the smallest one. -/
theorem fill_eq_error_iff {s : Session Rat} (hs : s.account.All Position.Sound) {f : Fill Rat}
    (hlevels : f.levels = none) (hquantity : f.quantity ≠ 0) (hprice : 0 ≤ f.price)
    {cause : Rejection Rat} :
    s.fill policy f = .error cause ↔ |f.quantity| < |policy.minimum| ∧
      cause = .position (.fill (.dust f.quantity |policy.minimum|)) := by
  have hticks := s.account.onTicks_of_levels_none (terms policy) hlevels
  have hasset : (s.account.held f.asset).asset = f.asset := by
    rcases s.account.held_cases f.asset with hheld | ⟨-, hflat⟩
    · exact (hs hheld).asset_eq
    · rw [hflat]
      rfl
  have hfault : (terms policy).settlement.fault? (s.account.held f.asset) f =
      if |f.quantity| < |policy.minimum| then some (.fill (.dust f.quantity |policy.minimum|))
      else none := by
    have hminimum : (terms policy).settlement.minimum = |policy.minimum| := Quantity.abs_rat _
    simp only [Settlement.fault?, hasset, ne_eq, not_true_eq_false, if_false, Settlement.fillFault?,
      hminimum, Quantity.isFinite_rat, Quantity.isNoPrice_rat, Quantity.abs_rat, Bool.not_true,
      Bool.false_eq_true, beq_iff_eq, hquantity, not_lt.mpr hprice, decide_false]
    split <;> rfl
  rw [fill, Account.apply, hticks, Settlement.apply, hfault]
  split_ifs with hdust
  · exact ⟨fun h => ⟨hdust, (Except.error.inj h).symm⟩, fun h => congrArg _ h.2.symm⟩
  · rw [hlevels]
    exact iff_of_false (fun h => by cases h) fun h => hdust h.1

/-- Among orders whose fills are applied in turn, one is lost only with one below the smallest quantity. -/
theorem dust_of_lost {b : Bar Rat} : ∀ {pairs : List (Order Rat × DueFill Rat)} {s : Session Rat},
    s.account.All Position.Sound →
    (∀ e ∈ pairs, 0 < e.1.quantity ∧ 0 ≤ e.2.price ∧ |e.2.quantity| = e.1.quantity) →
    (∃ x ∈ fatesOfDue policy b s pairs, x.isLost = true) →
    ∃ x ∈ fatesOfDue policy b s pairs, x.isLost = true ∧ |x.order.quantity| < |policy.minimum|
  | [], _, _, _, ⟨_, hx, _⟩ => by cases hx
  | (o, d) :: rest, s, hs, hpairs, hlost => by
    obtain ⟨hpos, hprice, hquantity⟩ := hpairs (o, d) (List.mem_cons_self ..)
    rw [fatesOfDue] at hlost ⊢
    rcases hf : s.fill policy (d.fill policy b) with cause | next <;> rw [hf] at hlost
    · -- the refused order is the first that is lost
      have hne : d.quantity ≠ 0 := abs_pos.mp (hquantity ▸ hpos)
      have hdust := ((fill_eq_error_iff (f := d.fill policy b) hs rfl hne hprice).mp hf).1
      refine ⟨_, List.mem_cons_self .., rfl, ?_⟩
      rwa [abs_of_pos hpos, ← hquantity]
    · obtain ⟨x, hx, hxlost⟩ := hlost
      rcases List.mem_cons.mp hx with rfl | hx
      · cases hxlost
      · have hnext : next.account.All Position.Sound :=
          (perform_of_fill hf).1 ▸ hs.perform (Position.stable_sound _) (.fill (d.fill policy b))
        obtain ⟨y, hy, hylost, hydust⟩ := dust_of_lost (s := next.count _) hnext
          (fun e he => hpairs e (List.mem_cons_of_mem _ he)) ⟨x, hx, hxlost⟩
        exact ⟨y, List.mem_cons_of_mem _ hy, hylost, hydust⟩

theorem dust_of_lost_priceDepartures {s : Session Rat} (hs : s.Sound) {path : List Rat} {b : Bar Rat}
    (h : ∃ x ∈ s.priceDepartures policy path b, x.isLost = true) :
    ∃ x ∈ s.priceDepartures policy path b, x.isLost = true ∧ |x.order.quantity| < |policy.minimum| := by
  rw [priceDepartures] at h ⊢
  rcases hexit : firstExit? s.account b.asset b.time path with - | e <;> rw [hexit] at h
  · dsimp only at h ⊢
    split at h
    · next hsane =>
      rw [if_pos hsane]
      refine dust_of_lost hs.1 (fun e he => ?_) h
      obtain ⟨o, ho, hpair⟩ := List.mem_filterMap.mp he
      obtain ⟨d, hdue, rfl⟩ := Option.map_eq_some_iff.mp hpair
      exact ⟨(Order.check_eq_ok_iff.mp (hs.2 o ho)).1, Order.due_sound (hs.2 o ho) hsane hdue⟩
    · obtain ⟨x, hx, -⟩ := h
      cases hx
  · obtain ⟨x, hx, hlost⟩ := h
    rw [Departure.isLost, fate_of_mem_exitDepartures hx] at hlost
    cases hlost

theorem dust_of_lost_departures {s : Session Rat} (hs : s.Sound) {e : Event Rat}
    (h : ∃ x ∈ s.departures policy e, x.isLost = true) :
    ∃ x ∈ s.departures policy e, x.isLost = true ∧ |x.order.quantity| < |policy.minimum| := by
  rcases hx : s.observation? e with - | x
  · rw [departures_of_none hx] at h
    obtain ⟨d, hd, -⟩ := h
    cases hd
  · rw [departures_of_some hx] at h ⊢
    obtain ⟨⟨held, hm⟩, -, -⟩ := observation?_eq_some policy hx
    have hperform := hs.1.perform (Position.stable_sound (terms policy))
      (.mark x.bar.asset x.bar.closing x.bar.time)
    rw [perform_of_mark hm] at hperform
    exact dust_of_lost_priceDepartures (s := x.session s) ⟨hperform, hs.2⟩ h

theorem dust_of_lost_departuresOf : ∀ {events : List (Event Rat)} {s : Session Rat}, s.Sound →
    (∃ x ∈ s.departuresOf policy events, x.isLost = true) →
    ∃ x ∈ s.departuresOf policy events, x.isLost = true ∧ |x.order.quantity| < |policy.minimum|
  | [], _, _, ⟨_, hx, _⟩ => by cases hx
  | e :: rest, s, hs, ⟨x, hx, hlost⟩ => by
    rcases List.mem_append.mp hx with hfirst | hrest
    · obtain ⟨y, hy, hdust⟩ := dust_of_lost_departures (s := s.taken) hs ⟨x, hfirst, hlost⟩
      exact ⟨y, List.mem_append_left _ hy, hdust⟩
    · obtain ⟨y, hy, hdust⟩ := dust_of_lost_departuresOf (hs.step e) ⟨x, hrest, hlost⟩
      exact ⟨y, List.mem_append_right _ hy, hdust⟩

/-- An order that was filled is not below the smallest quantity. -/
theorem not_dust_of_filled {events : List (Event Rat)} {x : Departure Rat} {f : Fill Rat}
    (hx : x ∈ start.departuresOf policy events) (hf : x.fill? = some f) :
    |policy.minimum| ≤ |x.order.quantity| := by
  have hsound : (start : Session Rat).OrdersSound := fun o ho => by cases ho
  have hmem : f ∈ (start.journal policy events).map Applied.fill :=
    (departuresOf_fills hsound).subset (List.mem_filterMap.mpr ⟨x, hx, hf⟩)
  obtain ⟨y, hy, rfl⟩ := List.mem_map.mp hmem
  obtain ⟨a, b, happly, -⟩ := Account.mem_journal hy
  obtain ⟨q, hq, -⟩ := Account.apply_eq_ok happly
  obtain ⟨hfault, -⟩ := Settlement.apply_eq_ok hq
  have hle := (Settlement.quantity_of_fillFault?_eq_none (Settlement.fillFault?_of_fault? hfault)).2
  have hquantity : y.fill.quantity = x.order.signedQuantity := (departuresOf_whole x hx _ hf).2
  rw [← Order.abs_signedQuantity, ← hquantity]
  exact (Quantity.abs_rat policy.minimum).ge.trans hle

/-- **Orders are lost to dust alone**: in exact arithmetic a run loses an order exactly if one that is below the
smallest quantity leaves other than by an exit. -/
theorem some_lost_iff (policy : Policy Rat) (events : List (Event Rat)) :
    (∃ x ∈ start.departuresOf policy events, x.isLost = true) ↔
      ∃ x ∈ start.departuresOf policy events,
        x.isWithdrawn = false ∧ |x.order.quantity| < |policy.minimum| := by
  constructor
  · intro h
    have hstart : (start : Session Rat).Sound := ⟨Account.all_empty, fun o ho => by cases ho⟩
    obtain ⟨x, hx, hlost, hdust⟩ := dust_of_lost_departuresOf hstart h
    refine ⟨x, hx, ?_, hdust⟩
    rcases x with ⟨o, f | - | cause⟩
    · cases hlost
    · cases hlost
    · rfl
  · rintro ⟨x, hx, hkept, hdust⟩
    refine ⟨x, hx, ?_⟩
    rcases hfate : x.fate with f | - | cause
    · have hfill : x.fill? = some f := by rw [Departure.fill?, hfate]
      exact absurd hdust (not_lt.mpr (not_dust_of_filled hx hfill))
    · rw [Departure.isWithdrawn, hfate] at hkept
      cases hkept
    · rw [Departure.isLost, hfate]

end Session

end Holdings
