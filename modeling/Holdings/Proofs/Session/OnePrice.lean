import Mathlib
import Holdings.Proofs.Session.Course

/-!
# A price and the bar of that price

An observed price and the bar whose four prices are that price are played on different paths: the price is looked at
once and then stands for a bar, while a bar is looked at three times, in an order that hangs on the side that is
held. `handle_mark_eq_handle_bar` says that nothing tells them apart, down to the reason of a refusal.

Two things carry it. Looking again at a price that crossed no level finds nothing (`firstExit?_cons_of_forall`), and
nothing is decided by the volume of a bar (`playPrices_volume`).
-/

namespace Holdings

variable {α : Type} [Quantity α]

namespace Bar

variable [Quantity.LawfulFinite α] {price : α}

theorem isVoid_tick (asset : Asset) (time : Instant) (h : Quantity.isFinite price = true) :
    (tick asset time price).isVoid = false := by
  simp [tick, isVoid, Quantity.isVoid, Quantity.LawfulFinite.beq_self h]

/-- One price that is not negative agrees with itself. -/
theorem isSane_tick (asset : Asset) (time : Instant) (h : Quantity.isFinite price = true)
    (hprice : 0 ≤ price) : (tick asset time price).isSane = true := by
  have hvoid := isVoid_tick asset time h
  have hle : price ≤ price := Quantity.LawfulFinite.le_self h
  rw [isSane, hvoid]
  simp [tick, hle, hprice]

end Bar

namespace Session

/-! ## Looking at one price again -/

theorem laterExit?_of_forall {account : Account α} {asset : Asset} {time : Instant} {price : α}
    (h : account.trigger? asset price (some time) = none) :
    ∀ {path : List α}, (∀ x ∈ path, x = price) → laterExit? account asset time path = none
  | [], _ => rfl
  | x :: rest, hpath => by
    obtain rfl : x = price := hpath x (List.mem_cons_self ..)
    rw [laterExit?, h]
    exact laterExit?_of_forall h fun y hy => hpath y (List.mem_cons_of_mem _ hy)

/-- A path that stays at one price is as good as that price. -/
theorem firstExit?_cons_of_forall (account : Account α) (asset : Asset) (time : Instant) {price : α}
    {path : List α} (hpath : ∀ x ∈ path, x = price) :
    firstExit? account asset time (price :: path) = firstExit? account asset time [price] := by
  rw [firstExit?, firstExit?]
  rcases hfire : account.trigger? asset price (some time) with - | ⟨intent, fired⟩
  · exact laterExit?_of_forall hfire hpath
  · rfl

/-- The path of the bar of one price fires what that price fires: nothing where nothing is held, and where it
does not fire at once it does not fire later. -/
theorem firstExit?_pathOf_tick (account : Account α) (asset : Asset) (time : Instant) (price : α) :
    firstExit? account asset time (pathOf account (.tick asset time price)) =
      firstExit? account asset time [price] := by
  rw [pathOf]
  rcases hheld : account.get? (Bar.tick asset time price).asset with - | p
  · have hnone : account.trigger? asset price (some time) = none := by
      rw [Account.trigger?, show account.get? asset = none from hheld]
    rw [firstExit?, firstExit?, hnone]
    rfl
  · have hpath : ∀ x ∈ [price, price], x = price := by simp
    dsimp only [Bar.tick]
    split <;> exact firstExit?_cons_of_forall account asset time hpath

/-- Paths on which the same exit fires are played alike. -/
theorem playPrices_congr (policy : Policy α) {s : Session α} {b : Bar α} {path path' : List α}
    (h : firstExit? s.account b.asset b.time path = firstExit? s.account b.asset b.time path') :
    s.playPrices policy path b = s.playPrices policy path' b := by
  rw [playPrices, playPrices, h]

/-! ## The volume of a bar -/

theorem decideOrders_volume (rule : FillRule) (b : Bar α) (volume : α) : ∀ orders : List (Order α),
    decideOrders rule { b with volume := volume } orders = decideOrders rule b orders
  | [] => rfl
  | o :: rest => by
    have hdecide : o.decide rule { b with volume := volume } = o.decide rule b := rfl
    rw [decideOrders, decideOrders, decideOrders_volume rule b volume rest, hdecide]

theorem fillDue_volume (policy : Policy α) (b : Bar α) (volume : α) :
    ∀ (due : List (DueFill α)) (s : Session α),
      fillDue policy { b with volume := volume } s due = fillDue policy b s due
  | [], _ => rfl
  | d :: rest, s => by
    have hfill : d.fill policy { b with volume := volume } = d.fill policy b := rfl
    rw [fillDue, fillDue, hfill]
    rcases s.fill policy (d.fill policy b) with cause | next
    · rfl
    · exact fillDue_volume policy b volume rest _

/-- **Nothing is decided by the volume of a bar.** -/
theorem playPrices_volume (policy : Policy α) (s : Session α) (path : List α) (b : Bar α) (volume : α) :
    s.playPrices policy path { b with volume := volume } = s.playPrices policy path b := by
  have horders : s.playOrders policy { b with volume := volume } = s.playOrders policy b := by
    simp only [playOrders, decideOrders_volume, fillDue_volume]
  have hsane : ({ b with volume := volume } : Bar α).isSane = b.isSane := rfl
  rw [playPrices, playPrices, horders, hsane]

/-! ## One price -/

variable [Quantity.LawfulFinite α]

/-- **A price is the bar of that price.** In every session, a finite price that is not negative and the bar of that
price, of any volume, lead to the same account, orders and tally, and are accepted alike or refused for the same
reason. -/
theorem handle_mark_eq_handle_bar (policy : Policy α) (s : Session α) (asset : Asset) (time : Instant)
    {price : α} (volume : α) (hfinite : Quantity.isFinite price = true) (hprice : 0 ≤ price) :
    s.handle policy (.mark asset price time) =
      s.handle policy (.bar ⟨asset, time, price, price, price, price, volume⟩) := by
  let b : Bar α := { Bar.tick asset time price with volume := volume }
  have hvoid : b.isVoid = false := Bar.isVoid_tick asset time hfinite
  have hsane : b.isSane = true := Bar.isSane_tick asset time hfinite hprice
  change s.playMark policy asset price time = s.playBar policy b
  have hmark : s.account.mark b.asset b.closing b.time = s.account.mark asset price time := rfl
  rw [playMark, playBar, hvoid, hsane, hmark]
  rcases s.account.mark asset price time with fault | ⟨held, account⟩
  · rfl
  · have hpath := (firstExit?_pathOf_tick account asset time price).symm
    exact (playPrices_congr policy hpath).trans (playPrices_volume policy _ _ _ volume).symm

/-- A price of 94 falls through the stop-loss of ten shares bought at 100, guarded at 95 and 120. As a bar it does the
same: the exit fires at the opening, and 940 come back of the 1000 that were paid. -/
theorem handle_mark_eq_handle_bar_guarded :
    let policy : Policy Float := .usual
    let s := (start.handle policy (.fill "SPY" 10 100 none none ⟨some 95, some 120⟩)).1
    let time : Instant := ⟨19724, 75600, 0⟩
    Quantity.isFinite (94 : Float) = true ∧ (0 : Float) ≤ 94 ∧
      s.handle policy (.mark "SPY" 94 time) = s.handle policy (.bar ⟨"SPY", time, 94, 94, 94, 94, 7⟩) ∧
      (s.handle policy (.mark "SPY" 94 time)).1.tally.exits = 1 ∧
      (s.handle policy (.mark "SPY" 94 time)).1.tally.netCash = -60 := by
  intro policy s time
  have hfinite : Quantity.isFinite (94 : Float) = true := by decide +kernel
  have hprice : (0 : Float) ≤ 94 := by decide +kernel
  exact ⟨hfinite, hprice, handle_mark_eq_handle_bar policy s "SPY" time 7 hfinite hprice,
    by decide +kernel, by decide +kernel⟩

end Session

end Holdings
