import Mathlib
import Holdings.Proofs.Exit.Crossing
import Holdings.Proofs.Session.Exclusion
import Holdings.Proofs.Session.Protection

/-!
# Where a position is left on a bar

Of what happened within a bar only four prices are known. An exit takes it that the price moved against the position
first: it looks at the opening, then at the worst price for the position and then at the best one, and at each of them
at the stop-loss before the take-profit. A level that the opening has crossed is left at the opening, any other at the
level itself.

* `Position.exitOn?` — the exit in four lines: each level at the opening, then the stop-loss at the worst price, then
  the take-profit at the best one;
* `Position.reached?_worst` and `Position.reached?_best` — nothing else is found on the way: what the opening has not
  crossed the worst price does not cross as a take-profit, nor the best one as a stop-loss;
* `Session.exit_on_bar` — a bar does just this exit, at a price between its low and its high.
-/

namespace Holdings

variable {α : Type} [Quantity α]

namespace Position

/-- A position with the closing price of a bar on it. -/
def closedAt (p : Position α) (b : Bar α) : Position α :=
  { p with lastPrice := b.closing, lastTime := some b.time }

/-- The worst price of a bar for a position. -/
def worst (p : Position α) (b : Bar α) : α := if p.isLong then b.low else b.high

/-- The best price of a bar for a position. -/
def best (p : Position α) (b : Bar α) : α := if p.isLong then b.high else b.low

/-- **Where a position is left on a bar**, and for which reason. -/
def exitOn? (p : Position α) (b : Bar α) : Option (ExitReason × α) :=
  ((p.reached? .stopLoss b.opening).map fun _ => (ExitReason.stopLoss, b.opening)) <|>
  ((p.reached? .takeProfit b.opening).map fun _ => (ExitReason.takeProfit, b.opening)) <|>
  ((p.reached? .stopLoss (p.worst b)).map fun level => (ExitReason.stopLoss, level)) <|>
  ((p.reached? .takeProfit (p.best b)).map fun level => (ExitReason.takeProfit, level))

end Position

/-! ## The prices of a bar -/

namespace Bar

variable {b : Bar Rat}

/-- The opening of a bar that makes sense lies between its low and its high. -/
theorem opening_mem (h : b.isSane = true) : b.opening ∈ Set.Icc b.low b.high := by
  simp only [isSane, Bool.and_eq_true, decide_eq_true_eq] at h
  exact ⟨h.1.1.2, h.1.1.1.1.2⟩

/-- The closing price of a bar that makes sense is one. -/
theorem closing_nonneg (h : b.isSane = true) : 0 ≤ b.closing := by
  simp only [isSane, Bool.and_eq_true, decide_eq_true_eq] at h
  exact h.2.trans h.1.2

theorem isVoid_of_isSane (h : b.isSane = true) : b.isVoid = false := by
  simp only [isSane, Bool.and_eq_true, Bool.not_eq_true'] at h
  exact h.1.1.1.1.1.1

end Bar

namespace Position

variable {p : Position Rat} {b : Bar Rat}

/-- A take-profit that the opening has not crossed is not crossed by the worst price. -/
theorem reached?_worst (hb : b.isSane = true) (h : p.reached? .takeProfit b.opening = none) :
    p.reached? .takeProfit (p.worst b) = none := by
  obtain ⟨hlow, hhigh⟩ := Bar.opening_mem hb
  rw [reached?, Option.filter_eq_none_iff] at h ⊢
  intro level hlevel hcross
  refine h level hlevel ?_
  rw [worst] at hcross
  rcases hlong : p.isLong with - | - <;> rw [hlong] at hcross
  · exact decide_eq_true (hhigh.trans (of_decide_eq_true hcross))
  · exact decide_eq_true ((of_decide_eq_true hcross).trans hlow)

/-- A stop-loss that the opening has not crossed is not crossed by the best price. -/
theorem reached?_best (hb : b.isSane = true) (h : p.reached? .stopLoss b.opening = none) :
    p.reached? .stopLoss (p.best b) = none := by
  obtain ⟨hlow, hhigh⟩ := Bar.opening_mem hb
  rw [reached?, Option.filter_eq_none_iff] at h ⊢
  intro level hlevel hcross
  refine h level hlevel ?_
  rw [best] at hcross
  rcases hlong : p.isLong with - | - <;> rw [hlong] at hcross
  · exact decide_eq_true ((of_decide_eq_true hcross).trans hlow)
  · exact decide_eq_true (hhigh.trans (of_decide_eq_true hcross))

/-- A level that one price crosses and another does not lies between the two. -/
theorem level_mem_uIcc {reason : ExitReason} {price price' level : Rat}
    (h : p.reached? reason price = some level) (hnone : p.reached? reason price' = none) :
    level ∈ Set.uIcc price price' := by
  obtain ⟨hlevel, hcross⟩ := Option.filter_eq_some_iff.mp h
  have hnot : ¬crosses p.isLong reason price' level = true := Option.filter_eq_none_iff.mp hnone level hlevel
  generalize p.isLong = long at hcross hnot
  rw [Set.mem_uIcc]
  cases long <;> cases reason <;> simp only [crosses, decide_eq_true_eq, not_le] at hcross hnot
  · exact .inr ⟨hnot.le, hcross⟩
  · exact .inl ⟨hcross, hnot.le⟩
  · exact .inl ⟨hcross, hnot.le⟩
  · exact .inr ⟨hnot.le, hcross⟩

/-- The worst and the best price of a bar lie between its low and its high. -/
theorem worst_mem (p : Position Rat) (hb : b.isSane = true) : p.worst b ∈ Set.Icc b.low b.high := by
  obtain ⟨hlow, hhigh⟩ := Bar.opening_mem hb
  rw [worst]
  split
  · exact ⟨le_rfl, hlow.trans hhigh⟩
  · exact ⟨hlow.trans hhigh, le_rfl⟩

theorem best_mem (p : Position Rat) (hb : b.isSane = true) : p.best b ∈ Set.Icc b.low b.high := by
  obtain ⟨hlow, hhigh⟩ := Bar.opening_mem hb
  rw [best]
  split
  · exact ⟨hlow.trans hhigh, le_rfl⟩
  · exact ⟨le_rfl, hlow.trans hhigh⟩

/-- **An exit on a bar invents no price**: it is one between the low and the high. -/
theorem price_of_exitOn? (hb : b.isSane = true) {reason : ExitReason} {price : Rat}
    (h : p.exitOn? b = some (reason, price)) : price ∈ Set.Icc b.low b.high := by
  have hopen : b.opening ∈ Set.Icc b.low b.high := Bar.opening_mem hb
  rw [exitOn?] at h
  rcases hstop : p.reached? .stopLoss b.opening with - | level
  · rcases htake : p.reached? .takeProfit b.opening with - | level
    · rcases hworst : p.reached? .stopLoss (p.worst b) with - | level <;> simp only [hstop, htake, hworst] at h
      · obtain ⟨level, hbest, hpair⟩ := Option.map_eq_some_iff.mp h
        obtain ⟨-, rfl⟩ := Prod.mk.inj hpair
        exact Set.uIcc_subset_Icc (p.best_mem hb) hopen (level_mem_uIcc hbest htake)
      · obtain ⟨-, rfl⟩ := Prod.mk.inj (Option.some.inj h)
        exact Set.uIcc_subset_Icc (p.worst_mem hb) hopen (level_mem_uIcc hworst hstop)
    · simp only [hstop, htake] at h
      obtain ⟨-, rfl⟩ := Prod.mk.inj (Option.some.inj h)
      exact hopen
  · simp only [hstop] at h
    obtain ⟨-, rfl⟩ := Prod.mk.inj (Option.some.inj h)
    exact hopen

end Position

/-! ## The exit of a bar -/

namespace Session

/-- The prices of a path that are looked at: the first one is where a level is left that it crosses, and each later one
brings the level itself. -/
theorem firstExit?_armed {a : Account Rat} {asset : Asset} {q : Position Rat} (hq : a.get? asset = some q)
    (hflat : q.isFlat = false) (harmed : q.trigger = .armed) (time : Instant) (first second third : Rat) :
    (firstExit? a asset time [first, second, third]).map (fun x => (x.intent.reason, x.exitPrice)) =
      (((q.crossed? first).map fun x => (x.1, first)) <|> (q.crossed? second) <|> (q.crossed? third)) := by
  have htrigger : ∀ price, a.trigger? asset price (some time) = (q.crossed? price).map fun x =>
      (⟨q.asset, -q.amount, x.1, x.2, price, some time⟩,
        a.keep asset { q with levels := .only x.1 x.2, trigger := .fired x.1 }) := by
    intro price
    simp only [Account.trigger?, hq, Position.trigger?_of_armed hflat harmed (Quantity.isFinite_rat price),
      Option.map_map, Function.comp_def]
  rw [firstExit?, laterExit?, laterExit?, laterExit?]
  simp only [htrigger]
  rcases q.crossed? first with - | ⟨reason, level⟩
  · rcases q.crossed? second with - | ⟨reason, level⟩
    · rcases q.crossed? third with - | ⟨reason, level⟩ <;> rfl
    · rfl
  · rfl

variable {policy : Policy Rat} {s : Session Rat} {b : Bar Rat} {p : Position Rat}

/-- What a bar that makes sense shows to a session: the closing price is recorded, and the opening, the worst and the
best price are played. -/
theorem observation?_bar (hb : b.isSane = true) (hp : s.account.get? b.asset = some p) :
    s.observation? (.bar b) =
      some ⟨s.account.keep b.asset (p.closedAt b), [b.opening, p.worst b, p.best b], b⟩ := by
  have hmark : s.account.mark b.asset b.closing b.time = .ok (true, s.account.keep b.asset (p.closedAt b)) := by
    simp only [Account.mark, hp, Position.mark, Quantity.isNoPrice_rat, not_lt.mpr (Bar.closing_nonneg hb)]
    rfl
  have hpath : pathOf (s.account.keep b.asset (p.closedAt b)) b = [b.opening, p.worst b, p.best b] := by
    rw [pathOf, Account.get?_keep, if_pos rfl, Position.worst, Position.best]
    change (if p.isLong then _ else _) = _
    split <;> rfl
  rw [observation?, Bar.isVoid_of_isSane hb, hb, if_neg (by simp), record?, hmark]
  dsimp only
  rw [hpath]

/-- **The exit that a bar sets off** is the one that the four prices of the bar say. -/
theorem exit?_bar (hb : b.isSane = true) (hp : s.account.get? b.asset = some p) (hflat : p.isFlat = false)
    (harmed : p.trigger = .armed) (hpos : ∀ reason, ∀ level ∈ p.levels.level? reason, 0 < level) :
    (s.exit? (.bar b)).map (fun x => (x.intent.reason, x.exitPrice)) = p.exitOn? b := by
  have hget : (s.account.keep b.asset (p.closedAt b)).get? b.asset = some (p.closedAt b) :=
    (Account.get?_keep ..).trans (if_pos rfl)
  have hcrossed : ∀ price, (p.closedAt b).crossed? price =
      (((p.reached? .stopLoss price).map fun level => (ExitReason.stopLoss, level)) <|>
        ((p.reached? .takeProfit price).map fun level => (ExitReason.takeProfit, level))) :=
    Position.crossed?_eq hpos
  rw [exit?, observation?_bar hb hp, Option.bind_some]
  dsimp only
  rw [firstExit?_armed hget hflat harmed, hcrossed, hcrossed, hcrossed, Position.exitOn?]
  rcases hstop : p.reached? .stopLoss b.opening with - | level
  · rcases htake : p.reached? .takeProfit b.opening with - | level
    · -- no take-profit comes first on the way to the worst price, and no stop-loss on the way to the best
      rw [Position.reached?_worst hb htake, Position.reached?_best hb hstop]
      rcases p.reached? .stopLoss (p.worst b) with - | level <;> rfl
    · rfl
  · rfl

/-- The fill of an exit on a bar is one of all that is held, at the time of the bar. -/
theorem fill_of_exit?_bar (policy : Policy Rat) (hb : b.isSane = true) (hp : s.account.get? b.asset = some p)
    (hasset : p.asset = b.asset) {exit : FiredExit Rat} (h : s.exit? (.bar b) = some exit) :
    exit.fill policy = ⟨b.asset, -p.amount, exit.exitPrice, policy.costs.cost (-p.amount) exit.exitPrice,
      some b.time, none⟩ := by
  obtain ⟨x, r, q, hx, -, hr, hfire, -⟩ := exit?_eq_some h
  rw [observation?_bar hb hp] at hx
  obtain rfl := Option.some.inj hx
  obtain rfl : p.closedAt b = r := Option.some.inj (((Account.get?_keep ..).trans (if_pos rfl)).symm.trans hr)
  obtain ⟨-, -, reason, level, -, hintent, -⟩ := Position.trigger?_eq_some hfire
  rw [FiredExit.fill, ExitIntent.toFill, hintent, ← hasset]
  rfl

/-- **How a bar leaves a position.** In any session that can be reached, let a position be armed, with levels that are
positive and an amount that is not below the smallest quantity, and let the bar make sense. If its four prices leave
the position nowhere, no exit fires. Otherwise that exit fires and is carried out: the bar is accepted, the position is
ended by a fill of all that was held, for the reason and at the price that the bar says, and that price lies between
its low and its high. -/
theorem exit_on_bar (hs : Reachable policy s) (hb : b.isSane = true) (hp : s.account.get? b.asset = some p)
    (harmed : p.trigger = .armed) (hpos : ∀ reason, ∀ level ∈ p.levels.level? reason, 0 < level)
    (hmin : |policy.minimum| ≤ |p.amount|) :
    match p.exitOn? b with
    | none => s.exit? (.bar b) = none ∧ (s.handle policy (.bar b)).1.tally.exits = s.tally.exits
    | some (reason, price) =>
      price ∈ Set.Icc b.low b.high ∧ (s.handle policy (.bar b)).2 = .ok () ∧
      ∃ exit, ExitTrades policy s (.bar b) exit ∧ exit.intent.reason = reason ∧
        exit.fill policy = ⟨b.asset, -p.amount, price, policy.costs.cost (-p.amount) price, some b.time, none⟩ := by
  have hsound : s.account.All Position.Sound := hs.all (Position.stable_sound _)
  have hexit := exit?_bar hb hp (hsound hp).not_flat harmed hpos
  have hexits := exits_handle policy s (.bar b)
  rcases h : s.exit? (.bar b) with - | exit <;> rw [h] at hexit hexits <;> rw [← hexit]
  · exact ⟨rfl, hexits⟩
  · have hamount : s.account.amount b.asset = p.amount := by
      rw [Account.amount, Account.held, hp, Option.getD_some]
    -- the amount is not below the smallest quantity, so that the fill is accepted
    have hcarried : CarriedOut policy s (.bar b) exit := by
      refine ((exit_cases policy hsound h).resolve_right fun hleft => ?_).2
      exact hleft.1.not_ge (hmin.trans_eq (congrArg _ hamount.symm))
    exact ⟨Position.price_of_exitOn? hb hexit.symm, hcarried.accepted, exit,
      exitTrades_of_exit? hs.proper hcarried.accepted h, rfl,
      fill_of_exit?_bar policy hb hp (hsound hp).asset_eq h⟩

/-- Ten shares are owed, with a stop-loss at 110 and a take-profit at 90. A bar from 100 up to 112 and down to 85
crosses both: the stop-loss is taken to come first, and the shares are bought at it. -/
theorem exit_on_bar_both_crossed :
    let policy : Policy Rat := .usual
    let s := (start.handle policy (.fill "SPY" (-10) 100 none none ⟨some 110, some 90⟩)).1
    let b : Bar Rat := ⟨"SPY", ⟨19724, 75600, 0⟩, 100, 112, 85, 95, 0⟩
    ∃ exit, ExitTrades policy s (.bar b) exit ∧ exit.intent.reason = .stopLoss ∧
      exit.fill policy = ⟨"SPY", 10, 110, 0, some b.time, none⟩ := by
  intro policy s b
  let p := s.account.held "SPY"
  have hs : Reachable policy s := Reachable.start.handle _
  have hp : s.account.get? b.asset = some p := by decide +kernel
  have hlevels : p.levels = ⟨some 110, some 90⟩ := by decide +kernel
  have hpos : ∀ reason, ∀ level ∈ p.levels.level? reason, 0 < level := by
    rw [hlevels]
    rintro (- | -) level ⟨⟩ <;> norm_num
  have hexit : p.exitOn? b = some (.stopLoss, 110) := by decide +kernel
  have hleft := exit_on_bar hs (by decide +kernel) hp (by decide +kernel) hpos (by decide +kernel)
  rw [hexit] at hleft
  obtain ⟨-, -, exit, htrades, hreason, hfill⟩ := hleft
  exact ⟨exit, htrades, hreason, hfill.trans (by decide +kernel)⟩

end Session

end Holdings
