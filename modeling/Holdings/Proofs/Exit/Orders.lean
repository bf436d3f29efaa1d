import Mathlib
import Holdings.Proofs.Exit.Crossing
import Holdings.Proofs.Quantity.Magnitude
import Holdings.Proofs.Session.Dust
import Holdings.Proofs.Session.OnePrice

/-!
# Exit orders in place of exit levels

A position can be guarded by its levels, or by resting orders in their place: a stop for the stop-loss and a limit for
the take-profit, each for all that is held. Both are looked at with the same price, the orders with the bar of that
price.

* `Position.exists_mem_exitOrders` and `Position.eq_of_mem_exitOrders` — there is one order for each level that is set,
  and no other;
* `Position.decide_exitOrder` — an order fills exactly if the price crosses its level, whatever is done about gaps and
  limits;
* `Position.exit_orders_agree` — the levels fire exactly if an order fills, and what they ask for is what that order
  trades.
-/

namespace Holdings

variable {α : Type}

namespace OrderKind

/-- The kind of order that stands for a level. -/
def ofExit : ExitReason → α → OrderKind α
  | .stopLoss, level => .stop level
  | .takeProfit, level => .limit level

theorem ofExit_inj {reason reason' : ExitReason} {level level' : α} :
    ofExit reason level = ofExit reason' level' ↔ reason = reason' ∧ level = level' := by
  cases reason <;> cases reason' <;> simp [ofExit]

@[simp] theorem prices_ofExit (reason : ExitReason) (level : α) : (ofExit reason level).prices = [level] := by
  cases reason <;> rfl

end OrderKind

variable [Quantity α]

omit [Quantity α] in
/-- A decision is one to fill. -/
def Decision.isFill : Decision α → Bool
  | .filled _ => true
  | _ => false

/-- A bar fills an order. -/
def Order.fillsOn (rule : FillRule) (b : Bar α) (o : Order α) : Bool :=
  match o.decide rule b with
  | .ok (d, _) => d.isFill
  | .error _ => false

namespace Position

/-- An order of a kind for all that is held. -/
def exitOrder (p : Position α) (id : Nat) (kind : OrderKind α) : Order α where
  id := id
  asset := p.asset
  side := .closing p.amount
  kind := kind
  quantity := Quantity.abs p.amount
  status := .active

variable {p : Position α} {o : Order α} {first : Nat}

/-! ## The orders of a position -/

omit [Quantity α] in
/-- The kinds of exit orders are those that stand for the levels that are set. -/
theorem mem_exitKinds {l : ExitLevels α} {kind : OrderKind α} :
    kind ∈ exitKinds l ↔ ∃ reason, ∃ level ∈ l.level? reason, kind = .ofExit reason level := by
  constructor
  · intro h
    rcases List.mem_append.mp h with h | h
    · obtain ⟨level, hlevel, rfl⟩ := Option.map_eq_some_iff.mp (Option.mem_toList.mp h)
      exact ⟨.stopLoss, level, hlevel, rfl⟩
    · obtain ⟨level, hlevel, rfl⟩ := Option.map_eq_some_iff.mp (Option.mem_toList.mp h)
      exact ⟨.takeProfit, level, hlevel, rfl⟩
  · rintro ⟨- | -, level, hlevel, rfl⟩
    · exact List.mem_append_left _ (Option.mem_toList.mpr (Option.mem_map_of_mem _ hlevel))
    · exact List.mem_append_right _ (Option.mem_toList.mpr (Option.mem_map_of_mem _ hlevel))

omit [Quantity α] in
/-- No two levels have orders of the same kind. -/
theorem nodup_exitKinds (l : ExitLevels α) : (exitKinds l).Nodup := by
  rcases l with ⟨- | sl, - | tp⟩ <;> simp [exitKinds]

/-- The orders of a position that is held are numbered through in the order of their kinds. -/
theorem mem_exitOrders (hp : p.isFlat = false) : o ∈ p.exitOrders first ↔
    ∃ i, ∃ h : i < (exitKinds p.levels).length, p.exitOrder (first + i) (exitKinds p.levels)[i] = o := by
  rw [exitOrders, hp, if_neg Bool.false_ne_true]
  exact List.mem_mapIdx

/-- An exit order stands for a level that is set. -/
theorem eq_of_mem_exitOrders (hp : p.isFlat = false) (h : o ∈ p.exitOrders first) :
    ∃ reason, ∃ level ∈ p.levels.level? reason, o = p.exitOrder o.id (.ofExit reason level) := by
  obtain ⟨i, hi, rfl⟩ := (mem_exitOrders hp).mp h
  obtain ⟨reason, level, hlevel, hkind⟩ := mem_exitKinds.mp (List.getElem_mem hi)
  exact ⟨reason, level, hlevel, by rw [hkind]; rfl⟩

/-- **For each level that is set there is one order.** -/
theorem exists_mem_exitOrders (hp : p.isFlat = false) (first : Nat) {reason : ExitReason} {level : α}
    (h : level ∈ p.levels.level? reason) : ∃! o, o ∈ p.exitOrders first ∧ o.kind = .ofExit reason level := by
  obtain ⟨i, hi, hkind⟩ := List.getElem_of_mem (mem_exitKinds.mpr ⟨reason, level, h, rfl⟩)
  refine ⟨_, ⟨(mem_exitOrders hp).mpr ⟨i, hi, rfl⟩, hkind⟩, ?_⟩
  rintro o ⟨ho, hokind⟩
  obtain ⟨j, hj, rfl⟩ := (mem_exitOrders hp).mp ho
  obtain rfl : j = i := (nodup_exitKinds p.levels).getElem_inj_iff.mp (hokind.trans hkind.symm)
  rfl

/-- **What an exit order trades** is all that is held. -/
theorem signedQuantity_exitOrder [Quantity.LawfulMagnitude α] (hp : p.isFlat = false) (id : Nat) (kind : OrderKind α) :
    (p.exitOrder id kind).signedQuantity = -p.amount := by
  change (Side.closing p.amount).signed (Quantity.abs p.amount) = -p.amount
  rw [Side.closing]
  split_ifs with hlong
  · exact Quantity.LawfulMagnitude.neg_one_mul_abs hlong
  · exact Quantity.LawfulMagnitude.one_mul_abs hp hlong

/-! ## An exit order on the bar of one price -/

variable (p) (asset : Asset) (time : Instant) (price level : α)

theorem closing_amount : Side.closing p.amount = if p.isLong then .sell else .buy := by
  simp only [Side.closing, isLong, decide_eq_true_eq]

/-- The bar of one price reaches the stop in place of a stop-loss if the price crosses it. -/
theorem reachesStop_tick : (Bar.tick asset time price).reachesStop (.closing p.amount) level =
    crosses p.isLong .stopLoss price level := by
  rw [closing_amount]
  cases p.isLong <;> rfl

/-- It reaches the limit in place of a take-profit if the price crosses that. -/
theorem reachesLimit_tick : (Bar.tick asset time price).reachesLimit (.closing p.amount) level =
    crosses p.isLong .takeProfit price level := by
  rw [closing_amount]
  cases p.isLong <;> rfl

variable {p price level}

/-- What the bar of one price decides of an exit order is whether the price crosses its level. -/
theorem isFill_decisionOn_exitOrder [Quantity.LawfulFinite α] (hprice : Quantity.isFinite price = true) (id : Nat)
    (rule : FillRule) (reason : ExitReason) :
    ((p.exitOrder id (.ofExit reason level)).decisionOn rule (.tick p.asset time price)).isFill =
      crosses p.isLong reason price level := by
  have hguard : (p.exitOrder id (.ofExit reason level)).decisionOn rule (.tick p.asset time price) =
      (p.exitOrder id (.ofExit reason level)).decideOpen rule (.tick p.asset time price) :=
    if_pos (by rw [Bar.isVoid_tick p.asset time hprice]; simp [exitOrder, Bar.tick, Order.isOpen])
  rw [hguard]
  cases reason with
  | stopLoss =>
    change (Order.decideStop rule _ level _).isFill = _
    rw [Order.decideStop, ← reachesStop_tick p p.asset time]
    change (if Bar.reachesStop _ (.closing p.amount) _ then _ else _ : Decision α).isFill = _
    split_ifs with hreach
    all_goals simp [Decision.isFill, hreach]
  | takeProfit =>
    change (Order.decideLimit _ level _).isFill = _
    rw [Order.decideLimit, ← reachesLimit_tick p p.asset time]
    change (if Bar.reachesLimit _ (.closing p.amount) _ then _ else _ : Decision α).isFill = _
    split_ifs with hreach
    all_goals simp [Decision.isFill, hreach]

/-! ## Levels and their orders -/

section Exact

variable {p : Position Rat} {level : Rat}

/-- An exit order of a position that is held has no flaw if its level is above zero. -/
theorem check_exitOrder (hp : p.isFlat = false) (hlevel : 0 < level) (id : Nat) (reason : ExitReason) :
    (p.exitOrder id (.ofExit reason level)).check = .ok () := by
  have hamount : p.amount ≠ 0 := by simpa [isFlat] using hp
  refine Order.check_eq_ok_iff.mpr ⟨?_, by simpa [exitOrder] using hlevel⟩
  simpa [exitOrder] using hamount

/-- **An exit order fills on the bar of one price exactly if the price crosses its level.** -/
theorem decide_exitOrder (hp : p.isFlat = false) (hlevel : 0 < level) (id : Nat) (rule : FillRule) (time : Instant)
    (price : Rat) (reason : ExitReason) :
    (∃ d next, (p.exitOrder id (.ofExit reason level)).decide rule (.tick p.asset time price) = .ok (d, next)) ∧
      (p.exitOrder id (.ofExit reason level)).fillsOn rule (.tick p.asset time price) =
        crosses p.isLong reason price level := by
  have hdecide : (p.exitOrder id (.ofExit reason level)).decide rule (.tick p.asset time price) = .ok _ :=
    Order.decide_eq (check_exitOrder hp hlevel id reason) rfl
  refine ⟨⟨_, _, hdecide⟩, ?_⟩
  rw [Order.fillsOn, hdecide]
  exact isFill_decisionOn_exitOrder time (Quantity.isFinite_rat price) id rule reason

/-- With one level alone a position is left exactly if the price crosses it. -/
theorem isSome_trigger?_only (hp : p.isFlat = false) (harmed : p.trigger = .armed) (hlevel : 0 < level)
    (price : Rat) (time : Option Instant) (reason : ExitReason) :
    ({ p with levels := .only reason level }.trigger? price time).isSome = crosses p.isLong reason price level := by
  have hset : ∀ reason', ∀ level' ∈ (ExitLevels.only reason level).level? reason',
      reason' = reason ∧ level' = level := by
    rintro (- | -) level' h <;> cases reason <;> cases h <;> exact ⟨rfl, rfl⟩
  have hpos : ∀ reason', ∀ level' ∈ (ExitLevels.only reason level).level? reason', 0 < level' := fun reason' level' h =>
    (hset reason' level' h).2 ▸ hlevel
  rcases hcross : crosses p.isLong reason price level with - | -
  · rw [trigger?_of_not_crossing (p := { p with levels := .only reason level }) hpos]
    · rfl
    · rintro ⟨-, reason', level', h, hcross'⟩
      obtain ⟨rfl, rfl⟩ := hset reason' level' h
      exact Bool.false_ne_true (hcross.symm.trans hcross')
  · obtain ⟨reason', level', hexits⟩ := Crossing.exits (p := { p with levels := .only reason level })
      ⟨Quantity.isFinite_rat price, reason, level, ExitLevels.level?_only reason level, hcross⟩
    rw [trigger?_of_exits (p := { p with levels := .only reason level }) hp harmed hpos hexits]
    rfl

/-- What is known of an exit order on the bar of one price. -/
theorem fillsOn_of_mem_exitOrders (hp : p.isFlat = false)
    (hpos : ∀ reason, ∀ level ∈ p.levels.level? reason, 0 < level) (rule : FillRule) {first : Nat} (time : Instant)
    (price : Rat) {o : Order Rat} (h : o ∈ p.exitOrders first) :
    ∃ reason, ∃ level ∈ p.levels.level? reason, o.kind = .ofExit reason level ∧
      (∃ d next, o.decide rule (.tick p.asset time price) = .ok (d, next)) ∧
      o.fillsOn rule (.tick p.asset time price) = crosses p.isLong reason price level ∧
      o.signedQuantity = -p.amount := by
  obtain ⟨reason, level, hlevel, heq⟩ := eq_of_mem_exitOrders hp h
  obtain ⟨hdecided, hfills⟩ := decide_exitOrder hp (hpos reason level hlevel) o.id rule time price reason
  have hquantity := signedQuantity_exitOrder hp o.id (.ofExit reason level)
  rw [← heq] at hdecided hfills hquantity
  exact ⟨reason, level, hlevel, by rw [heq]; rfl, hdecided, hfills, hquantity⟩

/-- **Exit orders and exit levels agree.** Let a position be held and armed, with levels that are above zero. Its exit
orders are one for each level that is set, a stop for the stop-loss and a limit for the take-profit. On the bar of one
price, and whatever is done about gaps and limits, each of them is decided without fault, and fills exactly if the
position with that level alone would be left at that price. The position itself is left at that price exactly if one of
the orders fills: at the stop-loss if the stop fills and else at the take-profit, and by the quantity that the order
trades. -/
theorem exit_orders_agree (hp : p.isFlat = false) (harmed : p.trigger = .armed)
    (hpos : ∀ reason, ∀ level ∈ p.levels.level? reason, 0 < level) (rule : FillRule) (first : Nat) (time : Instant)
    (price : Rat) (seen : Option Instant) :
    (∀ reason, ∀ level ∈ p.levels.level? reason,
      ∃! o, o ∈ p.exitOrders first ∧ o.kind = .ofExit reason level) ∧
    (∀ o ∈ p.exitOrders first, ∃ reason, ∃ level ∈ p.levels.level? reason, o.kind = .ofExit reason level ∧
      (∃ d next, o.decide rule (.tick p.asset time price) = .ok (d, next)) ∧
      o.fillsOn rule (.tick p.asset time price) =
        ({ p with levels := .only reason level }.trigger? price seen).isSome) ∧
    match p.trigger? price seen with
    | none => ∀ o ∈ p.exitOrders first, o.fillsOn rule (.tick p.asset time price) = false
    | some (intent, _) =>
      (∃ o ∈ p.exitOrders first, o.fillsOn rule (.tick p.asset time price) = true ∧
        o.kind = .ofExit intent.reason intent.level ∧ intent.quantity = o.signedQuantity) ∧
      ∀ o ∈ p.exitOrders first, o.fillsOn rule (.tick p.asset time price) = true →
        ∀ stop, o.kind = .stop stop → intent.reason = .stopLoss := by
  refine ⟨fun reason level hlevel => exists_mem_exitOrders hp first hlevel, fun o ho => ?_, ?_⟩
  · obtain ⟨reason, level, hlevel, hkind, hdecided, hfills, -⟩ := fillsOn_of_mem_exitOrders hp hpos rule time price ho
    have halone := isSome_trigger?_only hp harmed (hpos reason level hlevel) price seen reason
    exact ⟨reason, level, hlevel, hkind, hdecided, hfills.trans halone.symm⟩
  · by_cases hcross : p.Crossing price
    · obtain ⟨reason, level, hexits⟩ := hcross.exits
      rw [trigger?_of_exits hp harmed hpos hexits]
      constructor
      · -- the order of the level that is crossed
        obtain ⟨o, ⟨ho, hkind⟩, -⟩ := exists_mem_exitOrders hp first hexits.set
        obtain ⟨reason', level', -, hkind', -, hfills, hquantity⟩ :=
          fillsOn_of_mem_exitOrders hp hpos rule time price ho
        obtain ⟨rfl, rfl⟩ := OrderKind.ofExit_inj.mp (hkind'.symm.trans hkind)
        exact ⟨o, ho, hfills.trans hexits.crossed, hkind, hquantity.symm⟩
      · intro o ho hfill stop hstop
        obtain ⟨reason', level', hlevel, hkind, -, hfills, -⟩ := fillsOn_of_mem_exitOrders hp hpos rule time price ho
        obtain ⟨rfl, rfl⟩ := OrderKind.ofExit_inj.mp
          ((hkind.symm.trans hstop).trans (show OrderKind.stop stop = .ofExit .stopLoss stop from rfl))
        -- where the stop fills the stop-loss is crossed, and then no take-profit is taken
        cases reason with
        | stopLoss => rfl
        | takeProfit =>
          have hnot := hexits.loss_first rfl level' hlevel
          exact absurd ((hnot.symm.trans hfills.symm).trans hfill) Bool.false_ne_true
    · rw [trigger?_of_not_crossing hpos hcross]
      intro o ho
      obtain ⟨reason, level, hlevel, -, -, hfills, -⟩ := fillsOn_of_mem_exitOrders hp hpos rule time price ho
      rw [hfills, ← Bool.not_eq_true]
      exact fun htrue => hcross ⟨Quantity.isFinite_rat price, reason, level, hlevel, htrue⟩

/-- Two and a half shares are owed, with a stop-loss at 110 and a take-profit at 90, and the price is 110: the stop
fills and buys them back, as the stop-loss asks. -/
theorem exit_orders_agree_owed :
    let p : Position Rat :=
      { flat "SPY" with amount := -5 / 2, basis := 100, levels := ⟨some 110, some 90⟩, trigger := .armed }
    ∃ intent q, p.trigger? 110 none = some (intent, q) ∧ intent.reason = .stopLoss ∧
      ∃ o ∈ p.exitOrders 7, o.fillsOn ⟨.atWorst, .sameBar⟩ (.tick "SPY" ⟨19724, 75600, 0⟩ 110) = true ∧
        o.kind = .stop 110 ∧ intent.quantity = o.signedQuantity := by
  intro p
  have hpos : ∀ reason, ∀ level ∈ p.levels.level? reason, 0 < level := by
    rintro (- | -) level ⟨⟩ <;> norm_num
  have hfires : p.trigger? 110 none = some (⟨"SPY", 5 / 2, .stopLoss, 110, 110, none⟩, p.leftAt .stopLoss 110) := by
    decide +kernel
  obtain ⟨-, -, hagree⟩ := exit_orders_agree (p := p) (by decide +kernel) rfl hpos ⟨.atWorst, .sameBar⟩ 7
    ⟨19724, 75600, 0⟩ 110 none
  rw [hfires] at hagree
  exact ⟨_, _, hfires, rfl, hagree.1⟩

end Exact

end Position

end Holdings
