import Mathlib
import Holdings.Proofs.Account.Carrying
import Holdings.Proofs.Account.Reconciliation

/-!
# Costs that come later

The cost of a fill can come with the fill, or it can come later as a charge on the position. A fill puts it into the
price per unit and averages that with the basis; a charge is spread over the amount that is held by then. In exact
arithmetic both add it to what was paid for the position, and change nothing else.

* `Position.eq_charged_iff` — a charge is what adds to the outlay of a position and leaves all but its basis;
* `Settlement.settle_withoutCost` — a fill that opens a position or adds to it leaves the position that it leaves
  without its cost, charged with it;
* `Account.cost_charged_later` — on an account the fill without its cost and then the charge do what the fill does, and
  every charge that is accepted lowers what leaving the positions would gain.
-/

namespace Holdings

/-- The same trade without its cost. -/
def Fill.withoutCost (f : Fill Rat) : Fill Rat := { f with cost := 0 }

/-! ## Charges on a position -/

namespace Position

variable {p q : Position Rat} {instrument : Option (Instrument Rat)} {cost off : Rat}

/-- The position after more was paid for it. -/
def charged (p : Position Rat) (off : Rat) : Position Rat :=
  { p with basis := (p.basis * p.amount + off) / p.amount }

/-- What was paid for a position grows by what it is charged. -/
theorem outlay_charged (hp : p.amount ≠ 0) (off : Rat) : (p.charged off).outlay = p.outlay + off := by
  change p.amount * ((p.basis * p.amount + off) / p.amount) = p.amount * p.basis + off
  rw [mul_div_cancel₀ _ hp, mul_comm p.basis]

/-- **A charged position** differs from what it was in its basis alone, and what was paid for it has grown by the
charge. -/
theorem eq_charged_iff (hp : p.amount ≠ 0) :
    q = p.charged off ↔ q = { p with basis := q.basis } ∧ q.outlay = p.outlay + off := by
  constructor
  · rintro rfl
    exact ⟨rfl, outlay_charged hp off⟩
  · rintro ⟨hsame, houtlay⟩
    have hamount : q.amount = p.amount := by rw [hsame]
    have hbasis : q.basis = (p.basis * p.amount + off) / p.amount := by
      rw [eq_div_iff hp, mul_comm, mul_comm p.basis, ← hamount]
      rw [outlay, outlay, ← hamount] at houtlay
      exact houtlay
    rw [hsame, hbasis]
    rfl

/-- What leaving a position would gain shrinks by what it is charged. -/
theorem unrealized_charged (hp : p.amount ≠ 0) (off : Rat) : (p.charged off).unrealized = p.unrealized - off := by
  have hworth : (p.charged off).marketValue = p.marketValue := rfl
  rw [unrealized_eq, unrealized_eq, outlay_charged hp, hworth]
  ring

/-- For a futures contract that stands for more than nothing, a charge is divided by what it stands for. -/
theorem chargeInPrice_future {i : Instrument Rat} (hfuture : i.isFuture = true) (hmultiplier : i.multiplier ≠ 0)
    (cost : Rat) : chargeInPrice (some i) cost = cost / i.multiplier := by
  simp [chargeInPrice, hfuture, hmultiplier]

/-- Otherwise it is taken as it is. -/
theorem chargeInPrice_whole (h : ∀ i ∈ instrument, i.isFuture = true → i.multiplier = 0) (cost : Rat) :
    chargeInPrice instrument cost = cost := by
  rcases instrument with - | i
  · rfl
  · rw [chargeInPrice]
    split
    · next hdivided =>
      simp only [Bool.and_eq_true, Bool.not_eq_true', beq_eq_false_iff_ne] at hdivided
      exact absurd (h i rfl hdivided.1) hdivided.2
    · rfl

/-- A charge of nothing is nothing in the price. -/
theorem chargeInPrice_zero (instrument : Option (Instrument Rat)) : chargeInPrice instrument 0 = 0 := by
  rcases instrument with - | i
  · rfl
  · simp [chargeInPrice]

/-- **The charges that a position takes**: those for which no other asset's instrument is known. -/
theorem charge_eq_ok_iff (hp : p.amount ≠ 0) : p.charge instrument cost = .ok q ↔
    (∀ i ∈ instrument, i.asset = p.asset) ∧ q = p.charged (chargeInPrice instrument cost) := by
  have hheld : p.isFlat = false := by simpa [isFlat] using hp
  rw [charge]
  split
  · next i hforeign =>
    obtain ⟨hi, hother⟩ := Option.filter_eq_some_iff.mp hforeign
    refine iff_of_false (by simp) fun h => ?_
    exact absurd (h.1 i hi) (by simpa using hother)
  · next hnone =>
    have hown : ∀ i ∈ instrument, i.asset = p.asset := fun i hi => by
      simpa using Option.filter_eq_none_iff.mp hnone i hi
    rw [hheld, Bool.or_false]
    split_ifs with hfinite hzero
    · simp at hfinite
    · -- a charge of nothing leaves the position, as its formula says
      have hnothing : p = p.charged (chargeInPrice instrument cost) := by
        obtain rfl : cost = 0 := by simpa using hzero
        rw [chargeInPrice_zero]
        exact (eq_charged_iff hp).mpr ⟨rfl, (add_zero _).symm⟩
      rw [← hnothing, Except.ok.injEq, eq_comm]
      exact (and_iff_right hown).symm
    · rw [Except.ok.injEq, eq_comm]
      exact (and_iff_right hown).symm

end Position

/-! ## The cost of a fill -/

namespace Settlement

variable {s : Settlement Rat} {p : Position Rat} {f : Fill Rat}

/-- What is checked of a fill for a position does not concern its cost. -/
theorem fault?_withoutCost (s : Settlement Rat) (p : Position Rat) (f : Fill Rat) :
    s.fault? p f.withoutCost = s.fault? p f := rfl

/-- **What a fill pays** that opens a position or adds to it: nothing is realised, and its price and its cost go to
what was paid for the position. -/
theorem settle_paid (hs : s.treatment = .intoBasis) (h : s.fillFault? f = none)
    (hkind : (s.settle p f).1.kind = .opened ∨ (s.settle p f).1.kind = .increased) :
    (s.settle p f).1.netProfit = 0 ∧ (s.settle p f).2.outlay = p.outlay + f.quantity * f.price + f.cost := by
  have hnothing : (s.settle p f).1.netProfit = 0 := by
    change s.realizedBy p f - s.expense f = 0
    change kindOf p.amount f.quantity (s.remaining p.amount f.quantity) = .opened ∨
      kindOf p.amount f.quantity (s.remaining p.amount f.quantity) = .increased at hkind
    rcases hkind with hkind | hkind <;> simp only [realizedBy, expense, hs, hkind, sub_self]
  have hresidue : s.residue p f = 0 := by
    rw [residue]
    rcases hkind with hkind | hkind <;> rw [hkind] <;> rfl
  have hvalue := settle_value (p := p) h
  rw [hnothing, hresidue, Fill.netCash] at hvalue
  refine ⟨hnothing, ?_⟩
  rw [Position.outlay, Position.outlay, (settle_position s p f).2.1, (settle_position s p f).2.2.1]
  linarith

/-- A fill that opens a position or adds to it leaves something. -/
theorem left_of_entry (h : s.fillFault? f = none)
    (hkind : (s.settle p f).1.kind = .opened ∨ (s.settle p f).1.kind = .increased) :
    (s.settle p f).2.amount ≠ 0 := by
  rw [(settle_position s p f).2.1]
  rcases hkind with hkind | hkind
  · rcases kindOf_cases h p.amount with ⟨-, -, hleft⟩ | ⟨hother, -⟩ | ⟨hother, -⟩ | ⟨hother, -⟩ | ⟨hother, -⟩
    · have hquantity : (s.settle p f).1.amount = f.quantity := hleft
      rw [hquantity]
      exact (quantity_of_fillFault?_eq_none h).1
    all_goals exact absurd (hkind.symm.trans hother) (by simp)
  · simpa using left_of_increased h hkind

/-- **The cost of a fill that opens a position or adds to it** is a charge on the position that the fill leaves without
it. -/
theorem settle_withoutCost (hs : s.treatment = .intoBasis) (h : s.fillFault? f = none)
    (hkind : (s.settle p f).1.kind = .opened ∨ (s.settle p f).1.kind = .increased) :
    (s.settle p f).2 = (s.settle p f.withoutCost).2.charged f.cost := by
  have hleft : (s.settle p f.withoutCost).2.amount ≠ 0 := left_of_entry (f := f.withoutCost) h hkind
  obtain ⟨-, hpaid⟩ := settle_paid hs h hkind
  obtain ⟨-, hpaid'⟩ := settle_paid (f := f.withoutCost) hs h hkind
  refine (Position.eq_charged_iff hleft).mpr ⟨?_, ?_⟩
  · rw [settle_eq, settle_eq]
    rfl
  · rw [hpaid, hpaid']
    simp [Fill.withoutCost]

/-- Such a charge is accepted where nothing but a share of the same asset is known. -/
theorem charge_withoutCost {instrument : Option (Instrument Rat)} (hs : s.treatment = .intoBasis)
    (h : s.fault? p f = none) (hkind : (s.settle p f).1.kind = .opened ∨ (s.settle p f).1.kind = .increased)
    (hshare : ∀ i ∈ instrument, i.asset = f.asset ∧ i.isFuture = false) :
    (s.settle p f.withoutCost).2.charge instrument f.cost = .ok (s.settle p f).2 := by
  obtain ⟨hasset, hfill⟩ := fault?_eq_none_iff.mp h
  have hleft : (s.settle p f.withoutCost).2.amount ≠ 0 := left_of_entry (f := f.withoutCost) hfill hkind
  refine (Position.charge_eq_ok_iff hleft).mpr ⟨fun i hi => ?_, ?_⟩
  · rw [(settle_position s p f.withoutCost).1, hasset, (hshare i hi).1]
  · have hwhole : ∀ i ∈ instrument, i.isFuture = true → i.multiplier = 0 := fun i hi hfuture =>
      absurd ((hshare i hi).2.symm.trans hfuture) Bool.false_ne_true
    rw [Position.chargeInPrice_whole hwhole, settle_withoutCost hs hfill hkind]

end Settlement

/-! ## Charges on an account -/

namespace Account

variable {t : Terms Rat} {a b : Account Rat} {asset : Asset} {p : Position Rat} {cost : Rat}

/-- **The cost of a fill can come later.** Where costs go into the basis, a fill without levels is refused with its
cost for the reason that it is refused for without it, or does the same; and if it opens a position or adds to it, the
charge of the cost leads from what it leaves without it to what it leaves with it. -/
theorem apply_withoutCost (hs : t.settlement.treatment = .intoBasis) {f : Fill Rat} (hf : f.levels = none)
    (hshare : ∀ i ∈ t.instrument f.asset, i.asset = f.asset ∧ i.isFuture = false) :
    Matched (fun x y => x.1.kind = y.1.kind ∧
        (x.1.kind = .opened ∨ x.1.kind = .increased → y.2.charge t f.asset f.cost = .ok x.2))
      (a.apply t f) (a.apply t f.withoutCost) := by
  have hf' : f.withoutCost.levels = none := hf
  rw [apply_eq t a f, apply_eq t a f.withoutCost, onTicks_of_levels_none t a hf, onTicks_of_levels_none t a hf',
    show f.withoutCost.asset = f.asset from rfl]
  generalize a.held f.asset = p
  rw [Settlement.apply_of_levels_none p hf, Settlement.apply_of_levels_none p hf', Settlement.fault?_withoutCost]
  rcases hfault : t.settlement.fault? p f with - | fault
  · refine .ok ⟨rfl, fun hkind => ?_⟩
    have hfill := Settlement.fillFault?_of_fault? hfault
    have hheld : ∀ {q : Position Rat}, q.amount ≠ 0 → q.isFlat = false := fun h => by simpa [Position.isFlat] using h
    have hleft := hheld (Settlement.left_of_entry hfill hkind)
    have hleft' := hheld (Settlement.left_of_entry (f := f.withoutCost) hfill hkind)
    have hcharge := Settlement.charge_withoutCost hs hfault hkind hshare
    -- neither of the fills realises anything
    have hprofit := (Settlement.settle_paid (f := f.withoutCost) hs hfill hkind).1.trans
      (Settlement.settle_paid hs hfill hkind).1.symm
    simp only [charge, get?_settled, hleft', Bool.false_eq_true, if_false, hcharge, Except.map]
    exact congrArg Except.ok (settled_keep a f.asset hprofit hleft' hleft)
  · exact .error fault

/-- **A charge lowers what leaving the positions would gain**, and changes nothing but the basis of one of them. -/
theorem charge_lowers (hget : a.get? asset = some p) (hp : p.amount ≠ 0) (h : a.charge t asset cost = .ok b) :
    b = a.keep asset (p.charged (Position.chargeInPrice (t.instrument asset) cost)) ∧
      b.unrealized = a.unrealized - Position.chargeInPrice (t.instrument asset) cost := by
  simp only [charge, hget] at h
  obtain ⟨q, hq, rfl⟩ := map_eq_ok_iff.mp h
  obtain ⟨-, rfl⟩ := (Position.charge_eq_ok_iff hp).mp hq
  refine ⟨rfl, ?_⟩
  have hsum : ∀ c : Account Rat, c.unrealized = c.book.sum Position.unrealized := fun c => Quantity.total_rat _
  have hweight : a.book.weight Position.unrealized asset = p.unrealized := by
    rw [Book.weight, show a.book.get? asset = some p from hget, Option.map_some, Option.getD_some]
  rw [hsum, hsum, keep, Book.sum_insert, hweight, Position.unrealized_charged hp]
  ring

/-- **A cost that is charged later is a cost that comes with the fill.** Let costs go into the basis, and let nothing
but a share of the asset itself be known of the asset of a fill without levels. On every account the fill is refused
with its cost for the reason that it is refused for without it, or both are accepted and do the same; and if that opens
a position or adds to it, the charge of the cost is accepted after the fill without it, and leads to the account that
the fill with it leads to.

On every account, too, a charge that is accepted on a position that is held changes nothing but its basis. It lowers
what leaving the position would gain, and so what leaving all of them would gain, by the charge, which for a futures
contract is divided by what the contract stands for, unless that is nothing. -/
theorem cost_charged_later (t : Terms Rat) (a : Account Rat) :
    (t.settlement.treatment = .intoBasis → ∀ f : Fill Rat, f.levels = none →
      (∀ i ∈ t.instrument f.asset, i.asset = f.asset ∧ i.isFuture = false) →
      Matched (fun x y => x.1.kind = y.1.kind ∧
          (x.1.kind = .opened ∨ x.1.kind = .increased → y.2.charge t f.asset f.cost = .ok x.2))
        (a.apply t f) (a.apply t f.withoutCost)) ∧
    ∀ asset p, a.get? asset = some p → p.isFlat = false → ∀ cost b, a.charge t asset cost = .ok b →
      ∃ q off, b = a.keep asset q ∧ q = { p with basis := q.basis } ∧
        (∀ i ∈ t.instrument asset, i.isFuture = true → i.multiplier ≠ 0 → off = cost / i.multiplier) ∧
        ((∀ i ∈ t.instrument asset, i.isFuture = true → i.multiplier = 0) → off = cost) ∧
        q.unrealized = p.unrealized - off ∧ b.unrealized = a.unrealized - off ∧ b.realized = a.realized := by
  refine ⟨fun hs f hf hshare => apply_withoutCost hs hf hshare, fun asset p hget hp cost b h => ?_⟩
  have hamount : p.amount ≠ 0 := by simpa [Position.isFlat] using hp
  obtain ⟨rfl, hlower⟩ := charge_lowers hget hamount h
  refine ⟨_, _, rfl, rfl, fun i hi hfuture hmultiplier => ?_, fun hwhole => Position.chargeInPrice_whole hwhole cost,
    Position.unrealized_charged hamount _, hlower, rfl⟩
  rw [Option.mem_def.mp hi]
  exact Position.chargeInPrice_future hfuture hmultiplier cost

/-- Ten shares are owed at 100, and two contracts for fifty units each are held at 4000. Five more shares are sold at
110 with 3 given back; that can come later, too. A charge of 100 on the contracts takes off 2. -/
theorem cost_charged_later_owed :
    let t : Terms Rat := ⟨.ofMinimum (1 / 10 ^ 9) .intoBasis, .wholeShares, fun asset =>
      some (if asset = "ES" then ⟨"ES", 1 / 4, .future, 50⟩ else .share asset)⟩
    let shares : Position Rat := { Position.flat "SPY" with amount := -10, basis := 100 }
    let contracts : Position Rat := { Position.flat "ES" with amount := 2, basis := 4000, lastPrice := 4010 }
    let a : Account Rat := (empty.keep "SPY" shares).keep "ES" contracts
    let f : Fill Rat := ⟨"SPY", -5, 110, -3, none, none⟩
    (∃ x y, a.apply t f = .ok x ∧ a.apply t f.withoutCost = .ok y ∧ x.1.kind = .increased ∧
      y.2.charge t "SPY" (-3) = .ok x.2) ∧
    ∃ b, a.charge t "ES" 100 = .ok b ∧ b.unrealized = a.unrealized - 2 := by
  intro t shares contracts a f
  obtain ⟨hfill, hcharge⟩ := cost_charged_later t a
  constructor
  · have hshare : ∀ i ∈ t.instrument f.asset, i.asset = f.asset ∧ i.isFuture = false := by
      intro i hi
      obtain rfl := Option.some.inj hi
      decide +kernel
    have hkind : (a.apply t f).toOption.map (fun x => x.1.kind) = some .increased := by decide +kernel
    have hmatched := hfill rfl f rfl hshare
    generalize a.apply t f = atOnce at hkind hmatched ⊢
    generalize a.apply t f.withoutCost = before at hmatched ⊢
    cases hmatched with
    | error fault => cases hkind
    | @ok x y hxy =>
      have hincreased : x.1.kind = .increased := Option.some.inj hkind
      exact ⟨x, y, rfl, rfl, hincreased, hxy.2 (.inr hincreased)⟩
  · have haccepted : (a.charge t "ES" 100).toOption.isSome = true := by decide +kernel
    obtain ⟨b, hb⟩ := Option.isSome_iff_exists.mp haccepted
    rw [toOption_eq_some_iff] at hb
    obtain ⟨q, off, -, -, hfuture, -, -, hlower, -⟩ :=
      hcharge "ES" contracts (by decide +kernel) (by decide +kernel) 100 b hb
    obtain rfl : off = 2 := (hfuture _ rfl rfl (by norm_num)).trans (by norm_num)
    exact ⟨b, hb, hlower⟩

end Account

end Holdings
