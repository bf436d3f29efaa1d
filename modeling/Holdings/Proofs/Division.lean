import Mathlib
import Holdings.Proofs.Account.Operation

/-!
# No division by zero

A formula of the library is a function of the arithmetic that it is computed in. With another division in place of the
usual one (`Quantity.dividing`) it can come to something else only if it divides where the two differ. So what a
computation divides by can be said from outside: `Quantity.DividesBy` names a list of divisors, none of them zero, and
the computation comes to the same with every division that has the usual quotients by these, whatever its quotients by
zero and by all other numbers are. No list does so for a quotient by zero (`Quantity.exists_dividesBy_iff`). What is not
seen from outside is a quotient that has no part in the result, because it is dropped or undone.

* `Lot.divisors`, `Instrument.divisors`, `Settlement.divisors`, `Position.splitDivisors`, `Position.chargeDivisors` —
  what the formulas divide by. A divisor is listed under the guard that keeps it from zero, which may stand far from the
  division. One has no guard of its own, the amount after a fill that adds to a position: a sum that is too small counts
  as nothing, but this one is no smaller than the fill (`Settlement.left_of_increased`);
* `Account.apply_dividesBy` and its neighbours — what the operations of an account divide by;
* `Account.run_dividing` — a run of operations comes to the same with every division that differs from the usual one
  in its quotients by zero alone;
* `Account.divides_by_nonzero` — all of this together.
-/

namespace Holdings

namespace Quantity

/-- The exact quantities with another division. -/
@[reducible] def dividing (div : Rat → Rat → Rat) : Quantity Rat :=
  { (inferInstance : Quantity Rat) with div := div }

/-- A division has the usual quotients by some divisors. -/
def UsualBy (divisors : List Rat) (div : Rat → Rat → Rat) : Prop := ∀ d ∈ divisors, ∀ x, div x d = x / d

/-- **What a computation divides by.** The computation is given as a function of the arithmetic. -/
structure DividesBy {β : Type} (divisors : List Rat) (computation : Quantity Rat → β) : Prop where
  /-- none of the divisors is zero -/
  ne_zero : ∀ d ∈ divisors, d ≠ 0
  /-- no other quotient has a part in the result: it is the usual one with every division that is usual by these -/
  only : ∀ div, UsualBy divisors div → computation (dividing div) = computation inferInstance

variable {β γ : Type} {computation : Quantity Rat → β} {divisors : List Rat}

/-- A division that is usual but by zero is usual by what a computation divides by. -/
theorem DividesBy.usualBy {div : Rat → Rat → Rat} (h : DividesBy divisors computation)
    (hdiv : ∀ d ≠ 0, ∀ x, div x d = x / d) : UsualBy divisors div :=
  fun d hd => hdiv d (h.ne_zero d hd)

/-- **A quotient** divides by its divisor, unless that is zero: then there is nothing that it could divide by. -/
theorem exists_dividesBy_iff {x d : Rat} : (∃ divisors, DividesBy divisors fun q => q.div x d) ↔ d ≠ 0 := by
  constructor
  · rintro ⟨divisors, h⟩ rfl
    -- the quotients by zero can be moved
    have hmoved := h.only (fun y e => if e = 0 then x / 0 + 1 else y / e)
      (h.usualBy fun e he y => if_neg he)
    have hone : x / 0 + 1 = x / 0 := (if_pos rfl).symm.trans hmoved
    linarith
  · intro hd
    exact ⟨[d], by simpa using hd, fun div hdiv => hdiv d (List.mem_singleton_self d) x⟩

/-- A computation that comes to the same with every division needs none. -/
theorem dividesBy_nil (h : ∀ div, computation (dividing div) = computation inferInstance) :
    DividesBy [] computation :=
  ⟨fun _ hd => absurd hd List.not_mem_nil, fun div _ => h div⟩

/-- A quotient that is taken under a guard, which keeps the divisor from zero. -/
theorem dividesBy_ite {guard : Prop} [Decidable guard] {d : Rat} (hne : guard → d ≠ 0) (x : Rat) (result : Rat → β)
    (otherwise : β) (h : ∀ div, computation (dividing div) = if guard then result (div x d) else otherwise) :
    DividesBy (if guard then [d] else []) computation := by
  have husual : computation inferInstance = if guard then result (x / d) else otherwise := h (· / ·)
  by_cases hguard : guard
  · simp only [if_pos hguard] at h husual ⊢
    refine ⟨by simpa using hne hguard, fun div hdiv => ?_⟩
    rw [h, husual, hdiv d (List.mem_singleton_self d) x]
  · simp only [if_neg hguard] at h husual ⊢
    exact dividesBy_nil fun div => (h div).trans husual.symm

/-- A computation that divides only in a part of it divides by what the part divides by. -/
theorem DividesBy.of_part {part : Quantity Rat → γ} (hpart : DividesBy divisors part)
    (h : ∀ div, part (dividing div) = part inferInstance → computation (dividing div) = computation inferInstance) :
    DividesBy divisors computation :=
  ⟨hpart.ne_zero, fun div hdiv => h div (hpart.only div hdiv)⟩

/-- It may be one of many parts which of them it is. -/
theorem DividesBy.of_parts {ι : Type} [Nonempty ι] {part : ι → Quantity Rat → γ}
    (hpart : ∀ i, DividesBy divisors (part i))
    (h : ∀ div, (∀ i, part i (dividing div) = part i inferInstance) →
      computation (dividing div) = computation inferInstance) : DividesBy divisors computation :=
  ⟨(hpart (Classical.arbitrary ι)).ne_zero, fun div hdiv => h div fun i => (hpart i).only div hdiv⟩

end Quantity

open Quantity

variable {div : Rat → Rat → Rat}

/-! ## Lots and ticks -/

namespace Lot

/-- What rounding onto lots divides by: a precision above zero. -/
def divisors : Lot Rat → List Rat
  | .wholeShares => []
  | .fractional precision => if 0 < precision then [precision] else []

theorem round_dividesBy (lot : Lot Rat) (amount : Rat) :
    DividesBy lot.divisors fun q => @round Rat q lot amount := by
  cases lot with
  | wholeShares => exact dividesBy_nil fun _ => rfl
  | fractional precision =>
    exact dividesBy_ite (fun hstep => hstep.ne') amount (fun steps => wholeSteps steps * precision) amount fun _ => rfl

end Lot

namespace Instrument

/-- What rounding onto ticks divides by: a tick above zero. -/
def divisors (i : Instrument Rat) : List Rat := if ¬i.tick ≤ 0 then [i.tick] else []

theorem roundPrice_dividesBy (i : Instrument Rat) (rule : TickRule) (price : Rat) :
    DividesBy i.divisors fun q => @roundPrice Rat q i rule price :=
  dividesBy_ite (fun htick => (not_le.mp htick).ne') price (fun ticks => wholeTicks rule (settleNear ticks) * i.tick)
    price fun _ => (ite_not ..).symm

end Instrument

namespace Terms

theorem roundLevel_dividesBy (i : Instrument Rat) (rule : TickRule) :
    DividesBy i.divisors fun q => @roundLevel Rat q i rule :=
  .of_parts (i.roundPrice_dividesBy rule) fun div hprice => funext fun price => by
    unfold roundLevel
    rw [hprice]
    rfl

/-- What moving levels onto the ticks of an asset divides by. -/
def levelDivisors (t : Terms Rat) (asset : Asset) : List Rat :=
  match t.instrument asset with
  | none => []
  | some i => i.divisors

theorem roundLevels_dividesBy (t : Terms Rat) (asset : Asset) (long : Bool) :
    DividesBy (t.levelDivisors asset) fun q => @roundLevels Rat q t asset long := by
  rw [levelDivisors]
  rcases hi : t.instrument asset with - | i
  · refine dividesBy_nil fun div => funext fun l => ?_
    simp only [roundLevels, hi]
  · have hlevel := roundLevel_dividesBy i
    refine ⟨(hlevel .nearest).ne_zero, fun div hdiv => funext fun l => ?_⟩
    have hdown := (hlevel .down).only div hdiv
    have hup := (hlevel .up).only div hdiv
    simp only [roundLevels, hi, hdown, hup]

end Terms

/-! ## Fills -/

namespace Settlement

variable {s : Settlement Rat} {p : Position Rat} {f : Fill Rat}

/-- What settling a fill divides by: its cost is divided by its quantity, which is listed also where the cost is
expensed, and an average by the amount after it. -/
def settleDivisors (s : Settlement Rat) (p : Position Rat) (f : Fill Rat) : List Rat :=
  let left := s.remaining p.amount f.quantity
  f.quantity :: if kindOf p.amount f.quantity left = .increased then [left] else []

/-- What a fill divides by. One that does not pass the checks is not settled. -/
def divisors (s : Settlement Rat) (p : Position Rat) (f : Fill Rat) : List Rat :=
  match s.fault? p f with
  | some _ => []
  | none => s.settleDivisors p f

theorem settleDivisors_ne_zero (h : s.fillFault? f = none) : ∀ d ∈ s.settleDivisors p f, d ≠ 0 := by
  refine List.forall_mem_cons.mpr ⟨(quantity_of_fillFault?_eq_none h).1, ?_⟩
  split_ifs with hkind
  · -- what adds to a position leaves no less than itself
    have hleft : (s.remaining p.amount f.quantity == 0) = false := left_of_increased h hkind
    simpa using hleft
  · exact fun _ hd => absurd hd List.not_mem_nil

theorem unitPrice_dividing (h : UsualBy (s.settleDivisors p f) div) :
    @unitPrice Rat (dividing div) s f = s.unitPrice f := by
  unfold unitPrice
  cases s.treatment with
  | intoBasis => exact congrArg (f.price + ·) (h _ List.mem_cons_self f.cost)
  | expensed => rfl

theorem basisAfter_dividing (h : UsualBy (s.settleDivisors p f) div) :
    @basisAfter Rat (dividing div) s p f = s.basisAfter p f := by
  have hkinds : @kindOf Rat (dividing div) p.amount f.quantity (@remaining Rat (dividing div) s p.amount f.quantity) =
      kindOf p.amount f.quantity (s.remaining p.amount f.quantity) := rfl
  unfold basisAfter
  rw [unitPrice_dividing h]
  dsimp only
  rw [hkinds]
  cases hkind : kindOf p.amount f.quantity (s.remaining p.amount f.quantity) with
  | increased => exact h _ (List.mem_cons_of_mem _ (by rw [if_pos hkind]; exact List.mem_singleton_self _)) _
  | _ => rfl

theorem settle_dividesBy (h : s.fillFault? f = none) (p : Position Rat) :
    DividesBy (s.settleDivisors p f) fun q => @settle Rat q s p f := by
  refine ⟨settleDivisors_ne_zero h, fun div hdiv => ?_⟩
  unfold settle realizedBy
  rw [basisAfter_dividing hdiv, unitPrice_dividing hdiv]
  rfl

/-- **What a fill divides by**, with the levels that it carries as they are. -/
theorem apply_dividesBy (s : Settlement Rat) (p : Position Rat) (f : Fill Rat) :
    DividesBy (s.divisors p f) fun q => @apply Rat q s p f := by
  rw [divisors]
  rcases hfault : s.fault? p f with - | fault
  · refine (settle_dividesBy (fillFault?_of_fault? hfault) p).of_part fun div hsettle => ?_
    unfold apply
    rw [hsettle]
    rfl
  · refine dividesBy_nil fun div => ?_
    have hfault' : @fault? Rat (dividing div) s p f = some fault := hfault
    simp only [apply, hfault, hfault']

end Settlement

/-! ## Splits and charges -/

namespace Position

/-- What a split divides by: the amount by the ratio, what comes of it by the precision of the lots, and cents by their
number. -/
def splitDivisors (ratio : Rat) (lot : Lot Rat) : List Rat :=
  if Quantity.isNotPositive ratio then [] else ratio :: 100 :: lot.divisors

theorem toCent_dividing (h : ∀ x, div x 100 = x / 100) (x : Rat) : @toCent Rat (dividing div) x = toCent x := by
  calc @toCent Rat (dividing div) x
      = div (Quantity.round (x * 100)) 100 := by
        rw [← hundred_literal_rat]
        rfl
    _ = Quantity.round (x * 100) / 100 := h _
    _ = toCent x := by rw [toCent, hundred_literal_rat]

theorem splitHeld_dividesBy {ratio : Rat} (hratio : 0 < ratio) (p : Position Rat) (lot : Lot Rat) :
    DividesBy (ratio :: 100 :: lot.divisors) fun q => @splitHeld Rat q p ratio lot := by
  have hlot := lot.round_dividesBy (p.amount / ratio)
  refine ⟨List.forall_mem_cons.mpr ⟨hratio.ne', List.forall_mem_cons.mpr ⟨by norm_num, hlot.ne_zero⟩⟩,
    fun div hdiv => ?_⟩
  obtain ⟨hquotient, hrest⟩ := List.forall_mem_cons.mp hdiv
  obtain ⟨hcents, hsteps⟩ := List.forall_mem_cons.mp hrest
  have hshares : @splitShares Rat (dividing div) p.amount ratio lot = splitShares p.amount ratio lot := by
    change (⟨@Lot.round Rat (dividing div) lot (div p.amount ratio),
      div p.amount ratio - @Lot.round Rat (dividing div) lot (div p.amount ratio)⟩ : SplitShares Rat) = _
    rw [hquotient, hlot.only div hsteps]
    rfl
  unfold splitHeld
  simp only [toCent_dividing hcents, hshares]
  rfl

/-- **What a split divides by.** -/
theorem split_dividesBy (p : Position Rat) (asset : Asset) (ratio : Rat) (lot : Lot Rat) :
    DividesBy (splitDivisors ratio lot) fun q => @split Rat q p asset ratio lot := by
  rw [splitDivisors]
  split_ifs with hratio
  · refine dividesBy_nil fun div => ?_
    have hratio' : @Quantity.isNotPositive Rat (dividing div) ratio = true := hratio
    simp only [split, hratio, hratio', if_true]
  · refine (splitHeld_dividesBy (by simpa using hratio) p lot).of_part fun div hheld => ?_
    unfold split
    rw [hheld]
    rfl

/-- What a charge is divided by to be in units of the price: a multiplier that is not zero. -/
def priceDivisors : Option (Instrument Rat) → List Rat
  | none => []
  | some i => if i.isFuture && !(i.multiplier == 0) then [i.multiplier] else []

theorem chargeInPrice_dividesBy (instrument : Option (Instrument Rat)) (cost : Rat) :
    DividesBy (priceDivisors instrument) fun q => @chargeInPrice Rat q instrument cost := by
  cases instrument with
  | none => exact dividesBy_nil fun _ => rfl
  | some i => exact dividesBy_ite (fun hguard => by simp_all) cost id cost fun _ => rfl

/-- What a charge divides by: the amount that it is spread over, if there is one, and before that the multiplier. -/
def chargeDivisors (p : Position Rat) (instrument : Option (Instrument Rat)) : List Rat :=
  if p.isFlat then [] else p.amount :: priceDivisors instrument

/-- **What a charge divides by.** -/
theorem charge_dividesBy (p : Position Rat) (instrument : Option (Instrument Rat)) (cost : Rat) :
    DividesBy (p.chargeDivisors instrument) fun q => @charge Rat q p instrument cost := by
  rw [chargeDivisors]
  split_ifs with hflat
  · refine dividesBy_nil fun div => ?_
    have hflat' : @isFlat Rat (dividing div) p = true := hflat
    simp only [charge, hflat, hflat', Bool.or_true, if_true]
    rfl
  · have hprice := chargeInPrice_dividesBy instrument cost
    refine ⟨List.forall_mem_cons.mpr ⟨by simpa [isFlat] using hflat, hprice.ne_zero⟩, fun div hdiv => ?_⟩
    obtain ⟨hamount, hmultiplier⟩ := List.forall_mem_cons.mp hdiv
    unfold charge
    rw [hprice.only div hmultiplier]
    split
    · rfl
    · change (if !Quantity.isFinite cost then _ else if cost == 0 || p.isFlat then _ else
        Except.ok { p with basis := div (p.basis * p.amount + chargeInPrice instrument cost) p.amount }) = _
      rw [hamount]

end Position

/-! ## Operations -/

namespace Account

theorem onTicks_dividesBy (t : Terms Rat) (a : Account Rat) (f : Fill Rat) :
    DividesBy (t.levelDivisors f.asset) fun q => @onTicks Rat q t a f :=
  .of_parts (t.roundLevels_dividesBy f.asset) fun div hlevels => by
    unfold onTicks
    simp only [hlevels]

/-- What a fill divides by: the levels that it carries by the tick, whatever becomes of it, and then what settling it
divides by. -/
def fillDivisors (t : Terms Rat) (a : Account Rat) (f : Fill Rat) : List Rat :=
  t.levelDivisors f.asset ++ t.settlement.divisors (a.held f.asset) f

theorem apply_dividesBy (t : Terms Rat) (a : Account Rat) (f : Fill Rat) :
    DividesBy (a.fillDivisors t f) fun q => @apply Rat q t a f := by
  have hticks := a.onTicks_dividesBy t f
  have hsettle := t.settlement.apply_dividesBy (a.held f.asset) (a.onTicks t f)
  refine ⟨List.forall_mem_append.mpr ⟨hticks.ne_zero, hsettle.ne_zero⟩, fun div hdiv => ?_⟩
  obtain ⟨htick, hfill⟩ := List.forall_mem_append.mp hdiv
  have hheld : @held Rat (dividing div) a f.asset = a.held f.asset := rfl
  unfold apply
  rw [hheld, hticks.only div htick, hsettle.only div hfill]
  rfl

theorem setLevels_dividesBy (t : Terms Rat) (a : Account Rat) (asset : Asset) (l : ExitLevels Rat) :
    DividesBy (t.levelDivisors asset) fun q => @setLevels Rat q t a asset l :=
  .of_parts (t.roundLevels_dividesBy asset) fun div hlevels => by
    unfold setLevels
    simp only [hlevels]
    rfl

theorem split_dividesBy (t : Terms Rat) (a : Account Rat) (asset : Asset) (ratio : Rat) :
    DividesBy (Position.splitDivisors ratio t.lot) fun q => @split Rat q t a asset ratio := by
  refine ((a.held asset).split_dividesBy asset ratio t.lot).of_part fun div hsplit => ?_
  unfold split
  rcases hp : a.get? asset with - | p
  · rfl
  · rw [held, hp] at hsplit
    exact congrArg (Except.map _) hsplit

theorem stockDividend?_dividesBy (t : Terms Rat) (a : Account Rat) (asset paymentAsset : Asset) (ratio : Rat) :
    DividesBy t.lot.divisors fun q => @stockDividend? Rat q t a asset paymentAsset ratio :=
  .of_parts t.lot.round_dividesBy fun div hround => by
    unfold stockDividend? Position.stockDividend
    simp only [hround]

/-- What a charge on an asset divides by. -/
def chargeDivisors (t : Terms Rat) (a : Account Rat) (asset : Asset) : List Rat :=
  (a.held asset).chargeDivisors (t.instrument asset)

theorem charge_dividesBy (t : Terms Rat) (a : Account Rat) (asset : Asset) (cost : Rat) :
    DividesBy (a.chargeDivisors t asset) fun q => @charge Rat q t a asset cost := by
  refine ((a.held asset).charge_dividesBy (t.instrument asset) cost).of_part fun div hspread => ?_
  unfold charge
  rcases hp : a.get? asset with - | p
  · rfl
  · rw [held, hp] at hspread
    exact congrArg (Except.map (a.keep asset)) hspread

theorem exitOrdersOf_dividing (ps : List (Position Rat)) :
    ∀ first, @exitOrdersOf Rat (dividing div) first ps = exitOrdersOf first ps := by
  induction ps with
  | nil => intro first; rfl
  | cons p rest ih =>
    intro first
    exact congrArg (p.exitOrders first ++ ·) (ih _)

theorem rebuild_dividing (records : List (Record Rat)) :
    ∀ seen, @Snapshot.rebuild Rat (dividing div) seen records = Snapshot.rebuild seen records := by
  induction records with
  | nil => intro seen; rfl
  | cons r rest ih =>
    intro seen
    unfold Snapshot.rebuild
    rw [ih]
    rfl

/-- Reading a snapshot needs no division. -/
theorem ofSnapshot_dividing (s : Snapshot Rat) : @ofSnapshot Rat (dividing div) s = ofSnapshot s := by
  unfold ofSnapshot Snapshot.toPositions
  rw [rebuild_dividing]

/-- **An operation comes to the same** with every division that is usual but by zero. -/
theorem perform?_dividing (hdiv : ∀ d ≠ 0, ∀ x, div x d = x / d) (t : Terms Rat) (a : Account Rat)
    (op : Operation Rat) : @perform? Rat (dividing div) t a op = a.perform? t op := by
  cases op with
  | fill f =>
    have h := a.apply_dividesBy t f
    exact congrArg (fun r => r.toOption.map Prod.snd) (h.only div (h.usualBy hdiv))
  | levels asset l =>
    have h := a.setLevels_dividesBy t asset l
    exact congrArg Except.toOption (h.only div (h.usualBy hdiv))
  | split asset ratio =>
    have h := a.split_dividesBy t asset ratio
    exact congrArg (fun r => r.toOption.map Prod.snd) (h.only div (h.usualBy hdiv))
  | charge asset cost =>
    have h := a.charge_dividesBy t asset cost
    exact congrArg Except.toOption (h.only div (h.usualBy hdiv))
  | restore s => exact congrArg Except.toOption (ofSnapshot_dividing s)
  | _ => rfl

/-- **So does a run of operations**, which is one of them after the other. -/
theorem run_dividing (hdiv : ∀ d ≠ 0, ∀ x, div x d = x / d) (t : Terms Rat) (a : Account Rat)
    (ops : List (Operation Rat)) : @run Rat (dividing div) t a ops = a.run t ops := by
  have hstep : @perform Rat (dividing div) t = perform t :=
    funext₂ fun b op => congrArg (Option.getD · b) (perform?_dividing hdiv t b op)
  unfold run
  rw [hstep]

/-- **No operation divides by zero.** Whatever an account is kept by and whatever is held, a fill divides by the tick of
its asset, and if it passes the checks, by its quantity, and by the amount after it where that is the weight of an
average; new levels divide by the tick; a split by its ratio, by the precision of the lots and by the number of cents; a
dividend paid in shares by the precision; and a charge by the amount that it is spread over and by the multiplier of a
futures contract. None of these is zero where it is divided by, and no other quotient has a part in what comes out. In
what comes out of a mark, of a look at the levels, or of what is owed, written down or restored, no quotient has a part
at all. So a run of operations leads to the same account whatever a quotient by zero is. -/
theorem divides_by_nonzero (t : Terms Rat) (a : Account Rat) :
    (∀ f, DividesBy (a.fillDivisors t f) fun q => @apply Rat q t a f) ∧
    (∀ asset l, DividesBy (t.levelDivisors asset) fun q => @setLevels Rat q t a asset l) ∧
    (∀ asset ratio, DividesBy (Position.splitDivisors ratio t.lot) fun q => @split Rat q t a asset ratio) ∧
    (∀ asset paymentAsset ratio, DividesBy t.lot.divisors fun q =>
      @stockDividend? Rat q t a asset paymentAsset ratio) ∧
    (∀ asset cost, DividesBy (a.chargeDivisors t asset) fun q => @charge Rat q t a asset cost) ∧
    (∀ asset price time, DividesBy [] fun q => @mark Rat q a asset price time) ∧
    (∀ asset price time, DividesBy [] fun q => @trigger? Rat q a asset price time) ∧
    (∀ priceOf time, DividesBy [] fun q => @triggerAll Rat q a priceOf time) ∧
    (∀ first, DividesBy [] fun q => @exitOrders Rat q a first) ∧
    (∀ asset perShare, DividesBy [] fun q => @dividend? Rat q a asset perShare) ∧
    (DividesBy [] fun q => (@snapshot Rat q a, @marketValue Rat q a, @unrealized Rat q a)) ∧
    (∀ s, DividesBy [] fun q => @ofSnapshot Rat q s) ∧
    ∀ div, (∀ d ≠ 0, ∀ x, div x d = x / d) → ∀ ops, @run Rat (dividing div) t a ops = a.run t ops :=
  ⟨a.apply_dividesBy t, a.setLevels_dividesBy t, a.split_dividesBy t, a.stockDividend?_dividesBy t,
    a.charge_dividesBy t, fun _ _ _ => dividesBy_nil fun _ => rfl, fun _ _ _ => dividesBy_nil fun _ => rfl,
    fun _ _ => dividesBy_nil fun _ => rfl, fun first => dividesBy_nil fun _ => exitOrdersOf_dividing a.positions first,
    fun _ _ => dividesBy_nil fun _ => rfl, dividesBy_nil fun _ => rfl,
    fun s => dividesBy_nil fun _ => ofSnapshot_dividing s, fun _ hdiv => run_dividing hdiv t a⟩

/-- A quotient by zero may be one. A contract whose tick and multiplier are zero is bought, a split leaves five
ten-thousandths of it, which is far below the smallest quantity, and what is bought then is averaged with these; the
charge at the end is spread over what is held. The amount and the basis are what they are with the usual division. -/
theorem divides_by_nonzero_dust :
    let div : Rat → Rat → Rat := fun x d => if d = 0 then 1 else x / d
    let t : Terms Rat := ⟨.ofMinimum 1 .intoBasis, .fractional (1 / 10000), fun _ => some ⟨"ES", 0, .future, 0⟩⟩
    let ops : List (Operation Rat) := [.fill ⟨"ES", 1, 100, 0, none, some ⟨some 90, none⟩⟩, .split "ES" 2000,
      .fill ⟨"ES", 1, 100, 2, none, none⟩, .charge "ES" 5]
    div 5 0 ≠ 5 / 0 ∧ (∀ d ≠ 0, ∀ x, div x d = x / d) ∧
      @run Rat (dividing div) t .empty ops = Account.empty.run t ops ∧
      ((Account.empty.run t ops).get? "ES").map (fun p => (p.amount, p.basis)) = some (2001 / 2000, 414000 / 2001) := by
  intro div t ops
  have hdiv : ∀ d ≠ 0, ∀ x, div x d = x / d := fun d hd x => if_neg hd
  obtain ⟨-, -, -, -, -, -, -, -, -, -, -, -, hrun⟩ := divides_by_nonzero t .empty
  exact ⟨by decide +kernel, hdiv, hrun div hdiv ops, by decide +kernel⟩

end Account

end Holdings
