import Mathlib
import Holdings.Position.Settlement
import Holdings.Proofs.Position

/-!
# What an accepted fill does

* `Settlement.apply_eq_ok` — a fill that is accepted has no flaw, its outcome is the one of `settle`, and the
  position after it is the settled one, at most with new levels;
* `Settlement.trials` — fills that are tried one after the other, accepted and refused ones alike;
* `Settlement.settle_value` — in exact arithmetic the profit that a fill realises, the cash that it brings and
  what was paid for the amount held account for each other, up to a remainder that was dropped.
-/

namespace Holdings

variable {α : Type} [Quantity α]

namespace Settlement

variable {s : Settlement α} {p q : Position α} {f : Fill α} {o : Outcome α}

/-! ## The settled position -/

/-- What the last price and its time are after a fill. -/
def seen (f : Fill α) (price : α) (time : Option Instant) : α × Option Instant :=
  match f.time with
  | some now => if time.all fun last => last.before now then (f.price, some now) else (price, time)
  | none => (price, time)

omit [Quantity α] in
/-- A price that was seen is not newer than itself. -/
theorem seen_seen (f : Fill α) (price : α) (time : Option Instant) :
    seen f (seen f price time).1 (seen f price time).2 = seen f price time := by
  have hirrefl : ∀ i : Instant, i.before i = false := fun i => by simp [Instant.before]
  rcases hf : f.time with - | now
  · simp only [seen, hf]
  · simp only [seen, hf]
    by_cases hnew : (time.all fun last => last.before now) = true
    · simp only [hnew, if_true, Option.all_some, hirrefl, Bool.false_eq_true, if_false]
    · simp only [hnew, Bool.false_eq_true, if_false]

omit [Quantity α] in
/-- The last price after a fill is the one before it or the one of the fill. -/
theorem seen_price (f : Fill α) (price : α) (time : Option Instant) :
    (seen f price time).1 = price ∨ (seen f price time).1 = f.price := by
  rw [seen]
  split
  · split
    · exact .inr rfl
    · exact .inl rfl
  · exact .inl rfl

omit [Quantity α] in
theorem observe_eq (p : Position α) (f : Fill α) : observe p f =
    { p with lastPrice := (seen f p.lastPrice p.lastTime).1,
             lastTime := (seen f p.lastPrice p.lastTime).2 } := by
  rw [observe, seen]
  rcases f.time with - | now
  · rfl
  · have hnewer : isNewer p now = p.lastTime.all fun last => last.before now := by
      rw [isNewer]
      cases p.lastTime <;> rfl
    dsimp only
    rw [hnewer]
    split <;> rfl

/-- Whether levels do not survive a fill: it leaves nothing, or turns the side. -/
def unguards (s : Settlement α) (p : Position α) (f : Fill α) : Bool :=
  s.remaining p.amount f.quantity == 0 ||
    kindOf p.amount f.quantity (s.remaining p.amount f.quantity) = .closed ||
    kindOf p.amount f.quantity (s.remaining p.amount f.quantity) = .flipped

/-- **The settled position**, field by field. -/
theorem settle_eq (s : Settlement α) (p : Position α) (f : Fill α) : (s.settle p f).2 =
    { asset := p.asset
      amount := s.remaining p.amount f.quantity
      basis := s.basisAfter p f
      lastPrice := (seen f p.lastPrice p.lastTime).1
      lastTime := (seen f p.lastPrice p.lastTime).2
      levels := if s.unguards p f then .unset else p.levels
      trigger := if s.unguards p f then .disarmed else p.trigger } := by
  have hsettled : (s.settle p f).2 = observe (if s.unguards p f then
      { p with amount := s.remaining p.amount f.quantity, basis := s.basisAfter p f
               levels := .unset, trigger := .disarmed }
    else { p with amount := s.remaining p.amount f.quantity, basis := s.basisAfter p f }) f := rfl
  rw [hsettled]
  cases s.unguards p f <;> exact observe_eq _ f

/-- The settled position: the asset stays, amount and basis are those of the outcome, and the levels are kept
with their trigger or taken off with it. -/
theorem settle_position (s : Settlement α) (p : Position α) (f : Fill α) :
    (s.settle p f).2.asset = p.asset ∧
      (s.settle p f).2.amount = (s.settle p f).1.amount ∧
      (s.settle p f).2.basis = (s.settle p f).1.basis ∧
      ((s.settle p f).2.lastPrice = p.lastPrice ∨ (s.settle p f).2.lastPrice = f.price) ∧
      ((s.settle p f).2.levels = p.levels ∧ (s.settle p f).2.trigger = p.trigger ∨
        (s.settle p f).2.levels = .unset ∧ (s.settle p f).2.trigger = .disarmed) := by
  rw [settle_eq]
  refine ⟨rfl, rfl, rfl, seen_price f p.lastPrice p.lastTime, ?_⟩
  cases s.unguards p f
  · exact .inl ⟨rfl, rfl⟩
  · exact .inr ⟨rfl, rfl⟩

/-- The levels of the settled position: taken off where the fill leaves nothing or turns the side, and kept
otherwise. -/
theorem settle_levels (s : Settlement α) (p : Position α) (f : Fill α) :
    (s.settle p f).2.levels =
      if (s.settle p f).1.amount == 0 || (s.settle p f).1.kind = .closed ||
          (s.settle p f).1.kind = .flipped then .unset
      else p.levels :=
  congrArg Position.levels (settle_eq s p f)

/-! ## Accepted and refused fills -/

/-- A fill without levels is settled unless it has a fault. -/
theorem apply_of_levels_none (p : Position α) (h : f.levels = none) :
    s.apply p f = match s.fault? p f with
      | some fault => .error fault
      | none => .ok (s.settle p f) := by
  rw [apply]
  rcases s.fault? p f with - | fault
  · rw [h]
  · rfl

/-- An accepted fill without levels has no fault and is settled. -/
theorem apply_eq_ok_iff_of_levels_none (h : f.levels = none) :
    s.apply p f = .ok (o, q) ↔ s.fault? p f = none ∧ s.settle p f = (o, q) := by
  rw [apply_of_levels_none p h]
  rcases s.fault? p f with - | fault <;> simp

/-- **An accepted fill**: it has no flaw, its outcome is the settled one, and the position after it is the
settled one, with the levels of the fill where it carries any. -/
theorem apply_eq_ok (h : s.apply p f = .ok (o, q)) :
    s.fault? p f = none ∧ o = (s.settle p f).1 ∧
      (q = (s.settle p f).2 ∨ ∃ l, (s.settle p f).2.configure l = .ok q) := by
  rw [apply] at h
  split at h
  · cases h
  · next hnone =>
    refine ⟨hnone, ?_⟩
    dsimp only at h
    split at h
    · obtain ⟨rfl, rfl⟩ := Prod.mk.inj (Except.ok.inj h)
      exact ⟨rfl, .inl rfl⟩
    · next levels hlevels =>
      split at h
      · obtain ⟨rfl, rfl⟩ := Prod.mk.inj (Except.ok.inj h)
        exact ⟨rfl, .inl rfl⟩
      · obtain ⟨guarded, hc, hpair⟩ := map_eq_ok_iff.mp h
        obtain ⟨rfl, rfl⟩ := Prod.mk.inj hpair
        exact ⟨rfl, .inr ⟨levels, hc⟩⟩

/-- **An accepted fill that leaves something**: the settled position is kept as it is, or with the levels that the
fill carries. -/
theorem apply_eq_ok_of_left (h : s.apply p f = .ok (o, q)) (ho : (o.amount == 0) = false) :
    f.levels = none ∧ q = (s.settle p f).2 ∨
      ∃ l, f.levels = some l ∧ (s.settle p f).2.configure l = .ok q := by
  have hleft : (s.settle p f).2.isFlat = false := by
    rw [Position.isFlat, (settle_position s p f).2.1, ← (apply_eq_ok h).2.1, ho]
  rw [apply] at h
  split at h
  · cases h
  · dsimp only at h
    split at h
    · next hnone => exact .inl ⟨hnone, (Prod.mk.inj (Except.ok.inj h)).2.symm⟩
    · next levels hlevels =>
      rw [hleft, if_neg Bool.false_ne_true] at h
      obtain ⟨guarded, hc, hpair⟩ := map_eq_ok_iff.mp h
      obtain ⟨-, rfl⟩ := Prod.mk.inj hpair
      exact .inr ⟨levels, hlevels, hc⟩

/-- A fill has no fault for a position in its asset, if it has none of its own. -/
theorem fault?_eq_none_iff : s.fault? p f = none ↔ p.asset = f.asset ∧ s.fillFault? f = none := by
  rw [fault?]
  split <;> rename_i hasset
  · simp [hasset]
  · rw [Option.map_eq_none_iff]
    exact ⟨fun h => ⟨not_not.mp hasset, h⟩, And.right⟩

/-- A fill without a fault for a position has none of its own. -/
theorem fillFault?_of_fault? (h : s.fault? p f = none) : s.fillFault? f = none :=
  (fault?_eq_none_iff.mp h).2

/-- A fill without fault has a finite quantity. -/
theorem isFinite_of_fillFault? (h : s.fillFault? f = none) : Quantity.isFinite f.quantity = true := by
  rw [fillFault?] at h
  split at h
  · cases h
  · next hfinite => simpa using hfinite

/-- A finite amount with its negative leaves nothing. -/
theorem remaining_all [Quantity.LawfulZero α] [Quantity.LawfulNeg α] {held : α}
    (h : Quantity.isFinite (-held) = true) : (s.remaining held (-held) == 0) = true := by
  rw [remaining]
  split
  · exact Quantity.LawfulZero.zero_beq
  · exact Quantity.LawfulNeg.add_neg_beq h

/-- A fill of all that is held, which leaves nothing, ends the position. -/
theorem kindOf_all [Quantity.LawfulNeg α] {held left : α} (hheld : (held == 0) = false) (hleft : (left == 0) = true) :
    kindOf held (-held) left = .closed := by
  rw [kindOf, hheld, Quantity.LawfulNeg.not_sameSide_neg, hleft]
  rfl

/-- The position after an accepted fill has the asset it had, and the amount and the basis of the outcome. -/
theorem apply_position (h : s.apply p f = .ok (o, q)) :
    q.asset = p.asset ∧ q.amount = o.amount ∧ q.basis = o.basis := by
  obtain ⟨-, rfl, hq⟩ := apply_eq_ok h
  obtain ⟨hasset, hamount, hbasis, -, -⟩ := settle_position s p f
  rcases hq with rfl | ⟨l, hl⟩
  · exact ⟨hasset, hamount, hbasis⟩
  · obtain ⟨-, rfl⟩ := Position.configure_eq_ok hl
    exact ⟨hasset, hamount, hbasis⟩

end Settlement

/-! ## Fills one after the other -/

/-- A fill that was tried. -/
structure Trial (α : Type) where
  /-- the position that it met -/
  held : Position α
  /-- the fill -/
  fill : Fill α
  /-- what it did, or why it was refused -/
  answer : Except (Fault α) (Outcome α)
  /-- the position after it -/
  left : Position α

namespace Settlement

/-- Tries a fill on a position, which stays as it is if the fill is refused. -/
def trial (s : Settlement α) (p : Position α) (f : Fill α) : Trial α :=
  match s.apply p f with
  | .error fault => ⟨p, f, .error fault, p⟩
  | .ok (o, q) => ⟨p, f, .ok o, q⟩

@[simp] theorem trial_held (s : Settlement α) (p : Position α) (f : Fill α) : (s.trial p f).held = p := by
  rw [trial]
  split <;> rfl

/-- Tries fills one after the other. -/
def trials (s : Settlement α) : Position α → List (Fill α) → List (Trial α)
  | _, [] => []
  | p, f :: rest => s.trial p f :: s.trials (s.trial p f).left rest

/-- The position after fills that were tried one after the other. -/
def after (s : Settlement α) (p : Position α) (fills : List (Fill α)) : Position α :=
  fills.foldl (fun q f => (s.trial q f).left) p

theorem after_concat (s : Settlement α) (p : Position α) (fills : List (Fill α)) (f : Fill α) :
    s.after p (fills ++ [f]) = (s.trial (s.after p fills) f).left := by
  simp only [after, List.foldl_append, List.foldl_cons, List.foldl_nil]

/-- The last fill meets the position after the others. -/
theorem trials_concat (s : Settlement α) (fills : List (Fill α)) (f : Fill α) : ∀ p : Position α,
    s.trials p (fills ++ [f]) = s.trials p fills ++ [s.trial (s.after p fills) f] := by
  induction fills with
  | nil => intro p; rfl
  | cons g rest ih =>
    intro p
    rw [List.cons_append, trials, ih, trials, List.cons_append]
    rfl

end Settlement

/-! ## The value of a fill -/

namespace Settlement

variable {s : Settlement Rat} {p : Position Rat} {f : Fill Rat}

/-- **A fill without flaw** has a quantity that is not zero and not below the smallest one, and a price. -/
theorem fillFault?_eq_none_iff :
    s.fillFault? f = none ↔ f.quantity ≠ 0 ∧ s.minimum ≤ |f.quantity| ∧ 0 ≤ f.price := by
  simp only [fillFault?, Quantity.isFinite_rat, Bool.not_true, Bool.false_eq_true, if_false,
    Quantity.abs_rat, Quantity.isNoPrice_rat, beq_iff_eq, decide_eq_true_eq]
  split_ifs with hzero hdust hprice
  · simp [hzero]
  · simp [not_le.mpr hdust]
  · simp [not_le.mpr hprice]
  · simp [hzero, not_lt.mp hdust, not_lt.mp hprice]

theorem quantity_of_fillFault?_eq_none (h : s.fillFault? f = none) :
    f.quantity ≠ 0 ∧ s.minimum ≤ |f.quantity| :=
  ⟨(fillFault?_eq_none_iff.mp h).1, (fillFault?_eq_none_iff.mp h).2.1⟩

/-- A fill without fault has a price. -/
theorem price_of_fault?_eq_none (h : s.fault? p f = none) : 0 ≤ f.price :=
  (fillFault?_eq_none_iff.mp (fillFault?_of_fault? h)).2.2

/-- Cost and price are what the price per unit and the expense come to. -/
theorem unitPrice_mul (s : Settlement Rat) (f : Fill Rat) (hq : f.quantity ≠ 0) :
    f.quantity * s.unitPrice f + s.expense f = f.quantity * f.price + f.cost := by
  rcases hs : s.treatment with - | -
  · have hmul : f.quantity * (f.cost / f.quantity) = f.cost := mul_div_cancel₀ _ hq
    simp only [unitPrice, expense, hs]
    rw [mul_add, hmul, Quantity.zero_literal_rat, add_zero]
  · simp only [unitPrice, expense, hs]

/-- A remainder that does not count as nothing is the whole sum. -/
theorem remaining_of_le {held quantity : Rat} (h : s.minimum ≤ |held + quantity|) :
    s.remaining held quantity = held + quantity := by
  simp only [remaining, Quantity.abs_rat, if_neg (not_lt.mpr h)]

theorem remaining_of_ne_zero {held quantity : Rat} (h : s.remaining held quantity ≠ 0) :
    s.remaining held quantity = held + quantity := by
  rw [remaining] at h ⊢
  split
  · next hlt => exact absurd (if_pos hlt) h
  · rfl

/-- **What a fill does, by its kind.** In each case the amount before it, the amount after it and the quantity
lie as the kind says; only where a fill ends a position may the amount after it differ from the sum. -/
theorem kindOf_cases (h : s.fillFault? f = none) (held : Rat) :
    let left := s.remaining held f.quantity
    (kindOf held f.quantity left = .opened ∧ held = 0 ∧ left = f.quantity) ∨
    (kindOf held f.quantity left = .increased ∧ held ≠ 0 ∧ left = held + f.quantity ∧ left ≠ 0) ∨
    (kindOf held f.quantity left = .reduced ∧ held ≠ 0 ∧ left = held + f.quantity ∧ left ≠ 0) ∨
    (kindOf held f.quantity left = .closed ∧ held ≠ 0 ∧ left = 0) ∨
    (kindOf held f.quantity left = .flipped ∧ held ≠ 0 ∧ left = held + f.quantity ∧ left ≠ 0) := by
  obtain ⟨hq, hmin⟩ := quantity_of_fillFault?_eq_none h
  intro left
  rw [kindOf]
  split_ifs with h0 hside hleft hsame
  · have hheld : held = 0 := by simpa using h0
    refine .inl ⟨rfl, hheld, ?_⟩
    have hsum : s.minimum ≤ |held + f.quantity| := by rwa [hheld, zero_add]
    exact (remaining_of_le hsum).trans (by rw [hheld, zero_add])
  · have hle := Quantity.abs_le_abs_add_of_sameSide hside
    have hsum : left = held + f.quantity := remaining_of_le (hmin.trans hle)
    refine .inr (.inl ⟨rfl, by simpa using h0, hsum, ?_⟩)
    rw [hsum]
    exact abs_pos.mp ((abs_pos.mpr hq).trans_le hle)
  · exact .inr (.inr (.inr (.inl ⟨rfl, by simpa using h0, by simpa using hleft⟩)))
  · have hne : left ≠ 0 := Quantity.ne_zero_of_sameSide hsame
    exact .inr (.inr (.inl ⟨rfl, by simpa using h0, remaining_of_ne_zero hne, hne⟩))
  · have hne : left ≠ 0 := by simpa using hleft
    exact .inr (.inr (.inr (.inr ⟨rfl, by simpa using h0, remaining_of_ne_zero hne, hne⟩)))

/-- What adds to a position lies on its side. -/
theorem sameSide_of_increased {held quantity left : Rat} (h : kindOf held quantity left = .increased) :
    Quantity.sameSide held quantity = true := by
  rw [kindOf] at h
  split_ifs at h with hzero hside
  exact hside

/-- What takes from a position lies on the other side and leaves it on its own. -/
theorem sides_of_reduced {held quantity left : Rat} (h : kindOf held quantity left = .reduced) :
    Quantity.sameSide left held = true ∧ Quantity.sameSide held quantity = false := by
  rw [kindOf] at h
  split_ifs at h with hzero hside hleft hsame
  exact ⟨hsame, by simpa using hside⟩

/-- What turns a position does not leave it on its side. -/
theorem not_sameSide_of_flipped {held quantity left : Rat} (h : kindOf held quantity left = .flipped) :
    Quantity.sameSide left held = false := by
  rw [kindOf] at h
  split_ifs at h with hzero hside hleft hsame
  exact Bool.eq_false_of_not_eq_true hsame

/-- A fill that ends a position leaves nothing. -/
theorem left_of_closed (h : (s.settle p f).1.kind = .closed) : (s.settle p f).1.amount = 0 := by
  change kindOf p.amount f.quantity (s.remaining p.amount f.quantity) = .closed at h
  rw [kindOf] at h
  split_ifs at h with h0 hside hleft
  have hzero : s.remaining p.amount f.quantity = 0 := by simpa using hleft
  exact hzero

/-- A fill that adds to a position or takes from it leaves it on its side. -/
theorem isLong_settle (h : s.fillFault? f = none)
    (hkind : (s.settle p f).1.kind = .increased ∨ (s.settle p f).1.kind = .reduced) :
    (s.settle p f).2.isLong = p.isLong := by
  obtain ⟨-, hmin⟩ := quantity_of_fillFault?_eq_none h
  rw [Position.isLong, Position.isLong, (settle_position s p f).2.1]
  change kindOf p.amount f.quantity (s.remaining p.amount f.quantity) = .increased ∨
    kindOf p.amount f.quantity (s.remaining p.amount f.quantity) = .reduced at hkind
  change decide (0 < s.remaining p.amount f.quantity) = _
  rw [kindOf] at hkind
  split_ifs at hkind with h0 hside hleft hsame
  · simp at hkind
  · rw [remaining_of_le (hmin.trans (Quantity.abs_le_abs_add_of_sameSide hside))]
    exact decide_eq_decide.mpr (Quantity.pos_iff_of_sameSide (Quantity.sameSide_add hside))
  · simp at hkind
  · exact decide_eq_decide.mpr (Quantity.pos_iff_of_sameSide hsame)
  · simp at hkind

/-- A fill that adds to a position leaves something. -/
theorem left_of_increased (h : s.fillFault? f = none) (hkind : (s.settle p f).1.kind = .increased) :
    ((s.settle p f).1.amount == 0) = false := by
  have hleft : (s.settle p f).1.amount = s.remaining p.amount f.quantity := rfl
  change kindOf p.amount f.quantity (s.remaining p.amount f.quantity) = .increased at hkind
  rcases kindOf_cases h p.amount with ⟨hother, -⟩ | ⟨-, -, -, hne⟩ | ⟨hother, -⟩ | ⟨hother, -⟩ |
      ⟨hother, -⟩
  · simp [hkind] at hother
  · simpa [hleft] using hne
  · simp [hkind] at hother
  · simp [hkind] at hother
  · simp [hkind] at hother

/-- **What a fill leaves of a position that is held.** It adds to it and keeps the levels, or takes from it and keeps
the levels and the basis, or turns it and takes the levels off. -/
theorem settle_held_cases (h : s.fillFault? f = none) (hp : p.isFlat = false)
    (hleft : ((s.settle p f).1.amount == 0) = false) :
    ((s.settle p f).1.kind = .increased ∧ (s.settle p f).2.levels = p.levels) ∨
    ((s.settle p f).1.kind = .reduced ∧ (s.settle p f).2.levels = p.levels ∧
      (s.settle p f).2.basis = p.basis) ∨
    ((s.settle p f).1.kind = .flipped ∧ (s.settle p f).2.levels = .unset) := by
  have hlevels := settle_levels s p f
  have hbasis : (s.settle p f).2.basis = s.basisAfter p f := (settle_position s p f).2.2.1
  rw [hleft] at hlevels
  rcases kindOf_cases h p.amount with ⟨-, h0, -⟩ | ⟨hkind, -⟩ | ⟨hkind, -⟩ | ⟨-, -, hzero⟩ | ⟨hkind, -⟩
  · simp [Position.isFlat, h0] at hp
  · have hkind : (s.settle p f).1.kind = .increased := hkind
    exact .inl ⟨hkind, by simpa [hkind] using hlevels⟩
  · have hkept : (s.settle p f).1.kind = .reduced := hkind
    exact .inr (.inl ⟨hkept, by simpa [hkept] using hlevels, by simp only [hbasis, basisAfter, hkind]⟩)
  · have hnone : (s.settle p f).1.amount = 0 := hzero
    simp [hnone] at hleft
  · have hkind : (s.settle p f).1.kind = .flipped := hkind
    exact .inr (.inr ⟨hkind, by simpa [hkind] using hlevels⟩)

/-- The profit and the basis of an outcome, by the kind of the fill. -/
theorem settle_outcome (s : Settlement Rat) (p : Position Rat) (f : Fill Rat) :
    let left := s.remaining p.amount f.quantity
    (s.settle p f).1 = ⟨kindOf p.amount f.quantity left, s.realizedBy p f, s.expense f, left,
      s.basisAfter p f⟩ := rfl

/-- What ending a position brings for the part of the fill that is not the amount held. It is nothing unless a
remainder was dropped. -/
def residue (s : Settlement Rat) (p : Position Rat) (f : Fill Rat) : Rat :=
  if (s.settle p f).1.kind = .closed then (p.amount + f.quantity) * s.unitPrice f else 0

/-- **The value of a fill**: the profit it realises, less what was paid for the amount held after it, is the cash
that it brings less what was paid for the amount held before it, and the residue of an end. -/
theorem settle_value (h : s.fillFault? f = none) :
    (s.settle p f).1.netProfit - (s.settle p f).1.amount * (s.settle p f).1.basis =
      f.netCash - p.amount * p.basis + s.residue p f := by
  obtain ⟨hq, -⟩ := quantity_of_fillFault?_eq_none h
  have hunit := unitPrice_mul s f hq
  rw [residue, settle_outcome]
  simp only [Outcome.netProfit, Fill.netCash, realizedBy, basisAfter]
  rcases kindOf_cases h p.amount with ⟨hkind, h0, hleft⟩ | ⟨hkind, -, hleft, hne⟩ |
      ⟨hkind, -, hleft, -⟩ | ⟨hkind, -, hleft⟩ | ⟨hkind, -, hleft, -⟩ <;>
    simp only [hkind, reduceCtorEq, if_false, if_true, Quantity.zero_literal_rat]
  · -- opened: the fill is the position
    rw [hleft, h0]
    linear_combination -hunit
  · -- increased: the average times the new amount is the sum of what was paid
    rw [mul_div_cancel₀ _ hne]
    linear_combination -hunit
  · -- reduced: the basis stays
    rw [hleft]
    linear_combination -hunit
  · -- closed: the residue is what the fill has beside the amount held
    rw [hleft]
    linear_combination -hunit
  · -- flipped: the rest is held at the price per unit
    rw [hleft]
    linear_combination -hunit

end Settlement

end Holdings
