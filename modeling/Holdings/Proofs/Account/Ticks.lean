import Mathlib
import Holdings.Proofs.Account.Operation
import Holdings.Proofs.Exit.Crossing
import Holdings.Proofs.Instrument

/-!
# Levels on the ticks

Levels that are set are first moved onto the ticks of the asset, away from the entry; then levels of zero are dropped,
and what is left is checked and put on. A level that is too low to come up to a tick is moved to zero and dropped, so
that the position is without the protection that was asked for, and nothing says so.

* `Terms.Places` — where a level lies that was asked for: on the ticks, less than one away, and not closer to the entry;
* `Account.lost_iff_tooLow` — of the levels asked for, those are lost that are too low, and the others are placed; the
  position is armed exactly if one of them is.
-/

namespace Holdings

namespace ExitLevels

variable {α : Type}

/-- Levels that are set are levels of some reason. -/
theorem isEmpty_eq_false_iff {l : ExitLevels α} :
    l.isEmpty = false ↔ ∃ reason, (l.level? reason).isSome = true := by
  rcases l with ⟨- | sl, - | tp⟩
  · refine iff_of_false (by simp [isEmpty]) ?_
    rintro ⟨reason, h⟩
    cases reason <;> cases h
  · exact iff_of_true rfl ⟨.takeProfit, rfl⟩
  · exact iff_of_true rfl ⟨.stopLoss, rfl⟩
  · exact iff_of_true rfl ⟨.stopLoss, rfl⟩

theorem level?_normalized [Quantity α] (l : ExitLevels α) (reason : ExitReason) :
    l.normalized.level? reason = (l.level? reason).bind ofSentinel := by
  cases reason <;> rfl

end ExitLevels

/-- Which way is away from the entry: down for a stop-loss below it and a take-profit below it, else up. -/
def ExitReason.away (long : Bool) : ExitReason → TickRule
  | .stopLoss => if long then .down else .up
  | .takeProfit => if long then .up else .down

namespace Terms

variable {α : Type} [Quantity α]

/-- How a level of a reason is moved. -/
def place (t : Terms α) (asset : Asset) (long : Bool) (reason : ExitReason) : α → α :=
  (t.instrument asset).elim id fun i => roundLevel i (reason.away long)

/-- Levels are moved one by one. -/
theorem level?_roundLevels (t : Terms α) (asset : Asset) (long : Bool) (l : ExitLevels α) (reason : ExitReason) :
    (t.roundLevels asset long l).level? reason = (l.level? reason).map (t.place asset long reason) := by
  rw [roundLevels, place]
  rcases t.instrument asset with - | i
  · exact (Option.map_id_apply).symm
  · cases long <;> cases reason <;> rfl

end Terms

namespace Terms

variable {t : Terms Rat} {asset : Asset} {long : Bool} {reason : ExitReason} {price : Rat}

/-- **A level that is too low** to come up to a tick of its asset. -/
def TooLow (t : Terms Rat) (asset : Asset) (long : Bool) (reason : ExitReason) (price : Rat) : Prop :=
  ∃ i ∈ t.instrument asset, i.TooLow (reason.away long) price

/-- **Where a level lies that was asked for** at a price. -/
structure Places (t : Terms Rat) (asset : Asset) (long : Bool) (reason : ExitReason) (price level : Rat) : Prop where
  /-- it is a price above zero -/
  pos : 0 < level
  /-- where nothing is known of the ticks it is the one that was asked for -/
  as_asked : t.instrument asset = none → level = price
  /-- it is a whole number of ticks -/
  on_ticks : ∀ i ∈ t.instrument asset, ∃ n : ℕ, level = n * i.tick
  /-- it is less than a tick away -/
  near : ∀ i ∈ t.instrument asset, |level - price| < i.tick
  /-- it is not closer to the entry, except for what counts as on a tick already -/
  not_closer : ∀ i ∈ t.instrument asset, Position.crosses long reason level price = true ∨
    |level - price| < Instrument.tolerance * i.tick

/-- Rounded away from the entry a level stays near, and does not come closer to the entry, except for what counts as
on a tick already. -/
theorem roundPrice_away {i : Instrument Rat} (htick : 0 < i.tick) (long : Bool) (reason : ExitReason) (price : Rat) :
    |i.roundPrice (reason.away long) price - price| < i.tick ∧
      (Position.crosses long reason (i.roundPrice (reason.away long) price) price = true ∨
        |i.roundPrice (reason.away long) price - price| < Instrument.tolerance * i.tick) := by
  have hdown := Instrument.roundPrice_down_near htick price
  have hup := Instrument.roundPrice_up_near htick price
  cases long <;> cases reason <;>
    simpa only [ExitReason.away, Position.crosses, if_true, if_false, Bool.false_eq_true, decide_eq_true_eq]

/-- Where nothing is known of the ticks a level stays. -/
theorem place_of_none (hi : t.instrument asset = none) : t.place asset long reason price = price := by
  rw [place, hi]
  rfl

/-- On ticks that are known a price above zero is rounded away from the entry. -/
theorem place_of_some {i : Instrument Rat} (hi : t.instrument asset = some i) (hprice : 0 < price) :
    t.place asset long reason price = i.roundPrice (reason.away long) price := by
  rw [place, hi]
  exact if_pos (by simpa using hprice)

/-- **Where a level is moved**: to zero exactly if it is too low, and else to a place for the one asked for. -/
theorem place_spec (hticks : ∀ i ∈ t.instrument asset, 0 < i.tick) (long : Bool) (reason : ExitReason)
    (hprice : 0 < price) :
    (t.place asset long reason price = 0 ↔ t.TooLow asset long reason price) ∧
      (t.place asset long reason price ≠ 0 →
        t.Places asset long reason price (t.place asset long reason price)) := by
  rcases hi : t.instrument asset with - | i
  · rw [place_of_none hi, TooLow, hi]
    refine ⟨iff_of_false hprice.ne' (by simp), fun _ => ⟨hprice, fun _ => rfl, ?_, ?_, ?_⟩⟩ <;>
      simp [hi]
  · have htick : 0 < i.tick := hticks i hi
    -- no other instrument is known of the asset
    have hknown : ∀ {P : Instrument Rat → Prop}, P i → ∀ j ∈ t.instrument asset, P j := by
      rintro P hP j hj
      obtain rfl := Option.mem_unique hi hj
      exact hP
    obtain ⟨n, hround, hzero⟩ := Instrument.exists_ticks_of_pos htick hprice (reason.away long)
    obtain ⟨hnear, hcloser⟩ := roundPrice_away htick long reason price
    rw [place_of_some hi hprice]
    constructor
    · rw [hround, mul_eq_zero, or_iff_left htick.ne', Nat.cast_eq_zero, hzero, TooLow, hi]
      simp
    · intro hne
      have hnonneg : 0 ≤ i.roundPrice (reason.away long) price := by
        rw [hround]
        positivity
      exact ⟨hnonneg.lt_of_ne' hne, fun hnone => absurd (hi.symm.trans hnone) (by simp), hknown ⟨n, hround⟩,
        hknown hnear, hknown hcloser⟩

/-- **What becomes of a level that was asked for**, after those of zero are dropped. -/
theorem level?_of_asked (hticks : ∀ i ∈ t.instrument asset, 0 < i.tick) (long : Bool) {l : ExitLevels Rat}
    (hprice : 0 < price) (hl : price ∈ l.level? reason) :
    ((t.roundLevels asset long l).normalized.level? reason = none ↔ t.TooLow asset long reason price) ∧
      ∀ level ∈ (t.roundLevels asset long l).normalized.level? reason, t.Places asset long reason price level := by
  have hlevel : (t.roundLevels asset long l).normalized.level? reason =
      ExitLevels.ofSentinel (t.place asset long reason price) := by
    rw [ExitLevels.level?_normalized, level?_roundLevels, Option.mem_def.mp hl]
    rfl
  obtain ⟨hzero, hplaces⟩ := place_spec hticks long reason hprice
  rw [hlevel]
  constructor
  · rw [ExitLevels.ofSentinel_eq_none_iff, beq_iff_eq, hzero]
  · intro level hlevel
    obtain ⟨rfl, hne⟩ := ExitLevels.mem_ofSentinel.mp hlevel
    exact hplaces hne

/-- A level that was not asked for is not set. -/
theorem level?_of_not_asked {l : ExitLevels Rat} (hl : l.level? reason = none) :
    (t.roundLevels asset long l).normalized.level? reason = none := by
  rw [ExitLevels.level?_normalized, level?_roundLevels, hl]
  rfl

end Terms

namespace Position

/-- A position that is held is armed by the levels of any reason. -/
theorem armed_withLevels_iff {α : Type} [Quantity α] {p : Position α} (hp : p.isFlat = false) (l : ExitLevels α) :
    (p.withLevels l).trigger = .armed ↔ ∃ reason, (l.level? reason).isSome = true := by
  rw [← ExitLevels.isEmpty_eq_false_iff, withLevels, hp, Bool.or_false]
  rcases l.isEmpty with - | - <;> simp

end Position

namespace Account

variable {t : Terms Rat} {a b : Account Rat} {asset : Asset} {p : Position Rat} {l : ExitLevels Rat}

/-- **The levels that are lost are those that are too low.** Whatever is held in an asset with ticks above zero: where
levels above zero are asked for and accepted, the position changes in its levels and its trigger alone. A level that
was not asked for is not set. One that was asked for is not set if it is too low to come up to a tick, and nothing is
said of it; otherwise it is set, on a tick, less than one away and not closer to the entry. The position is armed
exactly if one was asked for that is not too low. -/
theorem lost_iff_tooLow (hget : a.get? asset = some p) (hp : p.isFlat = false)
    (hticks : ∀ i ∈ t.instrument asset, 0 < i.tick) (hpos : ∀ reason, ∀ price ∈ l.level? reason, 0 < price)
    (h : a.setLevels t asset l = .ok b) :
    ∃ q, b = a.keep asset q ∧ q = p.withLevels q.levels ∧
      (∀ reason, l.level? reason = none → q.levels.level? reason = none) ∧
      (∀ reason, ∀ price ∈ l.level? reason,
        (q.levels.level? reason = none ↔ t.TooLow asset p.isLong reason price) ∧
        ∀ level ∈ q.levels.level? reason, t.Places asset p.isLong reason price level) ∧
      (q.trigger = .armed ↔ ∃ reason, ∃ price ∈ l.level? reason, ¬t.TooLow asset p.isLong reason price) := by
  obtain ⟨p', q, hp', hq, rfl⟩ := setLevels_eq_ok h
  obtain rfl := Option.some.inj (hget.symm.trans hp')
  obtain ⟨-, rfl⟩ := Position.configure_eq_ok hq
  have hasked : ∀ {reason price}, price ∈ l.level? reason → _ := fun {reason price} hl =>
    Terms.level?_of_asked hticks p.isLong (hpos reason price hl) hl
  refine ⟨_, rfl, rfl, fun _ => Terms.level?_of_not_asked, fun _ _ => hasked, ?_⟩
  -- armed means that a level is set, and none is set that was not asked for
  rw [Position.armed_withLevels_iff hp]
  constructor
  · rintro ⟨reason, hset⟩
    rcases hl : l.level? reason with - | price
    · rw [Terms.level?_of_not_asked hl] at hset
      cases hset
    · refine ⟨reason, price, hl, fun hlow => ?_⟩
      rw [(hasked hl).1.mpr hlow] at hset
      cases hset
  · rintro ⟨reason, price, hl, hlow⟩
    exact ⟨reason, Option.isSome_iff_ne_none.mpr fun hnone => hlow ((hasked hl).1.mp hnone)⟩

/-- Prices are multiples of 5. -/
def fives : Terms Rat :=
  ⟨⟨1 / 1000, .intoBasis⟩, .wholeShares, fun asset => some ⟨asset, 5, .crypto, 1⟩⟩

/-- A coin bought at 42. -/
def coin : Position Rat := { Position.flat "BTC" with amount := 1, basis := 42 }

/-- The coin is all that is held. -/
def purse : Account Rat := ⟨Book.empty.insert "BTC" coin, 0⟩

/-- Of a stop-loss at 3 and a take-profit at 48 only the take-profit is set. -/
theorem lost_iff_tooLow_coin :
    ∃ b q, purse.setLevels fives "BTC" ⟨some 3, some 48⟩ = .ok b ∧ b = purse.keep "BTC" q ∧
      q.levels.stopLoss = none ∧ (∃ level ∈ q.levels.takeProfit, fives.Places "BTC" true .takeProfit 48 level) ∧
      q.trigger = .armed := by
  have hok : (purse.setLevels fives "BTC" ⟨some 3, some 48⟩).toOption.isSome = true := by decide +kernel
  obtain ⟨b, hb⟩ := Option.isSome_iff_exists.mp hok
  rw [toOption_eq_some_iff] at hb
  have hticks : ∀ i ∈ fives.instrument "BTC", 0 < i.tick := by
    intro i hi
    obtain rfl := Option.some.inj hi
    norm_num
  have hpos : ∀ reason, ∀ price ∈ (⟨some 3, some 48⟩ : ExitLevels Rat).level? reason, 0 < price := by
    rintro (- | -) price hprice <;> obtain rfl := Option.some.inj hprice <;> norm_num
  have hlow : fives.TooLow "BTC" true .stopLoss 3 :=
    ⟨_, rfl, show (3 : Rat) ≤ (1 - Instrument.tolerance) * 5 by norm_num [Instrument.tolerance_rat]⟩
  have hhigh : ¬fives.TooLow "BTC" true .takeProfit 48 := by
    rintro ⟨i, hi, h⟩
    obtain rfl := Option.some.inj hi
    have h48 : (48 : Rat) < Instrument.tolerance * 5 := h
    norm_num [Instrument.tolerance_rat] at h48
  obtain ⟨q, hkeep, -, -, hasked, harmed⟩ :=
    lost_iff_tooLow (p := coin) (by decide +kernel) (by decide +kernel) hticks hpos hb
  obtain ⟨hset, hplaces⟩ := hasked .takeProfit 48 rfl
  refine ⟨b, q, hb, hkeep, (hasked .stopLoss 3 rfl).1.mpr hlow, ?_, harmed.mpr ⟨.takeProfit, 48, rfl, hhigh⟩⟩
  obtain ⟨level, hlevel⟩ := Option.ne_none_iff_exists'.mp fun hnone => hhigh (hset.mp hnone)
  exact ⟨level, hlevel, hplaces level hlevel⟩

/-- A stop-loss at 3 alone is accepted, and the position is left without it. -/
theorem stop_lost_below_tick :
    ∃ b, purse.setLevels fives "BTC" ⟨some 3, none⟩ = .ok b ∧
      (b.get? "BTC").map (fun p => (p.levels, p.trigger)) = some (.unset, .disarmed) := by
  have hrun : ((purse.setLevels fives "BTC" ⟨some 3, none⟩).toOption.bind fun b => b.get? "BTC").map
      (fun p => (p.levels, p.trigger)) = some (.unset, .disarmed) := by decide +kernel
  obtain ⟨p, hp, hlevels⟩ := Option.map_eq_some_iff.mp hrun
  obtain ⟨b, hb, hget⟩ := Option.bind_eq_some_iff.mp hp
  exact ⟨b, toOption_eq_some_iff.mp hb, by rw [hget, Option.map_some, hlevels]⟩

end Account

end Holdings
