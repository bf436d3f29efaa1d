import Mathlib
import Holdings.Proofs.Position

/-!
# Levels that count and levels that stand

A level of zero does not count, which is how levels are written down (`ExitLevels.ofSentinels_sentinels`).

Levels *stand* at a position when each is a price above zero and two of them lie on their sides of the basis.
Levels are only set where they stand; `Position.levelFault?_eq_none` says what the check of levels lets through, and
`Position.levelFault?_eq_none_iff` says it in exact arithmetic.
-/

namespace Holdings

namespace ExitLevels

theorem isEmpty_iff {α : Type} {l : ExitLevels α} : l.isEmpty = true ↔ l = unset := by
  rcases l with ⟨- | sl, - | tp⟩ <;> simp [isEmpty, unset]

section Normalized

variable {α : Type} [Quantity α]

theorem ofSentinel_cases (x : α) : ofSentinel x = none ∨ ofSentinel x = some x := by
  rw [ofSentinel]
  split
  · exact .inl rfl
  · exact .inr rfl

@[simp] theorem normalized_normalized (l : ExitLevels α) : l.normalized.normalized = l.normalized := by
  have htwice : ∀ x : α, (ofSentinel x).bind ofSentinel = ofSentinel x := fun x => by
    rcases ofSentinel_cases x with h | h <;> simp [h]
  rcases l with ⟨- | sl, - | tp⟩ <;> simp [normalized, htwice]

/-- What is read of two prices are levels that count. -/
@[simp] theorem normalized_ofSentinels (sl tp : α) :
    (ofSentinels sl tp).normalized = ofSentinels sl tp := by
  rw [ofSentinels, normalized]
  rcases ofSentinel_cases sl with h | h <;> rcases ofSentinel_cases tp with h' | h' <;> simp [h, h']

/-- What is written down of levels and read again are the levels that count. -/
theorem ofSentinels_sentinels [Quantity.LawfulZero α] (l : ExitLevels α) :
    ofSentinels l.sentinels.1 l.sentinels.2 = l.normalized := by
  have hnone : ofSentinel (0 : α) = none := if_pos Quantity.LawfulZero.zero_beq
  rcases l with ⟨- | sl, - | tp⟩ <;> simp [ofSentinels, sentinels, normalized, hnone]

theorem ofSentinel_eq_none_iff {x : α} : ofSentinel x = none ↔ (x == 0) = true := by
  rw [ofSentinel]
  split <;> simp_all

/-- No level counts exactly if all of them are zero. -/
theorem isEmpty_normalized_iff {l : ExitLevels α} : l.normalized.isEmpty = true ↔
    (∀ x ∈ l.stopLoss, (x == 0) = true) ∧ ∀ x ∈ l.takeProfit, (x == 0) = true := by
  rcases l with ⟨- | sl, - | tp⟩ <;> simp [normalized, isEmpty, ofSentinel_eq_none_iff]

/-- Changes that leave zero as it is bring about no level that counts. -/
theorem isEmpty_normalized_of_map {l : ExitLevels α} {f g : α → α}
    (hf : ∀ x, (x == 0) = true → f x = x) (hg : ∀ x, (x == 0) = true → g x = x)
    (h : (l.map f g).normalized.isEmpty = false) : l.normalized.isEmpty = false := by
  rw [← Bool.not_eq_true] at h ⊢
  refine fun hempty => h ?_
  obtain ⟨hsl, htp⟩ := isEmpty_normalized_iff.mp hempty
  refine isEmpty_normalized_iff.mpr ⟨fun y hy => ?_, fun y hy => ?_⟩
  · obtain ⟨x, hx, rfl⟩ := Option.mem_map.mp hy
    rw [hf x (hsl x hx)]
    exact hsl x hx
  · obtain ⟨x, hx, rfl⟩ := Option.mem_map.mp hy
    rw [hg x (htp x hx)]
    exact htp x hx

/-- The level of a reason alone counts, or nothing does. -/
theorem normalized_only (reason : ExitReason) (level : α) :
    (only reason level).normalized = unset ∨ (only reason level).normalized = only reason level := by
  rcases ofSentinel_cases level with h | h <;> cases reason <;> simp [normalized, only, unset, h]

end Normalized

variable {l : ExitLevels Rat}

/-- No level is below zero. -/
@[mk_iff]
structure Nonneg (l : ExitLevels Rat) : Prop where
  /-- the stop-loss is not -/
  stopLoss : ∀ x ∈ l.stopLoss, 0 ≤ x
  /-- the take-profit is not -/
  takeProfit : ∀ x ∈ l.takeProfit, 0 ≤ x

theorem nonneg_unset : (unset : ExitLevels Rat).Nonneg := ⟨by simp [unset], by simp [unset]⟩

theorem mem_ofSentinel {x y : Rat} : x ∈ ofSentinel y ↔ x = y ∧ x ≠ 0 := by
  rw [ofSentinel]
  split_ifs with h
  · have hy : y = 0 := by simpa using h
    simp [hy]
  · have hy : y ≠ 0 := by simpa using h
    constructor
    · rintro hx
      obtain rfl := Option.some.inj hx
      exact ⟨rfl, hy⟩
    · rintro ⟨rfl, -⟩
      rfl

/-- The levels that count are those that are not zero. -/
theorem mem_normalized_stopLoss {x : Rat} :
    x ∈ l.normalized.stopLoss ↔ x ∈ l.stopLoss ∧ x ≠ 0 := by
  rcases l with ⟨- | sl, tp⟩
  · simp [normalized]
  · exact mem_ofSentinel.trans (by simp [eq_comm])

theorem mem_normalized_takeProfit {x : Rat} :
    x ∈ l.normalized.takeProfit ↔ x ∈ l.takeProfit ∧ x ≠ 0 := by
  rcases l with ⟨sl, - | tp⟩
  · simp [normalized]
  · exact mem_ofSentinel.trans (by simp [eq_comm])

/-- Levels are normal if none of them is zero. -/
theorem normalized_eq_self_iff :
    l.normalized = l ↔ (∀ x ∈ l.stopLoss, x ≠ 0) ∧ ∀ x ∈ l.takeProfit, x ≠ 0 := by
  constructor
  · intro h
    refine ⟨fun x hx => ?_, fun x hx => ?_⟩
    · rw [← h] at hx
      exact (mem_normalized_stopLoss.mp hx).2
    · rw [← h] at hx
      exact (mem_normalized_takeProfit.mp hx).2
  · rintro ⟨hsl, htp⟩
    have hstop : l.normalized.stopLoss = l.stopLoss := Option.ext fun x =>
      mem_normalized_stopLoss.trans ⟨And.left, fun hx => ⟨hx, hsl x hx⟩⟩
    have htake : l.normalized.takeProfit = l.takeProfit := Option.ext fun x =>
      mem_normalized_takeProfit.trans ⟨And.left, fun hx => ⟨hx, htp x hx⟩⟩
    cases l
    exact congr (congrArg mk hstop) htake

theorem Nonneg.map (h : l.Nonneg) {f g : Rat → Rat} (hf : ∀ x, 0 ≤ x → 0 ≤ f x)
    (hg : ∀ x, 0 ≤ x → 0 ≤ g x) : (l.map f g).Nonneg := by
  refine ⟨fun x hx => ?_, fun x hx => ?_⟩
  · obtain ⟨y, hy, rfl⟩ := Option.map_eq_some_iff.mp hx
    exact hf y (h.stopLoss y hy)
  · obtain ⟨y, hy, rfl⟩ := Option.map_eq_some_iff.mp hx
    exact hg y (h.takeProfit y hy)

end ExitLevels

namespace Position

variable {p q : Position Rat}

/-- **What a position promises of its levels**: each that is set is a price above zero, and where both are set
they lie on their sides of the basis. -/
structure LevelsStand (p : Position Rat) : Prop where
  /-- the stop-loss is above zero -/
  stopLoss_pos : ∀ x ∈ p.levels.stopLoss, 0 < x
  /-- the take-profit is above zero -/
  takeProfit_pos : ∀ x ∈ p.levels.takeProfit, 0 < x
  /-- the two lie on their sides of the basis -/
  straddle : ∀ sl ∈ p.levels.stopLoss, ∀ tp ∈ p.levels.takeProfit,
    ExitLevels.straddles p.isLong p.basis sl tp = true

/-- **The check of levels** for a position that is held, whatever the quantities. -/
theorem levelFault?_eq_none {α : Type} [Quantity α] {p : Position α} (hp : p.isFlat = false)
    (l : ExitLevels α) :
    p.levelFault? l = none ↔
      (∀ sl ∈ l.stopLoss, Quantity.isNoPrice sl = false) ∧ (∀ tp ∈ l.takeProfit, Quantity.isNoPrice tp = false) ∧
        ∀ sl ∈ l.stopLoss, ∀ tp ∈ l.takeProfit, ExitLevels.straddles p.isLong p.basis sl tp = true := by
  rcases l with ⟨- | sl, - | tp⟩ <;>
    simp only [levelFault?, hp, ExitLevels.isEmpty, Option.any_none, Option.any_some, Option.isNone_none,
      Option.isNone_some, Option.map_some]
  · simp
  · rcases htp : Quantity.isNoPrice tp with - | - <;> simp [htp]
  · rcases hsl : Quantity.isNoPrice sl with - | - <;> simp [hsl]
  · rcases hsl : Quantity.isNoPrice sl with - | - <;> rcases htp : Quantity.isNoPrice tp with - | - <;>
      simp [hsl, htp]

/-- In exact arithmetic: none is below zero, and two of them lie on their sides of the basis. -/
theorem levelFault?_eq_none_iff (hp : p.isFlat = false) {l : ExitLevels Rat} :
    p.levelFault? l = none ↔ l.Nonneg ∧ ∀ sl ∈ l.stopLoss, ∀ tp ∈ l.takeProfit,
      ExitLevels.straddles p.isLong p.basis sl tp = true := by
  simp only [levelFault?_eq_none hp, ExitLevels.nonneg_iff, Quantity.isNoPrice_rat, decide_eq_false_iff_not, not_lt,
    and_assoc]

end Position

end Holdings
