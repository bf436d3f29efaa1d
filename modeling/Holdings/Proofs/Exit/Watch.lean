import Mathlib
import Holdings.Proofs.Exit.Crossing

/-!
# A position watched over a list of prices

A position is looked at with one price after another, and nothing else happens to it in between. Prices that are not
finite are passed over, the first finite one that crosses a level fires, and nothing that comes later does.

* `Position.look` — one look at a position: what it answers, and the position after it;
* `Position.watch` — one look after another;
* `Position.fires_at_first_crossing` — every answer of an armed position to a list of prices of any length, and the
  position after each.

No arithmetic is done on the way, so that this holds of the numbers that are computed with.
-/

namespace Holdings

variable {α : Type}

/-- A price that a position is looked at with. -/
structure Quote (α : Type) where
  /-- the price -/
  price : α
  /-- when, if that is known -/
  time : Option Instant

variable [Quantity α]

namespace Position

/-- What a position answers to a price, and the position after it. -/
def look (p : Position α) (x : Quote α) : Option (ExitIntent α) × Position α :=
  match p.trigger? x.price x.time with
  | none => (none, p)
  | some (intent, q) => (some intent, q)

/-- What a position answers to one price after another, with the position after each. -/
def watch : Position α → List (Quote α) → List (Option (ExitIntent α) × Position α)
  | _, [] => []
  | p, x :: rest => p.look x :: (p.look x).2.watch rest

variable {p : Position α} {x : Quote α}

/-! ## One look -/

/-- A look at a price that crosses a level answers with the trade that leaves the position there. -/
theorem look_of_exits (hp : p.isFlat = false) (harmed : p.trigger = .armed)
    (hpos : ∀ reason, ∀ level ∈ p.levels.level? reason, 0 < level) {reason : ExitReason} {level : α}
    (h : p.Exits x.price reason level) :
    p.look x = (some ⟨p.asset, -p.amount, reason, level, x.price, x.time⟩, p.leftAt reason level) := by
  rw [look, trigger?_of_exits hp harmed hpos h]

/-- A look at any other price changes nothing. -/
theorem look_of_not_crossing (hpos : ∀ reason, ∀ level ∈ p.levels.level? reason, 0 < level)
    (h : ¬p.Crossing x.price) : p.look x = (none, p) := by
  rw [look, trigger?_of_not_crossing hpos h]

/-- A position that is not armed answers nothing, whatever the price. -/
theorem look_of_not_armed (h : p.trigger ≠ .armed) : p.look x = (none, p) := by
  rw [look, trigger?, if_neg (by simp [h])]

/-! ## A list of prices -/

theorem watch_of_not_armed (h : p.trigger ≠ .armed) (prices : List (Quote α)) :
    p.watch prices = prices.map fun _ => (none, p) := by
  induction prices with
  | nil => rfl
  | cons x rest ih => rw [watch, look_of_not_armed h, ih, List.map_cons]

/-- **A bracket fires at the first crossing, and once.** Let a position be armed, with levels that are positive and an
amount that is not zero, and let it be looked at with prices of any kind. If none of them crosses a level, every answer
is none and the position stays as it is. Otherwise it answers to the first that does, and to that one alone: with the
reason and the level at which that price leaves the position, that price, and the whole amount. Before that the
position stays as it is; after it the level that was crossed is the only one, the trigger has fired, and all else is as
it was. -/
theorem fires_at_first_crossing (hp : p.isFlat = false) (harmed : p.trigger = .armed)
    (hpos : ∀ reason, ∀ level ∈ p.levels.level? reason, 0 < level) (prices : List (Quote α)) :
    ((∀ x ∈ prices, ¬p.Crossing x.price) ∧ p.watch prices = prices.map fun _ => (none, p)) ∨
    ∃ before x after reason level, prices = before ++ x :: after ∧
      (∀ y ∈ before, ¬p.Crossing y.price) ∧ p.Exits x.price reason level ∧
      p.watch prices = (before.map fun _ => (none, p)) ++
        (some ⟨p.asset, -p.amount, reason, level, x.price, x.time⟩, p.leftAt reason level) ::
          after.map fun _ => (none, p.leftAt reason level) := by
  induction prices with
  | nil => exact .inl ⟨by simp, rfl⟩
  | cons x rest ih =>
    by_cases hcross : p.Crossing x.price
    · obtain ⟨reason, level, hexits⟩ := hcross.exits
      have hfired : (p.leftAt reason level).trigger ≠ .armed := by simp [leftAt]
      refine .inr ⟨[], x, rest, reason, level, rfl, by simp, hexits, ?_⟩
      rw [watch, look_of_exits hp harmed hpos hexits, watch_of_not_armed hfired]
      rfl
    · have hwatch : p.watch (x :: rest) = (none, p) :: p.watch rest := by
        rw [watch, look_of_not_crossing hpos hcross]
      rw [hwatch]
      rcases ih with ⟨hnone, hrest⟩ | ⟨before, y, after, reason, level, hsplit, hnone, hexits, hrest⟩
      · exact .inl ⟨List.forall_mem_cons.mpr ⟨hcross, hnone⟩, by rw [hrest, List.map_cons]⟩
      · refine .inr ⟨x :: before, y, after, reason, level, by rw [hsplit, List.cons_append],
          List.forall_mem_cons.mpr ⟨hcross, hnone⟩, hexits, ?_⟩
        rw [hrest, List.map_cons, List.cons_append]

/-- Ten shares are owed, with a stop-loss at 110 and a take-profit at 90. -/
def owed : Position Float :=
  { flat "SPY" with amount := -10, basis := 100, levels := ⟨some 110, some 90⟩, trigger := .armed }

/-- No price, one between the levels, one beyond all numbers, the stop-loss itself, one beyond the take-profit, and one
below all numbers. -/
def erratic : List (Quote Float) := [0.0 / 0.0, 100, 1.0 / 0.0, 110, 85, -1.0 / 0.0].map (⟨·, none⟩)

/-- The stop-loss itself fires, and nothing else does. -/
theorem fires_at_first_crossing_erratic :
    ∃ before x after reason level, erratic = before ++ x :: after ∧
      (∀ y ∈ before, ¬owed.Crossing y.price) ∧ owed.Exits x.price reason level ∧
      owed.watch erratic = (before.map fun _ => (none, owed)) ++
        (some ⟨"SPY", 10, reason, level, x.price, x.time⟩, owed.leftAt reason level) ::
          after.map fun _ => (none, owed.leftAt reason level) := by
  have hpos : ∀ reason, ∀ level ∈ owed.levels.level? reason, 0 < level := by
    rintro (- | -) level ⟨⟩ <;> decide +kernel
  have hcross : owed.Crossing (110 : Float) :=
    ⟨by decide +kernel, .stopLoss, 110, rfl, by decide +kernel⟩
  have hfires := fires_at_first_crossing (p := owed) (by decide +kernel) rfl hpos erratic
  exact hfires.resolve_left fun hnone => hnone.1 ⟨110, none⟩ (by simp [erratic]) hcross

/-- These are the answers. -/
example : (owed.watch erratic).map (fun y => y.1.map fun i => (i.reason, i.level, i.quantity)) =
    [none, none, none, some (.stopLoss, 110, 10), none, none] := by decide +kernel

end Position

end Holdings
