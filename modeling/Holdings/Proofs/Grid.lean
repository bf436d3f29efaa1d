import Mathlib

/-!
# Roundings onto a grid

A price is rounded onto ticks and an amount onto lots. Both are divided by the step of their grid, a whole number is
made of what comes of that, and so many steps are what the rounding leaves (`RoundsOnto`). Which whole number is made is
told by a relation, and what rounding keeps is what the relation keeps: numbers on the grid stay where they are
(`RoundsOnto.eq_self_iff`), two roundings onto one grid compare as the whole numbers do (`RoundsOnto.le`), and a number
is moved by as much of a step as is between what it was divided to and the whole number (`RoundsOnto.exists_abs_sub`).
-/

namespace Holdings

/-- **A rounding onto a grid**: every number is moved to the whole number of steps that is made of it. -/
structure RoundsOnto (step : Rat) (makes : Rat → ℤ → Prop) (round : Rat → Rat) : Prop where
  /-- there is something between two points of the grid -/
  step_pos : 0 < step
  /-- what is left is a whole number of steps, one that is made of the number -/
  exists_steps : ∀ x, ∃ n : ℤ, round x = n * step ∧ makes (x / step) n

namespace RoundsOnto

variable {step x y : Rat} {makes makes' : Rat → ℤ → Prop} {round round' : Rat → Rat}

/-- What is left lies on the grid. -/
theorem on_grid (h : RoundsOnto step makes round) (x : Rat) : ∃ n : ℤ, round x = n * step := by
  obtain ⟨n, hround, -⟩ := h.exists_steps x
  exact ⟨n, hround⟩

/-- **What stays where it is** is what lies on the grid, if of a whole number nothing is made but that number. -/
theorem eq_self_iff (h : RoundsOnto step makes round) (hwhole : ∀ {n m : ℤ}, makes n m → m = n) :
    round x = x ↔ ∃ n : ℤ, x = n * step := by
  constructor
  · intro hx
    exact hx ▸ h.on_grid x
  · rintro ⟨n, rfl⟩
    obtain ⟨m, hround, hmakes⟩ := h.exists_steps (n * step)
    rw [mul_div_cancel_right₀ _ h.step_pos.ne'] at hmakes
    rw [hround, hwhole hmakes]

/-- **Two roundings onto a grid** compare as the whole numbers that they make. -/
theorem le (h : RoundsOnto step makes round) (h' : RoundsOnto step makes' round')
    (hle : ∀ n m, makes (x / step) n → makes' (y / step) m → n ≤ m) : round x ≤ round' y := by
  obtain ⟨n, hround, hn⟩ := h.exists_steps x
  obtain ⟨m, hround', hm⟩ := h'.exists_steps y
  have hsteps : (n : Rat) ≤ m := by exact_mod_cast hle n m hn hm
  rw [hround, hround']
  exact mul_le_mul_of_nonneg_right hsteps h.step_pos.le

/-- **How far a number is moved**, in steps. -/
theorem exists_abs_sub (h : RoundsOnto step makes round) (x : Rat) :
    ∃ n : ℤ, makes (x / step) n ∧ |x - round x| = |x / step - n| * step := by
  obtain ⟨n, hround, hmakes⟩ := h.exists_steps x
  have hsteps : x - round x = (x / step - n) * step := by
    rw [hround, sub_mul, div_mul_cancel₀ _ h.step_pos.ne']
  exact ⟨n, hmakes, by rw [hsteps, abs_mul, abs_of_pos h.step_pos]⟩

end RoundsOnto

end Holdings
