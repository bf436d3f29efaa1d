import Mathlib

/-!
# Calls that change a state in place

A `Call` changes its state write by write and check by check. What it wrote before it was refused stays written, so
that a refused call leaves the state as it was only if it has written nothing, or has worked on a copy.

`Call.on` is what a call answers on a state, with the state that it leaves; `Call.atOnce` is the same of a function
that gives a new state only if it accepts. That a call does at once what such a function does is an equation of the
two.
-/

namespace Holdings

/-- A call that changes a state in place, and may be refused. What it wrote before that stays written. -/
abbrev Call (σ ε β : Type) := ExceptT ε (StateM σ) β

namespace Call

variable {σ ε β γ : Type}

/-- What a call answers on a state, and the state that it leaves, refused or not. -/
def on (c : Call σ ε β) (s : σ) : Except ε β × σ := c.run.run s

/-- Works on a copy of the state, which takes its place unless something was refused. -/
def onCopy (c : Call σ ε β) : Call σ ε β := do
  match c.on (← get) with
  | (.error fault, _) => throw fault
  | (.ok x, s) =>
    set s
    return x

@[simp] theorem on_pure (x : β) (s : σ) : (pure x : Call σ ε β).on s = (.ok x, s) := rfl

@[simp] theorem on_throw (fault : ε) (s : σ) : (throw fault : Call σ ε β).on s = (.error fault, s) := rfl

@[simp] theorem on_get (s : σ) : (get : Call σ ε σ).on s = (.ok s, s) := rfl

@[simp] theorem on_set (s s' : σ) : (set s' : Call σ ε PUnit).on s = (.ok ⟨⟩, s') := rfl

@[simp] theorem on_modify (f : σ → σ) (s : σ) : (modify f : Call σ ε PUnit).on s = (.ok ⟨⟩, f s) := rfl

/-- Two calls one after the other: the second one finds what the first one left, and is not made if that one was
refused. -/
@[simp] theorem on_bind (c : Call σ ε β) (next : β → Call σ ε γ) (s : σ) :
    (c >>= next).on s = match c.on s with
      | (.error fault, s') => (.error fault, s')
      | (.ok x, s') => (next x).on s' := by
  change (ExceptT.bindCont next (c.on s).1).run (c.on s).2 = _
  rcases c.on s with ⟨fault | x, s'⟩ <;> rfl

/-- What is answered on a state, and the state that is left, where a change gives a new state only if it is
accepted. -/
def atOnce (s : σ) : Except ε (β × σ) → Except ε β × σ
  | .error fault => (.error fault, s)
  | .ok (x, s') => (.ok x, s')

@[simp] theorem atOnce_error (s : σ) (fault : ε) :
    atOnce s (.error fault : Except ε (β × σ)) = (.error fault, s) := rfl

@[simp] theorem atOnce_ok (s s' : σ) (x : β) : atOnce s (.ok (x, s') : Except ε (β × σ)) = (.ok x, s') := rfl

/-- A call that works on a copy changes its state at once. -/
theorem onCopy_on (c : Call σ ε β) (s : σ) :
    (onCopy c).on s = atOnce s ((c.on s).1.map fun x => (x, (c.on s).2)) := by
  simp only [onCopy, on_bind, on_get]
  rcases c.on s with ⟨fault | x, s'⟩
  · rfl
  · simp only [on_bind, on_set, on_pure, Except.map, atOnce_ok]

end Call

end Holdings
