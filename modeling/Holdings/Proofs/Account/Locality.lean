import Mathlib
import Holdings.Proofs.Account.Operation

/-!
# What an operation reads and writes of an account

An operation on one asset writes nothing but the position in it (`Account.get?_perform_of_ne`), and reads nothing
else: two accounts that hold the same in the asset refuse it for the same reason, or accept it with the same result
and hold the same in the asset after it. `Matched` says so of two results.
-/

namespace Holdings

/-- Two results that are refused for the same reason, or accepted with values that are related. -/
inductive Matched {ε β γ : Type} (R : β → γ → Prop) : Except ε β → Except ε γ → Prop where
  /-- both are refused -/
  | error (fault : ε) : Matched R (.error fault) (.error fault)
  /-- both are accepted -/
  | ok {x : β} {y : γ} : R x y → Matched R (.ok x) (.ok y)

variable {α : Type} [Quantity α]

namespace Account

/-! ## What is written -/

section Written

variable {t : Terms α} {a : Account α} {asset asset' : Asset}

/-- **An operation on one asset leaves the positions in all others.** -/
theorem get?_perform_of_ne {op : Operation α} (hop : op.asset? = some asset') (hne : asset' ≠ asset) :
    (a.perform t op).get? asset = a.get? asset := by
  rw [perform]
  rcases hb : a.perform? t op with - | b
  · rfl
  change b.get? asset = a.get? asset
  have hkept : ∀ {p : Position α}, b = a.keep asset' p → b.get? asset = a.get? asset := by
    rintro p rfl
    rw [get?_keep, if_neg hne]
  have hreleased : b = a.release asset' → b.get? asset = a.get? asset := by
    rintro rfl
    rw [get?_release, if_neg hne]
  cases op with
  | fill f =>
    obtain rfl := Option.some.inj hop
    obtain ⟨⟨o, b'⟩, hok, rfl⟩ := Option.map_eq_some_iff.mp hb
    obtain ⟨p, -, hbook, -⟩ := apply_eq_ok (toOption_eq_some_iff.mp hok)
    rw [get?, hbook]
    split
    · rw [Book.get?_erase, if_neg hne, get?]
    · rw [Book.get?_insert, if_neg hne, get?]
  | mark asset' price time =>
    obtain rfl := Option.some.inj hop
    obtain ⟨⟨held, b'⟩, hok, rfl⟩ := Option.map_eq_some_iff.mp hb
    rcases mark_eq_ok (toOption_eq_some_iff.mp hok) with rfl | ⟨p, q, -, -, heq⟩
    · rfl
    · exact hkept heq
  | levels asset' l =>
    obtain rfl := Option.some.inj hop
    obtain ⟨p, q, -, -, heq⟩ := setLevels_eq_ok (toOption_eq_some_iff.mp hb)
    exact hkept heq
  | trigger asset' price time =>
    obtain rfl := Option.some.inj hop
    obtain ⟨⟨intent, b'⟩, hok, rfl⟩ := Option.map_eq_some_iff.mp hb
    obtain ⟨p, q, -, -, heq⟩ := trigger?_eq_some hok
    exact hkept heq
  | triggerAll => cases hop
  | split asset' ratio =>
    obtain rfl := Option.some.inj hop
    obtain ⟨⟨cash, b'⟩, hok, rfl⟩ := Option.map_eq_some_iff.mp hb
    rcases split_eq_ok (toOption_eq_some_iff.mp hok) with rfl | ⟨p, q, -, -, heq⟩
    · rfl
    · split at heq
      · exact hreleased heq
      · exact hkept heq
  | charge asset' cost =>
    obtain rfl := Option.some.inj hop
    rcases charge_eq_ok (toOption_eq_some_iff.mp hb) with rfl | ⟨p, q, -, -, heq⟩
    · rfl
    · exact hkept heq
  | restore => cases hop

/-- A run of operations on one asset leaves the positions in all others. -/
theorem get?_run_of_ne (hne : asset' ≠ asset) {ops : List (Operation α)}
    (hops : ∀ op ∈ ops, op.asset? = some asset') : (a.run t ops).get? asset = a.get? asset :=
  run_induction (P := fun b => b.get? asset = a.get? asset)
    (fun op hop _ hb => (get?_perform_of_ne (hops op hop) hne).trans hb) rfl

end Written

/-! ## What is read -/

/-- Two accounts that hold the same in an asset. -/
def SameAt (asset : Asset) (a a' : Account α) : Prop := a.get? asset = a'.get? asset

section Read

variable {t : Terms α} {a a' : Account α} {asset : Asset}

omit [Quantity α] in
theorem SameAt.get?_eq (h : SameAt asset a a') : a.get? asset = a'.get? asset := h

omit [Quantity α] in
theorem sameAt_keep (p : Position α) : SameAt asset (a.keep asset p) (a'.keep asset p) := by
  rw [SameAt, get?_keep, get?_keep, if_pos rfl, if_pos rfl]

omit [Quantity α] in
theorem sameAt_release : SameAt asset (a.release asset) (a'.release asset) := by
  rw [SameAt, get?_release, get?_release, if_pos rfl, if_pos rfl]

/-- A fill reads the position in its asset. -/
theorem SameAt.apply {f : Fill α} (h : SameAt f.asset a a') :
    Matched (fun x y => x.1 = y.1 ∧ SameAt f.asset x.2 y.2) (a.apply t f) (a'.apply t f) := by
  have hheld : a.held f.asset = a'.held f.asset := by rw [held, held, h.get?_eq]
  have hticks : a.onTicks t f = a'.onTicks t f := by rw [onTicks, onTicks, h.get?_eq]
  rw [Account.apply, Account.apply, hheld, hticks]
  rcases t.settlement.apply (a'.held f.asset) (a'.onTicks t f) with fault | ⟨o, p⟩
  · exact .error fault
  · refine .ok ⟨rfl, ?_⟩
    dsimp only
    split
    · exact sameAt_release (a := a)
    · exact sameAt_keep (a := a) p

/-- A mark reads the position in its asset. -/
theorem SameAt.mark (h : SameAt asset a a') (price : α) (time : Instant) :
    Matched (fun x y => x.1 = y.1 ∧ SameAt asset x.2 y.2) (a.mark asset price time)
      (a'.mark asset price time) := by
  rw [Account.mark, Account.mark, h.get?_eq]
  rcases a'.get? asset with - | p
  · exact .ok ⟨rfl, h⟩
  · dsimp only
    rcases p.mark price time with fault | q
    · exact .error fault
    · exact .ok ⟨rfl, sameAt_keep q⟩

/-- New levels read the position in their asset. -/
theorem SameAt.setLevels (h : SameAt asset a a') (l : ExitLevels α) :
    Matched (SameAt asset) (a.setLevels t asset l) (a'.setLevels t asset l) := by
  rw [Account.setLevels, Account.setLevels, h.get?_eq]
  rcases a'.get? asset with - | p
  · exact .error _
  · dsimp only
    rcases p.configure (t.roundLevels asset p.isLong l) with fault | q
    · exact .error fault
    · exact .ok (sameAt_keep q)

/-- A trigger reads the position in its asset. -/
theorem SameAt.trigger? (h : SameAt asset a a') (price : α) (time : Option Instant) :
    Option.Rel (fun x y => x.1 = y.1 ∧ SameAt asset x.2 y.2) (a.trigger? asset price time)
      (a'.trigger? asset price time) := by
  rw [Account.trigger?, Account.trigger?, h.get?_eq]
  rcases a'.get? asset with - | p
  · exact .none
  · dsimp only
    rcases p.trigger? price time with - | ⟨intent, q⟩
    · exact .none
    · exact .some ⟨rfl, sameAt_keep q⟩

/-- A split reads the position in its asset. -/
theorem SameAt.split (h : SameAt asset a a') (ratio : α) :
    Matched (fun x y => x.1 = y.1 ∧ SameAt asset x.2 y.2) (a.split t asset ratio)
      (a'.split t asset ratio) := by
  rw [Account.split, Account.split, h.get?_eq]
  rcases a'.get? asset with - | p
  · dsimp only
    split
    · exact .error _
    · exact .ok ⟨rfl, h⟩
  · dsimp only
    rcases p.split asset ratio t.lot with fault | ⟨cash, q⟩
    · exact .error fault
    · refine .ok ⟨rfl, ?_⟩
      dsimp only
      split
      · exact sameAt_release
      · exact sameAt_keep q

end Read

end Account

end Holdings
