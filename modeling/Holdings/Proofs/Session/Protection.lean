import Mathlib
import Holdings.Proofs.Account.Standing
import Holdings.Proofs.Policy
import Holdings.Proofs.Session.Exits

/-!
# Which policies protect every position

An exit is left behind if the amount held is below the smallest quantity. Fills leave nothing below it, but splits round
to the lots alone.

* `Session.Steady` — what a session keeps whose exits are all carried out, if the lots are not below the smallest
  quantity;
* `Session.exists_leftFired` — if they are, a split down to one step of them leaves an exit behind;
* `Session.carried_out_iff` — so all exits of all sessions are carried out exactly if the step of the lots is not below
  the smallest quantity.
-/

namespace Holdings

namespace Session

variable {policy : Policy Rat} {s : Session Rat} {e : Event Rat} {exit : FiredExit Rat}

/-! ## Sessions that carry out all exits -/

theorem Reachable.all {P : Asset → Position Rat → Prop} (hP : Account.Stable (terms policy) P)
    (h : Reachable policy s) : s.account.All P := by
  induction h with
  | start => exact Account.all_empty
  | @handle s e _ ih => exact (handle_performs s e).account ▸ Account.All.run hP _ ih
  | step e _ ih => exact all_step hP ih e

/-- The operations of an event restore nothing, so that under a policy whose lots are not below the smallest quantity
they leave nothing below it. -/
theorem operations_fit (hcheck : policy.check = .ok ()) (hunit : policy.minimum ≤ policy.lot.unit) :
    ∀ op ∈ s.operations policy e, Account.Fits (terms policy) op := by
  intro op hop
  have hsplit : 0 < (terms policy).lot.unit ∧ (terms policy).settlement.minimum ≤ (terms policy).lot.unit :=
    ⟨Policy.unit_pos hcheck, (Policy.terms_minimum hcheck _).trans_le hunit⟩
  rcases mem_operations hop with ⟨hasset, -⟩ | ⟨x, exit, -, -, rfl⟩
  · cases op with
    | split => exact hsplit
    | restore => cases hasset
    | _ => trivial
  · trivial

/-- What a session keeps whose exits are all carried out. -/
structure Steady (policy : Policy Rat) (s : Session Rat) : Prop where
  /-- its positions and its orders are sound -/
  sound : s.Sound
  /-- nothing that is held is below the smallest quantity -/
  substantial : s.account.Substantial (terms policy)
  /-- no position has fired -/
  noneFired : s.account.NoneFired

/-- An exit of such a session is carried out. -/
theorem Steady.carriedOut (hs : Steady policy s) (h : s.exit? e = some exit) : CarriedOut policy s e exit := by
  obtain ⟨-, -, hne⟩ := fill_of_exit? policy hs.sound.1 h
  refine ((exit_cases policy hs.sound.1 h).resolve_right fun hleft => ?_).2
  rcases s.account.held_cases e.asset with hheld | ⟨-, hflat⟩
  · have hmin : (terms policy).settlement.minimum ≤ |s.account.amount e.asset| := hs.substantial hheld
    rw [show (terms policy).settlement.minimum = |policy.minimum| from Quantity.abs_rat _] at hmin
    exact hleft.1.not_ge hmin
  · exact hne (by rw [Account.amount, hflat]; rfl)

/-- **Every event leaves such a session so.** -/
theorem Steady.handle (hcheck : policy.check = .ok ()) (hunit : policy.minimum ≤ policy.lot.unit)
    (hs : Steady policy s) (e : Event Rat) : Steady policy (s.handle policy e).1 := by
  have haccount : (s.handle policy e).1.account = s.account.run (terms policy) (s.operations policy e) :=
    (handle_performs s e).account
  refine ⟨⟨?_, hs.sound.2.handle e⟩, ?_, ?_⟩
  · rw [haccount]
    exact Account.All.run (Position.stable_sound _) _ hs.sound.1
  · rw [haccount]
    exact hs.substantial.run (operations_fit hcheck hunit)
  · rcases hexit : s.exit? e with - | exit
    · exact noneFired_handle hs.noneFired hexit
    · -- the position that fired is gone, and all others are as they were
      intro asset q hq
      have hne : e.asset ≠ asset := by
        rintro rfl
        rw [(hs.carriedOut hexit).absent] at hq
        cases hq
      have hproper : s.Proper := ⟨fun _ _ hp => ⟨(hs.sound.1 hp).asset_eq, (hs.sound.1 hp).not_flat⟩, hs.sound.2⟩
      rw [haccount, Account.get?_run_of_ne hne (operations_asset? hproper)] at hq
      exact hs.noneFired hq

theorem Reachable.steady (hcheck : policy.check = .ok ()) (hunit : policy.minimum ≤ policy.lot.unit)
    (h : Reachable policy s) : Steady policy s := by
  induction h with
  | start => exact ⟨⟨Account.all_empty, fun o ho => by cases ho⟩, Account.all_empty, Account.all_empty⟩
  | handle e _ ih => exact ih.handle hcheck hunit e
  | @step s e _ ih =>
    have htaken : Steady policy s.taken := ⟨ih.sound, ih.substantial, ih.noneFired⟩
    have hplayed := htaken.handle hcheck hunit e
    rcases step_cases policy s e with ⟨-, heq⟩ | ⟨cause, -, heq⟩ <;> rw [heq]
    · exact hplayed
    · exact ⟨hplayed.sound, hplayed.substantial, hplayed.noneFired⟩

end Session

/-! ## Exits that are not carried out -/

namespace Position

variable {p : Position Rat}

/-- A stop-loss alone is accepted for a position that is held. -/
theorem configure_stop (hp : p.isFlat = false) {level : Rat} (h : 0 < level) :
    p.configure ⟨some level, none⟩ = .ok (p.withLevels ⟨some level, none⟩) := by
  have hnormal : (⟨some level, none⟩ : ExitLevels Rat).normalized = ⟨some level, none⟩ :=
    ExitLevels.normalized_eq_self_iff.mpr ⟨by simp [h.ne'], by simp⟩
  have hnone : p.levelFault? ⟨some level, none⟩ = none :=
    (levelFault?_eq_none_iff hp).mpr ⟨⟨by simp [h.le], by simp⟩, by simp⟩
  rw [configure, hnormal, hnone]

/-- A price of zero crosses the stop-loss of a long position. -/
theorem trigger?_stop (hp : 0 < p.amount) (harmed : p.trigger = .armed) {level : Rat}
    (hlevels : p.levels = ⟨some level, none⟩) (h : 0 < level) (time : Option Instant) :
    (p.trigger? 0 time).isSome = true := by
  simp [trigger?, isFlat, hp.ne', harmed, crossed?, hlevels, crosses, isLong, hp, h, h.le, Option.filter]

end Position

namespace Session

variable {policy : Policy Rat} {s : Session Rat} {asset : Asset} {p : Position Rat}

/-- A purchase of the smallest quantity is accepted. -/
theorem held_of_purchase (hcheck : policy.check = .ok ()) (asset : Asset) : ∃ p,
    (start.handle policy (.fill asset policy.minimum 1 (some 0) none .unset)).1.account.get? asset = some p ∧
      p.amount = policy.minimum := by
  have hpos : 0 < policy.minimum := Policy.minimum_pos hcheck
  have hmin : (terms policy).settlement.minimum = policy.minimum := Policy.terms_minimum hcheck _
  rw [handle]
  rcases hf : start.fill policy (recordedFill policy asset policy.minimum 1 (some 0) none .unset) with cause | next
  · have hdust := ((fill_eq_error_iff (s := start) Account.all_empty rfl hpos.ne' zero_le_one).mp hf).1
    exact absurd hdust (lt_irrefl _)
  · obtain ⟨o, account, happly, rfl⟩ := fill_eq_ok hf
    obtain ⟨q, hq, hbook, -⟩ := Account.apply_eq_ok happly
    have hamount : o.amount = policy.minimum := by
      rw [Settlement.amount_of_apply hq, hmin]
      change (if |0 + policy.minimum| < policy.minimum then 0 else 0 + policy.minimum) = policy.minimum
      rw [zero_add, abs_of_pos hpos, if_neg (lt_irrefl _)]
    refine ⟨q, ?_, (Settlement.apply_position hq).2.1.trans hamount⟩
    change account.book.get? asset = some q
    rw [hbook, if_neg (by simpa [hamount] using hpos.ne')]
    exact (Book.get?_insert ..).trans (if_pos rfl)

theorem get?_of_stop (policy : Policy Rat) (hp : s.account.get? asset = some p) (hflat : p.isFlat = false)
    {level : Rat} (h : 0 < level) :
    (s.handle policy (.levels asset ⟨some level, none⟩)).1.account.get? asset =
      some (p.withLevels ⟨some level, none⟩) := by
  have hlevels : s.account.setLevels (terms policy) asset ⟨some level, none⟩ =
      .ok (s.account.keep asset (p.withLevels ⟨some level, none⟩)) := by
    rw [Account.setLevels, hp]
    change (p.configure ⟨some level, none⟩).map _ = _
    rw [Position.configure_stop hflat h]
    rfl
  rw [handle, hlevels]
  exact (Account.get?_keep ..).trans (if_pos rfl)

theorem get?_of_split (hp : s.account.get? asset = some p) (hs : p.Sound asset) {ratio : Rat} (h : 0 < ratio)
    (hleft : policy.lot.round (p.amount / ratio) ≠ 0) :
    (s.handle policy (.split asset ratio)).1.account.get? asset = some (p.splitHeld ratio policy.lot).2 := by
  rw [(handle_performs s _).account]
  exact Account.get?_perform_split hp hs h hleft

/-- The mark at zero of a long position with a stop-loss sets off an exit. -/
theorem exit?_of_mark (hp : s.account.get? asset = some p) (hamount : 0 < p.amount) (harmed : p.trigger = .armed)
    {level : Rat} (hlevels : p.levels = ⟨some level, none⟩) (h : 0 < level) (time : Instant) :
    (s.exit? (.mark asset 0 time)).isSome = true := by
  have hfire := Position.trigger?_stop (p := { p with lastPrice := 0, lastTime := some time }) hamount harmed hlevels h
    (some time)
  obtain ⟨⟨intent, q⟩, hq⟩ := Option.isSome_iff_exists.mp hfire
  have hmark : s.account.mark asset 0 time =
      .ok (true, s.account.keep asset { p with lastPrice := 0, lastTime := some time }) := by
    rw [Account.mark, hp]
    simp [Position.mark, Except.map]
  have htrigger : (s.account.keep asset { p with lastPrice := 0, lastTime := some time }).trigger? asset 0 (some time) =
      some (intent, (s.account.keep asset { p with lastPrice := 0, lastTime := some time }).keep asset q) := by
    rw [Account.trigger?, Account.get?_keep, if_pos rfl]
    simp [hq]
  rw [exit?, observation?, record?]
  simp only [Bar.tick, hmark, Option.bind_some, firstExit?, htrigger, Option.isSome_some]

/-- If the step of the lots is below the smallest quantity, a session can come to hold just that step, guarded by a
stop-loss: it buys the smallest quantity, and a split takes it down. -/
theorem exists_unit_guarded (hcheck : policy.check = .ok ()) (h : policy.lot.unit < policy.minimum) :
    ∃ s p level, Reachable policy s ∧ s.account.get? "SPY" = some p ∧ p.amount = policy.lot.unit ∧
      p.trigger = .armed ∧ p.levels = ⟨some level, none⟩ ∧ 0 < level := by
  have hunit : 0 < policy.lot.unit := Policy.unit_pos hcheck
  have hmin : 0 < policy.minimum := Policy.minimum_pos hcheck
  let ratio := policy.minimum / policy.lot.unit
  have hratio : 1 ≤ ratio := (one_le_div hunit).mpr h.le
  obtain ⟨p, hp, hamount⟩ := held_of_purchase hcheck "SPY"
  have hbought : Reachable policy _ := .handle (.fill "SPY" policy.minimum 1 (some 0) none .unset) .start
  have hsound := (hbought.all (Position.stable_sound _)) hp
  generalize (start.handle policy (.fill "SPY" policy.minimum 1 (some 0) none .unset)).1 = bought at hp hbought
  have hguarded := get?_of_stop policy hp hsound.not_flat one_pos
  have hreach : Reachable policy _ := hbought.handle (.levels "SPY" ⟨some 1, none⟩)
  generalize (bought.handle policy (.levels "SPY" ⟨some 1, none⟩)).1 = guarded at hguarded hreach
  have hguards : (p.withLevels ⟨some 1, none⟩).Sound "SPY" := (hreach.all (Position.stable_sound _)) hguarded
  have hround : policy.lot.round ((p.withLevels ⟨some 1, none⟩).amount / ratio) = policy.lot.unit := by
    change policy.lot.round (p.amount / ratio) = policy.lot.unit
    rw [hamount, div_div_cancel₀ hmin.ne', Lot.round_unit hunit]
  have hleft : policy.lot.round ((p.withLevels ⟨some 1, none⟩).amount / ratio) ≠ 0 := hround ▸ hunit.ne'
  have hsplit := get?_of_split hguarded hguards (one_pos.trans_le hratio) hleft
  rw [Position.splitHeld_eq (by simpa using hleft), hround] at hsplit
  have hcent : 0 < Position.toCent (1 * ratio) := by
    have hone : (0 : Rat) < Position.toCent 1 := by decide +kernel
    rw [one_mul]
    exact hone.trans_le (Position.toCent_mono hratio)
  have harmed : (p.withLevels ⟨some 1, none⟩).trigger = .armed := by
    simp [Position.withLevels, ExitLevels.isEmpty, hsound.not_flat]
  exact ⟨_, _, _, hreach.handle (.split "SPY" ratio), hsplit, rfl, harmed, rfl, hcent⟩

/-- **A policy whose lots are below the smallest quantity leaves an exit behind**: the price of what is guarded falls to
zero, and what is held is too little for the exit. -/
theorem exists_leftFired (hcheck : policy.check = .ok ()) (h : policy.lot.unit < policy.minimum) :
    ∃ s e exit, Reachable policy s ∧ s.exit? e = some exit ∧ LeftFired policy s e exit := by
  have hunit : 0 < policy.lot.unit := Policy.unit_pos hcheck
  obtain ⟨s, p, level, hs, hp, hamount, harmed, hlevels, hlevel⟩ := exists_unit_guarded hcheck h
  let e : Event Rat := .mark "SPY" 0 ⟨0, 0, 0⟩
  obtain ⟨exit, hexit⟩ := Option.isSome_iff_exists.mp
    (exit?_of_mark hp (hamount ▸ hunit) harmed hlevels hlevel ⟨0, 0, 0⟩)
  have hheld : s.account.amount e.asset = policy.lot.unit := by
    change s.account.amount "SPY" = policy.lot.unit
    rw [Account.amount, Account.held, hp, Option.getD_some, hamount]
  refine ⟨s, e, exit, hs, hexit, ?_⟩
  refine ((exit_cases policy (hs.all (Position.stable_sound _)) hexit).resolve_left fun hdone => ?_).2
  rw [hheld, abs_of_pos hunit, abs_of_pos (Policy.minimum_pos hcheck)] at hdone
  exact hdone.1.not_gt h

/-! ## Which policies carry out all exits -/

/-- **Which exits are carried out.** Under a policy that is accepted an exit of a session is carried out exactly if the
amount held is not below the smallest quantity, and otherwise it is left behind. Every exit of every session is carried
out, and no position is ever left fired, exactly if the step of the lots is not below the smallest quantity. -/
theorem carried_out_iff (hcheck : policy.check = .ok ()) :
    (∀ s e exit, Reachable policy s → s.exit? e = some exit →
        (CarriedOut policy s e exit ↔ policy.minimum ≤ |s.account.amount e.asset|) ∧
          (LeftFired policy s e exit ↔ |s.account.amount e.asset| < policy.minimum)) ∧
      ((∀ s e exit, Reachable policy s → s.exit? e = some exit → CarriedOut policy s e exit) ↔
        policy.minimum ≤ policy.lot.unit) ∧
      ((∀ s, Reachable policy s → s.account.NoneFired) ↔ policy.minimum ≤ policy.lot.unit) := by
  have hmin : |policy.minimum| = policy.minimum := abs_of_pos (Policy.minimum_pos hcheck)
  refine ⟨fun s e exit hs hexit => ?_, ⟨fun hall => ?_, fun hunit s e exit hs hexit => ?_⟩,
    ⟨fun hnone => ?_, fun hunit s hs => (hs.steady hcheck hunit).noneFired⟩⟩
  · rcases exit_cases policy (hs.all (Position.stable_sound _)) hexit with ⟨hle, hdone⟩ | ⟨hlt, hleft⟩
    · rw [hmin] at hle
      exact ⟨iff_of_true hdone hle, iff_of_false hdone.not_leftFired hle.not_gt⟩
    · rw [hmin] at hlt
      exact ⟨iff_of_false (fun hdone => hdone.not_leftFired hleft) hlt.not_ge, iff_of_true hleft hlt⟩
  · by_contra hlots
    obtain ⟨s, e, exit, hs, hexit, hleft⟩ := exists_leftFired hcheck (not_le.mp hlots)
    exact (hall s e exit hs hexit).not_leftFired hleft
  · exact (hs.steady hcheck hunit).carriedOut hexit
  · by_contra hlots
    obtain ⟨s, e, exit, hs, -, hleft⟩ := exists_leftFired hcheck (not_le.mp hlots)
    obtain ⟨p, hp, -, hfired⟩ := hleft.stays
    exact hnone _ (hs.handle e) hp hfired

/-- Under the usual policy every exit is carried out, and no position is left fired. -/
theorem carried_out_under_usual :
    (Policy.usual : Policy Rat).check = .ok () ∧
      (∀ s e exit, Reachable Policy.usual s → s.exit? e = some exit → CarriedOut Policy.usual s e exit) ∧
      ∀ s, Reachable (Policy.usual : Policy Rat) s → s.account.NoneFired := by
  have hcheck : (Policy.usual : Policy Rat).check = .ok () := by decide +kernel
  have hunit : (Policy.usual : Policy Rat).minimum ≤ (Policy.usual : Policy Rat).lot.unit := by decide +kernel
  obtain ⟨-, hall, hnone⟩ := carried_out_iff hcheck
  exact ⟨hcheck, hall.mpr hunit, hnone.mpr hunit⟩

/-- **A split leaves too little for an exit**: ten units with a stop-loss become half a unit where less than one counts
as nothing. The price that crosses the stop-loss is refused, and the position stays as one that has fired. -/
theorem exit_left_after_split :
    let policy := Policy.wholeUnits
    let s := ((start.handle policy (.fill "SPY" 10 100 none none ⟨some 90, none⟩)).1.handle policy (.split "SPY" 20)).1
    let mark : Event Rat := .mark "SPY" 1700 ⟨19724, 75600, 0⟩
    policy.check = .ok () ∧ Reachable policy s ∧ (s.exit? mark).isSome = true ∧
      (s.handle policy mark).2 = .error (.position (.fill (.dust (-1 / 2) 1))) ∧
      (s.handle policy mark).1.account.positions.map (fun p => (p.amount, p.trigger)) =
        [(1 / 2, .fired .stopLoss)] := by
  intro policy s mark
  exact ⟨by decide +kernel, .handle _ (.handle _ .start), by decide +kernel, by decide +kernel, by decide +kernel⟩

end Session

end Holdings
