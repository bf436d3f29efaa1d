import Mathlib
import Holdings.Proofs.Account.Restoration

/-!
# When levels stop standing

Levels are checked where they are set, and not looked at again. A fill that adds to a position and a charge move
the basis under them, and a split rounds basis and levels each by itself.

* `Account.Displaces` — the operations that take levels off their places: the new basis does not lie between the
  two levels, or a level is rounded to zero, or both to the same cent;
* `Account.levelsStand_perform_iff` — where all levels stand, they stand after an operation exactly if it is none of
  these;
* `Account.levelsStand_throughout_iff` — so they stand throughout a run exactly if none of these is in it.
-/

namespace Holdings

namespace ExitLevels

variable {long : Bool} {basis sl tp : Rat}

theorem straddles_iff : straddles long basis sl tp = true ↔
    if long then sl ≤ basis ∧ basis ≤ tp ∧ sl < tp else tp ≤ basis ∧ basis ≤ sl ∧ tp < sl := by
  cases long <;> simp [straddles, and_assoc]

/-- Two levels on their sides of a basis lie so to another one exactly if it is between them. -/
theorem straddles_iff_mem_uIcc (h : straddles long basis sl tp = true) (basis' : Rat) :
    straddles long basis' sl tp = true ↔ basis' ∈ Set.uIcc sl tp := by
  rw [straddles_iff] at h ⊢
  cases long with
  | true =>
    obtain ⟨-, -, hlt⟩ := h
    simp [Set.uIcc_of_lt hlt, hlt]
  | false =>
    obtain ⟨-, -, hlt⟩ := h
    simp [Set.uIcc_of_gt hlt, hlt]

/-- Changed with their basis in a way that keeps the order, two levels lie on their sides of it as long as they
stay two. -/
theorem straddles_map_iff (h : straddles long basis sl tp = true) {f : Rat → Rat} (hf : Monotone f) :
    straddles long (f basis) (f sl) (f tp) = true ↔ f sl ≠ f tp := by
  rw [straddles_iff] at h ⊢
  cases long with
  | true =>
    obtain ⟨hsl, htp, hlt⟩ := h
    simp [hf hsl, hf htp, (hf hlt.le).lt_iff_ne]
  | false =>
    obtain ⟨htp, hsl, hlt⟩ := h
    simp [hf hsl, hf htp, (hf hlt.le).lt_iff_ne, ne_comm]

/-- Two levels are set, and a basis does not lie between them. -/
def Excludes (l : ExitLevels Rat) (basis : Rat) : Prop :=
  ∃ sl ∈ l.stopLoss, ∃ tp ∈ l.takeProfit, basis ∉ Set.uIcc sl tp

/-- A change of prices takes a level that is set to zero, or two levels to the same price. -/
def Collapses (l : ExitLevels Rat) (f : Rat → Rat) : Prop :=
  (∃ x ∈ l.stopLoss, f x = 0) ∨ (∃ x ∈ l.takeProfit, f x = 0) ∨
    ∃ sl ∈ l.stopLoss, ∃ tp ∈ l.takeProfit, f sl = f tp

end ExitLevels

namespace Position

variable {p q : Position Rat}

/-! ## Changes after which levels stand -/

theorem levelsStand_of_unset (h : p.levels = .unset) : p.LevelsStand := by
  constructor <;> simp [h, ExitLevels.unset]

/-- Levels that pass their check stand. -/
theorem levelsStand_of_levelFault? {l : ExitLevels Rat} (hp : p.isFlat = false)
    (h : p.levelFault? l.normalized = none) (hlevels : q.levels = l.normalized)
    (hlong : q.isLong = p.isLong) (hbasis : q.basis = p.basis) : q.LevelsStand := by
  obtain ⟨hnonneg, hstraddle⟩ := (levelFault?_eq_none_iff hp).mp h
  refine ⟨fun x hx => ?_, fun x hx => ?_, ?_⟩
  · rw [hlevels] at hx
    exact (hnonneg.stopLoss x hx).lt_of_ne' (ExitLevels.mem_normalized_stopLoss.mp hx).2
  · rw [hlevels] at hx
    exact (hnonneg.takeProfit x hx).lt_of_ne' (ExitLevels.mem_normalized_takeProfit.mp hx).2
  · rw [hlevels, hlong, hbasis]
    exact hstraddle

theorem levelsStand_of_configure {l : ExitLevels Rat} (hp : p.isFlat = false)
    (h : p.configure l = .ok q) : q.LevelsStand := by
  obtain ⟨hnone, rfl⟩ := configure_eq_ok h
  exact levelsStand_of_levelFault? hp hnone rfl rfl rfl

theorem levelsStand_of_toPosition {r : Record Rat} (h : r.toPosition = .ok q) : q.LevelsStand := by
  obtain ⟨hnone, rfl⟩ := Account.toPosition_eq_ok h
  obtain ⟨hamount, -, hlevels, -⟩ := Record.flaw?_eq_none_iff.mp hnone
  refine levelsStand_of_levelFault? (Record.bare_isFlat hamount) hlevels r.rebuilt_levels ?_ ?_ <;>
    rw [Record.rebuilt] <;> split <;> rfl

/-- The level that was crossed is alone and above zero. -/
theorem levelsStand_of_trigger? {price : Rat} {time : Option Instant} {intent : ExitIntent Rat}
    (h : p.trigger? price time = some (intent, q)) : q.LevelsStand := by
  obtain ⟨-, -, reason, level, hcross, -, rfl⟩ := trigger?_eq_some h
  have hpos : 0 < level := crossed?_pos hcross
  cases reason <;> constructor <;> simp [ExitLevels.only, hpos]

/-! ## Changes of a position whose levels stand -/

/-- Where the levels are kept and the basis moves, they stand as long as it stays between them. -/
theorem LevelsStand.move_iff (h : p.LevelsStand) (hlevels : q.levels = p.levels)
    (hlong : q.isLong = p.isLong) : q.LevelsStand ↔ ¬p.levels.Excludes q.basis := by
  have hbetween : ∀ {sl tp : Rat}, sl ∈ p.levels.stopLoss → tp ∈ p.levels.takeProfit →
      (ExitLevels.straddles p.isLong q.basis sl tp = true ↔ q.basis ∈ Set.uIcc sl tp) :=
    fun hsl htp => ExitLevels.straddles_iff_mem_uIcc (h.straddle _ hsl _ htp) q.basis
  constructor
  · rintro hq ⟨sl, hsl, tp, htp, hout⟩
    have hstraddle := hq.straddle sl (hlevels ▸ hsl) tp (hlevels ▸ htp)
    rw [hlong] at hstraddle
    exact hout ((hbetween hsl htp).mp hstraddle)
  · intro hin
    refine ⟨hlevels ▸ h.stopLoss_pos, hlevels ▸ h.takeProfit_pos, fun sl hsl tp htp => ?_⟩
    rw [hlevels] at hsl htp
    rw [hlong]
    exact (hbetween hsl htp).mpr (by_contra fun hout => hin ⟨sl, hsl, tp, htp, hout⟩)

/-- **A charge** keeps levels standing as long as the basis stays between them. -/
theorem LevelsStand.charge_iff (h : p.LevelsStand) {instrument : Option (Instrument Rat)} {cost : Rat}
    (hc : p.charge instrument cost = .ok q) : q.LevelsStand ↔ ¬p.levels.Excludes q.basis := by
  obtain ⟨basis, rfl⟩ := charge_eq_ok hc
  exact h.move_iff rfl rfl

/-- The change of prices in a split of a ratio. -/
def rescale (ratio x : Rat) : Rat := toCent (x * ratio)

theorem rescale_mono {ratio : Rat} (h : 0 < ratio) : Monotone (rescale ratio) := fun _ _ hxy =>
  toCent_mono (mul_le_mul_of_nonneg_right hxy h.le)

/-- A split that leaves something keeps the side, and changes basis and levels alike. -/
theorem splitHeld_of_left {ratio : Rat} {lot : Lot Rat} (hratio : 0 < ratio)
    (hleft : lot.round (p.amount / ratio) ≠ 0) :
    (p.splitHeld ratio lot).2.isLong = p.isLong ∧
      (p.splitHeld ratio lot).2.basis = rescale ratio p.basis ∧
      (p.splitHeld ratio lot).2.levels = p.levels.map (rescale ratio) (rescale ratio) := by
  have hside : 0 < lot.round (p.amount / ratio) ↔ 0 < p.amount :=
    (Lot.round_pos_iff hleft).trans (div_pos_iff_of_pos_right hratio)
  rw [splitHeld_eq (by simpa using hleft)]
  exact ⟨decide_eq_decide.mpr hside, rfl, rfl⟩

/-- **A split** keeps levels standing as long as none is rounded away and two stay two. -/
theorem LevelsStand.split_iff (h : p.LevelsStand) {ratio : Rat} {lot : Lot Rat} (hratio : 0 < ratio)
    (hleft : lot.round (p.amount / ratio) ≠ 0) :
    (p.splitHeld ratio lot).2.LevelsStand ↔ ¬p.levels.Collapses (rescale ratio) := by
  obtain ⟨hlong, hbasis, hlevels⟩ := splitHeld_of_left hratio hleft
  have hnonneg : ∀ {x : Rat}, 0 < x → 0 ≤ rescale ratio x := fun hx =>
    toCent_nonneg (mul_pos hx hratio).le
  have hapart : ∀ {sl tp : Rat}, sl ∈ p.levels.stopLoss → tp ∈ p.levels.takeProfit →
      (ExitLevels.straddles p.isLong (rescale ratio p.basis) (rescale ratio sl) (rescale ratio tp) =
        true ↔ rescale ratio sl ≠ rescale ratio tp) := fun hsl htp =>
    ExitLevels.straddles_map_iff (h.straddle _ hsl _ htp) (rescale_mono hratio)
  constructor
  · rintro ⟨hslpos, htppos, hstraddle⟩
    rw [hlevels] at hslpos htppos
    rw [hlevels, hlong, hbasis] at hstraddle
    rintro (⟨x, hx, hzero⟩ | ⟨x, hx, hzero⟩ | ⟨sl, hsl, tp, htp, heq⟩)
    · exact (hslpos _ (Option.mem_map_of_mem _ hx)).ne' hzero
    · exact (htppos _ (Option.mem_map_of_mem _ hx)).ne' hzero
    · exact (hapart hsl htp).mp
        (hstraddle _ (Option.mem_map_of_mem _ hsl) _ (Option.mem_map_of_mem _ htp)) heq
  · intro hkept
    refine ⟨?_, ?_, ?_⟩ <;> rw [hlevels]
    · intro y hy
      obtain ⟨x, hx, rfl⟩ := Option.mem_map.mp hy
      exact (hnonneg (h.stopLoss_pos x hx)).lt_of_ne' fun hzero => hkept (.inl ⟨x, hx, hzero⟩)
    · intro y hy
      obtain ⟨x, hx, rfl⟩ := Option.mem_map.mp hy
      exact (hnonneg (h.takeProfit_pos x hx)).lt_of_ne' fun hzero =>
        hkept (.inr (.inl ⟨x, hx, hzero⟩))
    · rw [hlong, hbasis]
      intro y hy z hz
      obtain ⟨sl, hsl, rfl⟩ := Option.mem_map.mp hy
      obtain ⟨tp, htp, rfl⟩ := Option.mem_map.mp hz
      exact (hapart hsl htp).mpr fun heq => hkept (.inr (.inr ⟨sl, hsl, tp, htp, heq⟩))

/-- **A fill** keeps levels standing, unless it carries none, adds to the position and moves the basis out of them. -/
theorem LevelsStand.fill_iff (h : p.LevelsStand) (hp : p.isFlat = false) {s : Settlement Rat}
    {f : Fill Rat} {o : Outcome Rat} (hf : s.apply p f = .ok (o, q)) (ho : (o.amount == 0) = false) :
    q.LevelsStand ↔ ¬(f.levels = none ∧ o.kind = .increased ∧ p.levels.Excludes o.basis) := by
  obtain ⟨hfault, rfl, -⟩ := Settlement.apply_eq_ok hf
  have hfill := Settlement.fillFault?_of_fault? hfault
  have hleft : (s.settle p f).2.isFlat = false := by
    rw [isFlat, (Settlement.settle_position s p f).2.1, ho]
  rcases Settlement.apply_eq_ok_of_left hf ho with ⟨hnone, rfl⟩ | ⟨l, hl, hc⟩
  · rcases Settlement.settle_held_cases hfill hp ho with ⟨hkind, hlevels⟩ |
        ⟨hkind, hlevels, hbasis⟩ | ⟨hkind, hlevels⟩
    · have hlong := Settlement.isLong_settle hfill (.inl hkind)
      rw [h.move_iff hlevels hlong, (Settlement.settle_position s p f).2.2.1]
      simp [hnone, hkind]
    · have hlong := Settlement.isLong_settle hfill (.inr hkind)
      refine iff_of_true ?_ (by simp [hkind])
      exact ⟨hlevels ▸ h.stopLoss_pos, hlevels ▸ h.takeProfit_pos,
        by rw [hlevels, hlong, hbasis]; exact h.straddle⟩
    · exact iff_of_true (levelsStand_of_unset hlevels) (by simp [hkind])
  · -- the levels that the fill carries are checked against the new basis
    exact iff_of_true (levelsStand_of_configure hleft hc) (by simp [hl])

theorem levelsStand_of_fill_flat {asset : Asset} {s : Settlement Rat} {f : Fill Rat} {o : Outcome Rat}
    (hf : s.apply (.flat asset) f = .ok (o, q)) (ho : (o.amount == 0) = false) : q.LevelsStand := by
  obtain ⟨-, rfl, -⟩ := Settlement.apply_eq_ok hf
  rcases Settlement.apply_eq_ok_of_left hf ho with ⟨-, rfl⟩ | ⟨l, -, hc⟩
  · refine levelsStand_of_unset ((Settlement.settle_levels s _ f).trans ?_)
    split <;> rfl
  · refine levelsStand_of_configure ?_ hc
    rw [isFlat, (Settlement.settle_position s _ f).2.1, ho]

end Position

namespace Account

variable {t : Terms Rat} {a : Account Rat}

/-- The levels of every position stand. -/
def LevelsStand (a : Account Rat) : Prop := ∀ p ∈ a.positions, p.LevelsStand

theorem levelsStand_iff_get? :
    a.LevelsStand ↔ ∀ ⦃asset : Asset⦄ ⦃p : Position Rat⦄, a.get? asset = some p → p.LevelsStand := by
  simp only [LevelsStand, positions, Book.mem_values_iff]
  constructor
  · intro h asset p hp
    exact h p ⟨asset, hp⟩
  · rintro h p ⟨asset, hp⟩
    exact h hp

/-- **The operations that take levels off their places** although they are accepted. -/
inductive Displaces (t : Terms Rat) (a : Account Rat) : Operation Rat → Prop where
  /-- a fill without levels adds to a position, and the new basis is not between its two levels -/
  | fill {f : Fill Rat} {p q : Position Rat} {o : Outcome Rat} : a.get? f.asset = some p →
      f.levels = none → t.settlement.apply p f = .ok (o, q) → o.kind = .increased →
      p.levels.Excludes o.basis → Displaces t a (.fill f)
  /-- a charge moves the basis, and it is not between the two levels -/
  | charge {asset : Asset} {cost : Rat} {p q : Position Rat} : a.get? asset = some p →
      p.charge (t.instrument asset) cost = .ok q → p.levels.Excludes q.basis →
      Displaces t a (.charge asset cost)
  /-- a split that leaves something rounds a level to zero, or two levels to the same cent -/
  | split {asset : Asset} {ratio : Rat} {p : Position Rat} : a.get? asset = some p → 0 < ratio →
      t.lot.round (p.amount / ratio) ≠ 0 → p.levels.Collapses (Position.rescale ratio) →
      Displaces t a (.split asset ratio)

/-! ## What a displacing operation leaves -/

theorem get?_perform_fill {f : Fill Rat} {p q : Position Rat} {o : Outcome Rat}
    (hp : a.get? f.asset = some p) (hlevels : f.levels = none)
    (hf : t.settlement.apply p f = .ok (o, q)) (ho : (o.amount == 0) = false) :
    (a.perform t (.fill f)).get? f.asset = some q := by
  have hheld : a.held f.asset = p := by rw [held, hp, Option.getD_some]
  simp [perform, perform?, apply, hheld, onTicks_of_levels_none t a hlevels, hf, ho,
    Except.toOption, get?, keep, Book.get?_insert]

theorem get?_perform_charge {asset : Asset} {cost : Rat} {p q : Position Rat}
    (hp : a.get? asset = some p) (hc : p.charge (t.instrument asset) cost = .ok q) :
    (a.perform t (.charge asset cost)).get? asset = some q := by
  simp [perform, perform?, charge, hp, hc, Except.toOption, Except.map]

theorem get?_perform_split {asset : Asset} {ratio : Rat} {p : Position Rat}
    (hp : a.get? asset = some p) (hs : p.Sound asset) (hratio : 0 < ratio)
    (hleft : t.lot.round (p.amount / ratio) ≠ 0) :
    (a.perform t (.split asset ratio)).get? asset = some (p.splitHeld ratio t.lot).2 := by
  have hsplit : p.split asset ratio t.lot = .ok (p.splitHeld ratio t.lot) :=
    Position.split_of_held hs.asset_eq (by simpa using hratio) hs.not_flat t.lot
  have hflat : (p.splitHeld ratio t.lot).2.isFlat = false := by
    rw [Position.isFlat_splitHeld]
    simpa using hleft
  simp [perform, perform?, split, hp, hsplit, hflat, Except.toOption, Except.map]

/-! ## Standing throughout a run -/

/-- **Where all levels stand**, they stand after an operation exactly if it does not take any off its place. -/
theorem levelsStand_perform_iff (ha : All Position.Sound a) (hstand : a.LevelsStand)
    (op : Operation Rat) : (a.perform t op).LevelsStand ↔ ¬a.Displaces t op := by
  rw [levelsStand_iff_get?] at hstand ⊢
  constructor
  · rintro hafter (⟨hp, hnone, hf, hkind, hout⟩ | ⟨hp, hc, hout⟩ | ⟨hp, hratio, hleft, hout⟩)
    · obtain ⟨hfault, hsettle, -⟩ := Settlement.apply_eq_ok hf
      have ho := Settlement.left_of_increased (Settlement.fillFault?_of_fault? hfault)
        (hsettle ▸ hkind)
      rw [← hsettle] at ho
      have hq := hafter (get?_perform_fill hp hnone hf ho)
      exact ((hstand hp).fill_iff (ha hp).not_flat hf ho).mp hq ⟨hnone, hkind, hout⟩
    · have hq := hafter (get?_perform_charge hp hc)
      exact ((hstand hp).charge_iff hc).mp hq hout
    · have hq := hafter (get?_perform_split hp (ha hp) hratio hleft)
      exact ((hstand hp).split_iff hratio hleft).mp hq hout
  · intro hkept asset q hq
    rcases get?_perform_cases hq with hsame | ⟨-, hleaves⟩
    · exact hstand hsame
    · generalize hx : a.get? asset = x at hleaves
      cases hleaves with
      | @fill _ f _ _ _ hasset hf ho =>
        cases x with
        | none => exact Position.levelsStand_of_fill_flat hf ho
        | some p =>
          refine ((hstand hx).fill_iff (ha hx).not_flat hf ho).mpr ?_
          rintro ⟨hnone, hkind, hout⟩
          -- a fill that carries no levels is the same on the ticks
          have hsame : f.levels = none := Option.map_eq_none_iff.mp hnone
          rw [hsame, Option.map_none, ← hsame] at hf
          exact hkept (.fill (hasset ▸ hx) hsame hf hkind hout)
      | mark hm =>
        obtain ⟨-, rfl⟩ := Position.mark_eq_ok hm
        exact ⟨(hstand hx).stopLoss_pos, (hstand hx).takeProfit_pos, (hstand hx).straddle⟩
      | levels hc => exact Position.levelsStand_of_configure (ha hx).not_flat hc
      | trigger ht => exact Position.levelsStand_of_trigger? ht
      | triggerAll _ ht => exact Position.levelsStand_of_trigger? ht
      | @split p _ ratio cash hs hflat =>
        obtain ⟨-, hratio, ⟨-, rfl⟩ | ⟨-, hheld⟩⟩ := Position.split_eq_ok hs
        · exact hstand hx
        · obtain rfl : q = (p.splitHeld ratio t.lot).2 := congrArg Prod.snd hheld
          have hpos : 0 < ratio := by simpa using hratio
          have hleft : t.lot.round (p.amount / ratio) ≠ 0 := by
            simpa [Position.isFlat_splitHeld] using hflat
          exact ((hstand hx).split_iff hpos hleft).mpr fun hout => hkept (.split hx hpos hleft hout)
      | charge hc =>
        exact ((hstand hx).charge_iff hc).mpr fun hout => hkept (.charge hx hc hout)
      | restore _ hr _ => exact Position.levelsStand_of_toPosition hr

/-- **All levels stand throughout a run** exactly if no operation in it takes any off its place. -/
theorem levelsStand_throughout_iff (t : Terms Rat) (ops : List (Operation Rat)) :
    (∀ done, done <+: ops → (empty.run t done).LevelsStand) ↔
      ∀ done op, done ++ [op] <+: ops → ¬(empty.run t done).Displaces t op := by
  have hrun : ∀ done op, empty.run t (done ++ [op]) = (empty.run t done).perform t op :=
    fun done op => run_append t empty done [op]
  have hpart : ∀ {done op}, done ++ [op] <+: ops → done <+: ops := fun hpre =>
    (List.prefix_append _ _).trans hpre
  constructor
  · intro hall done op hpre
    have hafter := hall _ hpre
    rw [hrun] at hafter
    exact (levelsStand_perform_iff (sound_run t done) (hall done (hpart hpre)) op).mp hafter
  · intro hkept done
    induction done using List.reverseRecOn with
    | nil =>
      intro _ p hp
      cases hp
    | append_singleton done op ih =>
      intro hpre
      rw [hrun]
      exact (levelsStand_perform_iff (sound_run t done) (ih (hpart hpre)) op).mpr (hkept done op hpre)

/-- **Two levels and a basis beyond them**: after two purchases of ten shares, at 100 with levels of 90 and 120 and
then at 200, the basis is 150. -/
theorem averagedUp_displaced :
    (Policy.usual : Policy Rat).check = .ok () ∧
      ∃ p ∈ (empty.run (Policy.usual.terms fun _ => none) averagedUp).positions,
        p.isLong = true ∧ p.levels = ⟨some 90, some 120⟩ ∧ p.basis = 150 ∧ ¬p.LevelsStand := by
  have hheld : (empty.run (Policy.usual.terms fun _ => none) averagedUp).positions =
      [⟨"SPY", 20, 150, 0, none, ⟨some 90, some 120⟩, .armed⟩] := by decide +kernel
  refine ⟨by decide +kernel, _, hheld ▸ List.mem_singleton_self _, rfl, rfl, rfl, fun hstand => ?_⟩
  have hstraddle := hstand.straddle 90 rfl 120 rfl
  revert hstraddle
  decide +kernel

end Account

end Holdings
