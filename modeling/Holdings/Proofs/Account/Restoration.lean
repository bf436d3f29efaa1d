import Mathlib
import Holdings.Proofs.Account.Normalisation
import Holdings.Proofs.Rounding

/-!
# Restoring an account from its own snapshot

A record is checked again when it is read: its levels have to lie on their sides of the basis that is written
down with them. Levels were checked against the basis of their time, and a fill, a split or a charge may have
moved it since.

* `Position.Sound` — what every position of a reachable account keeps, whatever moves its basis;
* `Account.ofSnapshot_snapshot_iff` — a reachable account comes back from its snapshot as it is exactly if the
  levels of all its positions still stand.
-/

namespace Holdings

namespace Record

variable {r : Record Rat}

/-- In exact arithmetic the checks of a record ask that an amount is held, the last price is one, the levels pass their
own check, and a level is there if one was crossed. -/
theorem flaw?_eq_none_iff : r.flaw? = none ↔
    r.amount ≠ 0 ∧ 0 ≤ r.lastPrice ∧ r.bare.levelFault? r.levels.normalized = none ∧
      (r.hasFired = true → r.levels.normalized.isEmpty = false) := by
  simp [flaw?_eq_none_iff_checks]

theorem bare_isFlat (h : r.amount ≠ 0) : r.bare.isFlat = false := by
  simpa [bare, Position.isFlat] using h

end Record

/-! ## Positions of reachable accounts -/

namespace Position

/-- What a position keeps from when it is flat on. -/
structure Tidy (asset : Asset) (p : Position Rat) : Prop where
  /-- it is the one of its asset -/
  asset_eq : p.asset = asset
  /-- its last price is one -/
  lastPrice_nonneg : 0 ≤ p.lastPrice
  /-- no level is below zero -/
  levels_nonneg : p.levels.Nonneg
  /-- without levels nothing waits and nothing has fired -/
  disarmed : p.levels.isEmpty = true → p.trigger = .disarmed

/-- **The invariant of a position that is held.** It says nothing of the basis: the levels need not lie on their
sides of it. -/
structure Sound (asset : Asset) (p : Position Rat) : Prop extends Tidy asset p where
  /-- something is held -/
  amount_ne : p.amount ≠ 0

variable {asset : Asset} {p q : Position Rat}

theorem Sound.not_flat (h : p.Sound asset) : p.isFlat = false := by
  simpa [isFlat] using h.amount_ne

theorem tidy_flat (asset : Asset) : (flat asset : Position Rat).Tidy asset :=
  ⟨rfl, le_rfl, ExitLevels.nonneg_unset, fun _ => rfl⟩

theorem Tidy.withLevels (h : p.Tidy asset) {l : ExitLevels Rat} (hl : l.Nonneg) :
    (p.withLevels l).Tidy asset where
  asset_eq := h.asset_eq
  lastPrice_nonneg := h.lastPrice_nonneg
  levels_nonneg := hl
  disarmed he := if_pos (by rw [Bool.or_eq_true]; exact .inl he)

/-- Levels that are accepted are not below zero. -/
theorem Tidy.configure (h : p.Tidy asset) (hp : p.isFlat = false) {l : ExitLevels Rat}
    (hc : p.configure l = .ok q) : q.Tidy asset := by
  obtain ⟨hnone, rfl⟩ := configure_eq_ok hc
  exact h.withLevels ((levelFault?_eq_none_iff hp).mp hnone).1

/-- A fill keeps all but the amount of the invariant. -/
theorem Tidy.fill (h : p.Tidy asset) {s : Settlement Rat} {f : Fill Rat} {o : Outcome Rat}
    (hf : s.apply p f = .ok (o, q)) (ho : o.amount ≠ 0) : q.Sound asset := by
  have hamount : q.amount ≠ 0 := (Settlement.apply_position hf).2.1 ▸ ho
  obtain ⟨hfault, rfl, hq⟩ := Settlement.apply_eq_ok hf
  obtain ⟨hasset, hleft, -, hprice, hlevels⟩ := Settlement.settle_position s p f
  have hsettled : (s.settle p f).2.Tidy asset := by
    refine ⟨hasset.trans h.asset_eq, ?_, ?_, ?_⟩
    · rcases hprice with heq | heq <;> rw [heq]
      · exact h.lastPrice_nonneg
      · exact Settlement.price_of_fault?_eq_none hfault
    · rcases hlevels with ⟨heq, -⟩ | ⟨heq, -⟩ <;> rw [heq]
      · exact h.levels_nonneg
      · exact ExitLevels.nonneg_unset
    · rcases hlevels with ⟨heq, htrigger⟩ | ⟨-, htrigger⟩ <;> rw [htrigger]
      · rw [heq]
        exact h.disarmed
      · exact fun _ => rfl
  rcases hq with rfl | ⟨l, hl⟩
  · exact ⟨hsettled, hamount⟩
  · exact ⟨hsettled.configure (by simpa [isFlat, hleft] using ho) hl, hamount⟩

/-- A trigger that fires leaves the level that was crossed. -/
theorem Sound.trigger (h : p.Sound asset) {price : Rat} {time : Option Instant}
    {intent : ExitIntent Rat} (ht : p.trigger? price time = some (intent, q)) : q.Sound asset := by
  obtain ⟨-, -, reason, level, hcross, -, rfl⟩ := trigger?_eq_some ht
  have hpos : 0 < level := crossed?_pos hcross
  refine ⟨⟨h.asset_eq, h.lastPrice_nonneg, ?_, ?_⟩, h.amount_ne⟩
  · cases reason <;> exact ⟨by simp [ExitLevels.only, hpos.le], by simp [ExitLevels.only, hpos.le]⟩
  · cases reason <;> exact fun he => by cases he

/-- A split rounds basis and levels to the cent, each by itself. -/
theorem Tidy.split (h : p.Tidy asset) {ratio cash : Rat} {lot : Lot Rat} {target : Asset}
    (hs : p.split target ratio lot = .ok (cash, q)) : q.Tidy asset := by
  obtain ⟨-, hratio, ⟨-, rfl⟩ | ⟨-, hq⟩⟩ := split_eq_ok hs
  · exact h
  have hpos : 0 < ratio := by simpa using hratio
  have hscale : ∀ x : Rat, 0 ≤ x → 0 ≤ toCent (x * ratio) := fun x hx =>
    toCent_nonneg (mul_nonneg hx hpos.le)
  obtain rfl : q = (p.splitHeld ratio lot).2 := congrArg Prod.snd hq
  rw [splitHeld]
  dsimp only
  split
  · exact ⟨h.asset_eq, mul_nonneg h.lastPrice_nonneg hpos.le, ExitLevels.nonneg_unset, fun _ => rfl⟩
  · refine ⟨h.asset_eq, mul_nonneg h.lastPrice_nonneg hpos.le, h.levels_nonneg.map hscale hscale, ?_⟩
    intro he
    exact h.disarmed (by simpa [ExitLevels.isEmpty, ExitLevels.map] using he)

/-- A record that is accepted describes a position that an account can hold. -/
theorem sound_of_toPosition {r : Record Rat} (h : r.toPosition = .ok p) : p.Sound r.asset := by
  obtain ⟨hnone, rfl⟩ := Account.toPosition_eq_ok h
  obtain ⟨hamount, hprice, hlevels, hfired⟩ := Record.flaw?_eq_none_iff.mp hnone
  have hbare : r.bare.Tidy r.asset := ⟨rfl, hprice, ExitLevels.nonneg_unset, fun _ => rfl⟩
  have hnonneg := ((levelFault?_eq_none_iff (Record.bare_isFlat hamount)).mp hlevels).1
  have htidy := hbare.withLevels hnonneg
  rw [Record.rebuilt]
  split
  · exact ⟨htidy, hamount⟩
  · next hstate =>
    refine ⟨⟨rfl, hprice, hnonneg, fun he => ?_⟩, hamount⟩
    -- a record that says that a level was crossed has one
    rcases htrigger : r.trigger with - | reason | -
    · exact absurd htrigger hstate
    · have hset := hfired (by rw [Record.hasFired, htrigger])
      rw [show r.levels.normalized.isEmpty = true from he] at hset
      cases hset
    · rfl

/-- **Every operation keeps every position sound.** -/
theorem stable_sound (t : Terms Rat) : Account.Stable t Sound where
  fill hp hf _ ho := by
    rcases hp with hp | rfl
    · exact hp.toTidy.fill hf (by simpa using ho)
    · exact (tidy_flat _).fill hf (by simpa using ho)
  mark hp hm := by
    obtain ⟨hprice, rfl⟩ := mark_eq_ok hm
    exact ⟨⟨hp.asset_eq, by simpa using hprice, hp.levels_nonneg, hp.disarmed⟩, hp.amount_ne⟩
  configure hp hc := by
    refine ⟨hp.toTidy.configure hp.not_flat hc, ?_⟩
    obtain ⟨-, rfl⟩ := configure_eq_ok hc
    exact hp.amount_ne
  trigger hp ht := hp.trigger ht
  split hp hs hflat := ⟨hp.toTidy.split hs, by simpa [isFlat] using hflat⟩
  charge hp hc := by
    obtain ⟨basis, rfl⟩ := charge_eq_ok hc
    exact ⟨⟨hp.asset_eq, hp.lastPrice_nonneg, hp.levels_nonneg, hp.disarmed⟩, hp.amount_ne⟩
  rebuilt h := sound_of_toPosition h

/-! ## Records of sound positions -/

/-- The levels of a sound position stand exactly if none is zero and the check of levels lets them through. -/
theorem Sound.levelsStand_iff (h : p.Sound asset) :
    p.LevelsStand ↔ p.levels.normalized = p.levels ∧ p.levelFault? p.levels = none := by
  rw [ExitLevels.normalized_eq_self_iff, levelFault?_eq_none_iff h.not_flat]
  constructor
  · intro hs
    exact ⟨⟨fun x hx => (hs.stopLoss_pos x hx).ne', fun x hx => (hs.takeProfit_pos x hx).ne'⟩,
      h.levels_nonneg, hs.straddle⟩
  · rintro ⟨⟨hsl, htp⟩, hnonneg, hstraddle⟩
    exact ⟨fun x hx => (hnonneg.stopLoss x hx).lt_of_ne' (hsl x hx),
      fun x hx => (hnonneg.takeProfit x hx).lt_of_ne' (htp x hx), hstraddle⟩

/-- The check of levels looks at the asset, the amount and the basis. -/
theorem levelFault?_bare (p : Position Rat) (l : ExitLevels Rat) :
    (Record.ofPosition p).bare.levelFault? l = p.levelFault? l := rfl

/-- **A position comes back from its record as it is exactly if its levels stand.** -/
theorem Sound.toPosition_ofPosition_iff (h : p.Sound asset) :
    (Record.ofPosition p).toPosition = .ok p ↔ p.LevelsStand := by
  rw [h.levelsStand_iff]
  constructor
  · intro hok
    obtain ⟨hnone, heq⟩ := Account.toPosition_eq_ok hok
    obtain ⟨-, -, hlevels, -⟩ := Record.flaw?_eq_none_iff.mp hnone
    have hnormal : p.levels.normalized = p.levels := by
      have hread := (Record.rebuilt_levels (Record.ofPosition p)).symm.trans (congrArg levels heq.symm)
      rwa [Record.ofPosition_levels, ExitLevels.normalized_normalized] at hread
    rw [Record.ofPosition_levels, ExitLevels.normalized_normalized, hnormal, levelFault?_bare]
      at hlevels
    exact ⟨hnormal, hlevels⟩
  · rintro ⟨hnormal, hlevels⟩
    have hread : (Record.ofPosition p).levels.normalized = p.levels := by
      rw [Record.ofPosition_levels, ExitLevels.normalized_normalized, hnormal]
    have hset : p.trigger ≠ .disarmed → p.levels.isEmpty = false := fun hne => by
      simpa using mt h.disarmed hne
    have hnone : (Record.ofPosition p).flaw? = none := by
      refine Record.flaw?_eq_none_iff.mpr ⟨h.amount_ne, h.lastPrice_nonneg, ?_, fun hfired => ?_⟩
      · rw [hread, levelFault?_bare, hlevels]
      · rw [hread]
        refine hset fun hdisarmed => ?_
        rw [Record.hasFired, show (Record.ofPosition p).trigger = .disarmed from hdisarmed] at hfired
        cases hfired
    rw [Record.toPosition, hnone]
    refine congrArg Except.ok ?_
    rw [Record.rebuilt, hread]
    split
    · next harmed =>
      -- levels that wait are armed anew
      have harmed : p.trigger = .armed := harmed
      have hguard : (p.levels.isEmpty || (Record.ofPosition p).bare.isFlat) = false := by
        rw [hset (by simp [harmed]), Record.bare_isFlat h.amount_ne, Bool.or_self]
      rw [withLevels, hguard, if_neg Bool.false_ne_true, ← harmed]
      rfl
    · rfl

end Position

namespace Account

variable {a : Account Rat}

/-- The positions of an account are of different assets, each kept under its own. -/
theorem positions_pairwise (ha : All Position.Sound a) :
    a.positions.Pairwise fun p q => p.asset ≠ q.asset :=
  positions_distinct fun _ _ hp => (ha hp).asset_eq

/-- The book of the positions of an account is its book. -/
theorem ofList_positions (ha : All Position.Sound a) :
    Book.ofList (a.positions.map fun p => (p.asset, p)) = a.book := by
  rw [positions_eq_entries fun _ _ hp => (ha hp).asset_eq, Book.ofList_entries]

/-- The account after any run of operations. -/
theorem sound_run (t : Terms Rat) (ops : List (Operation Rat)) :
    All Position.Sound (empty.run t ops) :=
  All.run (Position.stable_sound t) ops all_empty

/-- **An account is restored from its own snapshot exactly if all its levels stand**: after any run of operations,
on any terms, the snapshot is accepted and gives the same account back if and only if every level that is set is
above zero and lies on its side of the basis that the position now has. -/
theorem ofSnapshot_snapshot_iff (t : Terms Rat) (ops : List (Operation Rat)) :
    ofSnapshot (empty.run t ops).snapshot = .ok (empty.run t ops) ↔
      ∀ p ∈ (empty.run t ops).positions, p.LevelsStand := by
  have hsound : All Position.Sound (empty.run t ops) := sound_run t ops
  generalize empty.run t ops = a at hsound
  have hread : ∀ p ∈ a.positions, (Record.ofPosition p).toPosition = .ok p ↔ p.LevelsStand := by
    intro p hp
    obtain ⟨asset, hget⟩ := Book.mem_values_iff.mp hp
    exact (hsound hget).toPosition_ofPosition_iff
  constructor
  · intro hok p hp
    obtain ⟨asset, hget⟩ := Book.mem_values_iff.mp hp
    obtain ⟨r, hr, hrp, hasset⟩ := ofSnapshot_eq_ok hok hget
    -- the record of the asset is the one of this position
    obtain ⟨q, hq, rfl⟩ := List.mem_map.mp hr
    obtain ⟨asset', hget'⟩ := Book.mem_values_iff.mp hq
    obtain rfl : asset' = asset := (hsound hget').asset_eq.symm.trans hasset
    obtain rfl : q = p := Option.some.inj (hget'.symm.trans hget)
    exact (hread q hp).mp hrp
  · intro hstand
    have hps : a.snapshot.toPositions = .ok a.positions :=
      rebuild_ofPosition (fun p hp => (hread p hp).mpr (hstand p hp)) (fun _ _ => List.not_mem_nil)
        (positions_pairwise hsound)
    rw [ofSnapshot, hps]
    change Except.ok (⟨Book.ofList (a.positions.map fun p => (p.asset, p)), a.realized⟩ : Account Rat) = _
    rw [ofList_positions hsound]

/-- Two purchases, the first with levels around its price. The second moves the basis to 150. -/
def averagedUp : List (Operation Rat) :=
  [.fill ⟨"SPY", 10, 100, 0, none, some ⟨some 90, some 120⟩⟩, .fill ⟨"SPY", 10, 200, 0, none, none⟩]

/-- **The basis leaves its levels behind**: an account that bought twice writes down a stop-loss of 90, a
take-profit of 120 and a basis of 150, and its own record is refused. -/
theorem restore_refused_of_averagedUp :
    (Policy.usual : Policy Rat).check = .ok () ∧
      ofSnapshot (empty.run (Policy.usual.terms fun _ => none) averagedUp).snapshot =
        .error ⟨"SPY", .levels (.straddle 90 120 150 true)⟩ := by
  constructor
  · decide +kernel
  · cbv

end Account

end Holdings
