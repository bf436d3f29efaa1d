import Mathlib
import Holdings.Proofs.Account.Operation
import Holdings.Proofs.Levels

/-!
# The trigger of a position and its levels

The levels of a position and its trigger are written in many places: levels are set, cleared when the other one is
crossed, moved by a split, taken off with the position, and read back from a record.

* `Position.stable_held` — what is kept under an asset is a position in it, and never a flat one;
* `Position.TriggerFits` — the trigger says which levels are set, and every change of a position keeps that;
* `Account.trigger_fits_throughout` — so it is after any run that restores no snapshot but its own.
-/

namespace Holdings

variable {α : Type} [Quantity α]

namespace Record

variable {r : Record α}

/-- **The checks of a record**, all of them: its amount, its basis, its last price, its levels, and that there is one if
one was crossed. -/
theorem flaw?_eq_none_iff_checks : r.flaw? = none ↔
    Quantity.isFinite r.amount = true ∧ (r.amount == 0) = false ∧ Quantity.isFinite r.basis = true ∧
      Quantity.isNoPrice r.lastPrice = false ∧ r.bare.levelFault? r.levels.normalized = none ∧
        (r.hasFired = true → r.levels.normalized.isEmpty = false) := by
  rw [flaw?]
  rcases Quantity.isFinite r.amount with - | - <;> rcases r.amount == 0 with - | - <;>
    rcases Quantity.isFinite r.basis with - | - <;> rcases Quantity.isNoPrice r.lastPrice with - | - <;>
    rcases r.bare.levelFault? r.levels.normalized with - | cause <;> simp

/-- A record that is accepted has an amount, and a level if it says that one was crossed. -/
theorem held_of_flaw? (h : r.flaw? = none) :
    r.bare.isFlat = false ∧ (r.hasFired = true → r.levels.normalized.isEmpty = false) := by
  obtain ⟨-, hamount, -, -, -, hfired⟩ := flaw?_eq_none_iff_checks.mp h
  exact ⟨hamount, hfired⟩

theorem rebuilt_amount (r : Record α) : r.rebuilt.amount = r.amount := by
  rw [rebuilt]
  split <;> rfl

theorem rebuilt_levels (r : Record α) : r.rebuilt.levels = r.levels.normalized := by
  rw [rebuilt]
  split <;> rfl

theorem ofPosition_levels [Quantity.LawfulZero α] (p : Position α) :
    (ofPosition p).levels = p.levels.normalized :=
  ExitLevels.ofSentinels_sentinels p.levels

end Record

namespace Position

variable {p q : Position α}

/-! ## What is held -/

/-- A position in an asset, and not a flat one. -/
structure Held (asset : Asset) (p : Position α) : Prop where
  /-- it is the one of the asset -/
  asset_eq : p.asset = asset
  /-- something is held -/
  not_flat : p.isFlat = false

/-- A record that is accepted describes a position that is held. -/
theorem held_of_toPosition {r : Record α} (h : r.toPosition = .ok p) : p.Held r.asset := by
  obtain ⟨hnone, rfl⟩ := Account.toPosition_eq_ok h
  refine ⟨Account.rebuilt_asset r, ?_⟩
  rw [isFlat, Record.rebuilt_amount]
  exact (Record.held_of_flaw? hnone).1

/-- **Whatever is kept under an asset is a position in it**, and never a flat one. -/
theorem stable_held (t : Terms α) : Account.Stable t (Held (α := α)) where
  fill hp hf _ ho := by
    obtain ⟨hasset, hamount, -⟩ := Settlement.apply_position hf
    refine ⟨?_, by rwa [isFlat, hamount]⟩
    rcases hp with hp | rfl
    · exact hasset.trans hp.asset_eq
    · exact hasset
  mark hp hm := by
    obtain ⟨-, rfl⟩ := mark_eq_ok hm
    exact ⟨hp.asset_eq, hp.not_flat⟩
  configure hp hc := by
    obtain ⟨-, rfl⟩ := configure_eq_ok hc
    exact ⟨hp.asset_eq, hp.not_flat⟩
  trigger hp ht := by
    obtain ⟨-, -, reason, level, -, -, rfl⟩ := trigger?_eq_some ht
    exact ⟨hp.asset_eq, hp.not_flat⟩
  split hp hs hflat := by
    obtain ⟨-, -, ⟨-, rfl⟩ | ⟨-, hq⟩⟩ := split_eq_ok hs
    · exact hp
    · obtain rfl := congrArg Prod.snd hq
      refine ⟨?_, hflat⟩
      rw [splitHeld]
      dsimp only
      split <;> exact hp.asset_eq
  charge hp hc := by
    obtain ⟨basis, rfl⟩ := charge_eq_ok hc
    exact ⟨hp.asset_eq, hp.not_flat⟩
  rebuilt h := held_of_toPosition h

/-! ## Triggers that fit -/

/-- **What the trigger of a position says of its levels**: it is disarmed exactly if there are none, and where one was
crossed that one alone is left. -/
structure TriggerFits (p : Position α) : Prop where
  /-- disarmed means that no level is set -/
  disarmed_iff : p.trigger = .disarmed ↔ p.levels.isEmpty = true
  /-- the level that was crossed is set and the other one is not -/
  fired : ∀ reason, p.trigger = .fired reason → ∃ level, p.levels = .only reason level

omit [Quantity α] in
theorem triggerFits_of_unset (hlevels : p.levels = .unset) (htrigger : p.trigger = .disarmed) :
    p.TriggerFits :=
  ⟨by simp [hlevels, htrigger, ExitLevels.unset, ExitLevels.isEmpty], by simp [htrigger]⟩

omit [Quantity α] in
/-- It fits a position with the same trigger and the same levels. -/
theorem TriggerFits.congr (h : p.TriggerFits) (hlevels : q.levels = p.levels)
    (htrigger : q.trigger = p.trigger) : q.TriggerFits :=
  ⟨by rw [hlevels, htrigger]; exact h.disarmed_iff, by rw [hlevels, htrigger]; exact h.fired⟩

/-- Levels that are put on a position are armed. -/
theorem triggerFits_withLevels (hp : p.isFlat = false) (l : ExitLevels α) :
    (p.withLevels l).TriggerFits := by
  rcases hl : l.isEmpty with - | - <;> constructor <;> simp [withLevels, hl, hp]

theorem triggerFits_of_configure (hp : p.isFlat = false) {l : ExitLevels α}
    (h : p.configure l = .ok q) : q.TriggerFits := by
  obtain ⟨-, rfl⟩ := configure_eq_ok h
  exact triggerFits_withLevels hp _

/-- The level that was crossed is the one that is left. -/
theorem triggerFits_of_trigger? {price : α} {time : Option Instant} {intent : ExitIntent α}
    (h : p.trigger? price time = some (intent, q)) : q.TriggerFits := by
  obtain ⟨-, -, reason, level, -, -, rfl⟩ := trigger?_eq_some h
  cases reason <;> constructor <;> simp [ExitLevels.only, ExitLevels.isEmpty]

/-- A fill keeps levels and trigger, takes both off, or puts new levels on. -/
theorem TriggerFits.fill (h : p.TriggerFits) {s : Settlement α} {f : Fill α} {o : Outcome α}
    (hf : s.apply p f = .ok (o, q)) (ho : (o.amount == 0) = false) : q.TriggerFits := by
  obtain ⟨-, rfl, -⟩ := Settlement.apply_eq_ok hf
  obtain ⟨-, hamount, -, -, hlevels⟩ := Settlement.settle_position s p f
  rcases Settlement.apply_eq_ok_of_left hf ho with ⟨-, rfl⟩ | ⟨l, -, hc⟩
  · rcases hlevels with ⟨hlevels, htrigger⟩ | ⟨hlevels, htrigger⟩
    · exact h.congr hlevels htrigger
    · exact triggerFits_of_unset hlevels htrigger
  · exact triggerFits_of_configure (by rwa [isFlat, hamount]) hc

/-- A split moves each level that is set and sets no other. -/
theorem TriggerFits.split (h : p.TriggerFits) {asset : Asset} {ratio cash : α} {lot : Lot α}
    (hs : p.split asset ratio lot = .ok (cash, q)) : q.TriggerFits := by
  obtain ⟨-, -, ⟨-, rfl⟩ | ⟨-, hq⟩⟩ := split_eq_ok hs
  · exact h
  · obtain rfl := congrArg Prod.snd hq
    rw [splitHeld]
    dsimp only
    split
    · exact triggerFits_of_unset rfl rfl
    · refine ⟨?_, fun reason hfired => ?_⟩
      · simpa [ExitLevels.isEmpty, ExitLevels.map] using h.disarmed_iff
      · obtain ⟨level, hlevel⟩ := h.fired reason hfired
        refine ⟨toCent (level * ratio), ?_⟩
        cases reason <;> simp [hlevel, ExitLevels.only, ExitLevels.map]

/-- **A position whose trigger fits comes back from its own record as one whose trigger fits**, if it comes back.
Levels that count for nothing are lost on the way. -/
theorem TriggerFits.rebuilt [Quantity.LawfulZero α] (h : p.TriggerFits)
    (hr : (Record.ofPosition p).toPosition = .ok q) : q.TriggerFits := by
  obtain ⟨hnone, rfl⟩ := Account.toPosition_eq_ok hr
  obtain ⟨hamount, hlevel⟩ := Record.held_of_flaw? hnone
  have hread : (Record.ofPosition p).levels.normalized = p.levels.normalized := by
    rw [Record.ofPosition_levels, ExitLevels.normalized_normalized]
  have htrigger : (Record.ofPosition p).trigger = p.trigger := rfl
  rcases hstate : p.trigger with - | reason | -
  · rw [Record.rebuilt, htrigger, hstate]
    exact triggerFits_withLevels hamount _
  · obtain ⟨level, honly⟩ := h.fired reason hstate
    have hset := hlevel (by rw [Record.hasFired, htrigger, hstate])
    rw [hread, honly] at hset
    -- the level that was crossed counts, or the record would have been refused
    have hkept : (ExitLevels.only reason level).normalized = .only reason level := by
      refine (ExitLevels.normalized_only reason level).resolve_left fun hlost => ?_
      rw [hlost] at hset
      cases hset
    have hq : (Record.ofPosition p).rebuilt.levels = .only reason level := by
      rw [Record.rebuilt_levels, hread, honly, hkept]
    have hfired : (Record.ofPosition p).rebuilt.trigger = .fired reason := by
      rw [Record.rebuilt, htrigger, hstate]
    refine ⟨?_, fun reason' hreason' => ⟨level, ?_⟩⟩
    · rw [hfired, hq, ← hkept, hset]
      simp
    · rw [hq, TriggerState.fired.inj (hfired.symm.trans hreason')]
  · refine triggerFits_of_unset ?_ ?_
    · rw [Record.rebuilt_levels, hread, ExitLevels.isEmpty_iff.mp (h.disarmed_iff.mp hstate)]
      rfl
    · rw [Record.rebuilt, htrigger, hstate]

end Position

namespace Account

variable {t : Terms α} {a : Account α}

/-- An exit of an account is one of the asset that was looked at. -/
theorem asset_of_trigger? (ha : All Position.Held a) {b : Account α} {asset : Asset} {price : α}
    {time : Option Instant} {intent : ExitIntent α}
    (h : a.trigger? asset price time = some (intent, b)) : intent.asset = asset := by
  obtain ⟨p, q, hp, hfire, -⟩ := trigger?_eq_some h
  exact (Position.asset_of_trigger? hfire).trans (ha hp).asset_eq

/-! ## Runs that restore nothing foreign -/

/-- The trigger of every position fits. -/
def TriggersFit (a : Account α) : Prop := All (fun _ p => p.TriggerFits) a

/-- A run in which every snapshot that is restored was taken earlier in it. -/
inductive RestoresOwn (t : Terms α) : List (Operation α) → Prop where
  /-- nothing is done -/
  | nil : RestoresOwn t []
  /-- something is done that restores nothing -/
  | other {ops : List (Operation α)} {op : Operation α} : RestoresOwn t ops →
      (∀ s, op ≠ .restore s) → RestoresOwn t (ops ++ [op])
  /-- the snapshot of an account that the run went through is restored -/
  | restore {ops earlier : List (Operation α)} : RestoresOwn t ops → earlier <+: ops →
      RestoresOwn t (ops ++ [.restore (empty.run t earlier).snapshot])

variable [Quantity.LawfulZero α]

/-- **One operation keeps every trigger fitting**, if a snapshot that it restores is one of an account in which every
trigger fits. -/
theorem TriggersFit.perform (ha : TriggersFit a) (hheld : All Position.Held a) {op : Operation α}
    (hown : ∀ s, op = .restore s → ∃ b : Account α, TriggersFit b ∧ s = b.snapshot) :
    TriggersFit (a.perform t op) := by
  intro asset q hq
  rcases get?_perform_cases hq with hsame | ⟨-, hleaves⟩
  · exact ha hsame
  · generalize hx : a.get? asset = x at hleaves
    cases hleaves with
    | fill _ hf ho =>
      cases x with
      | none => exact (Position.triggerFits_of_unset rfl rfl).fill hf ho
      | some p => exact (ha hx).fill hf ho
    | mark hm =>
      obtain ⟨-, rfl⟩ := Position.mark_eq_ok hm
      exact (ha hx).congr rfl rfl
    | levels hc => exact Position.triggerFits_of_configure (hheld hx).not_flat hc
    | trigger ht => exact Position.triggerFits_of_trigger? ht
    | triggerAll _ ht => exact Position.triggerFits_of_trigger? ht
    | split hs _ => exact (ha hx).split hs
    | charge hc =>
      obtain ⟨basis, rfl⟩ := Position.charge_eq_ok hc
      exact (ha hx).congr rfl rfl
    | @restore _ s _ _ hr hrq _ =>
      obtain ⟨b, hb, rfl⟩ := hown s rfl
      obtain ⟨p, hp, rfl⟩ := List.mem_map.mp hr
      obtain ⟨asset', hget⟩ := Book.mem_values_iff.mp hp
      exact (hb hget).rebuilt hrq

/-- Every trigger fits in every account that such a run goes through. -/
theorem RestoresOwn.triggersFit {ops : List (Operation α)} (h : RestoresOwn t ops) :
    ∀ earlier, earlier <+: ops → TriggersFit (empty.run t earlier) := by
  have hstep : ∀ {done op}, TriggersFit (empty.run t done) →
      (∀ s, op = .restore s → ∃ b : Account α, TriggersFit b ∧ s = b.snapshot) →
      TriggersFit (empty.run t (done ++ [op])) := fun {done op} hdone hown => by
    rw [run_append]
    exact hdone.perform (All.run (Position.stable_held t) done all_empty) hown
  induction h with
  | nil =>
    intro earlier hpre
    obtain rfl := List.prefix_nil.mp hpre
    exact all_empty
  | @other ops op _ hother ih =>
    intro earlier hpre
    rcases List.prefix_concat_iff.mp hpre with rfl | hpre
    · exact hstep (ih ops List.prefix_rfl) fun s hs => absurd hs (hother s)
    · exact ih earlier hpre
  | @restore ops taken _ htaken ih =>
    intro earlier hpre
    rcases List.prefix_concat_iff.mp hpre with rfl | hpre
    · refine hstep (ih ops List.prefix_rfl) fun s hs => ⟨_, ih taken htaken, ?_⟩
      exact (Operation.restore.inj hs).symm
    · exact ih earlier hpre

/-- **The book throughout a run** that restores no snapshot but its own: what is kept under an asset is a position in
it that is not flat. It is disarmed exactly if no level is set, so that a position that is armed has one; and where a
level was crossed that level is set and the other one is not. -/
theorem trigger_fits_throughout {ops : List (Operation α)} (h : RestoresOwn t ops) :
    ∀ asset p, (asset, p) ∈ (empty.run t ops).book.entries →
      p.asset = asset ∧ p.isFlat = false ∧
      (p.trigger = .disarmed ↔ p.levels = .unset) ∧
      (p.trigger = .armed → p.levels ≠ .unset) ∧
      ∀ reason, p.trigger = .fired reason → ∃ level, p.levels = .only reason level := by
  intro asset p hp
  have hget : (empty.run t ops).get? asset = some p := Book.get?_eq_some_iff.mpr hp
  have hheld : p.Held asset := All.run (Position.stable_held t) ops all_empty hget
  have hfits : p.TriggerFits := h.triggersFit ops List.prefix_rfl hget
  have hdisarmed : p.trigger = .disarmed ↔ p.levels = .unset :=
    hfits.disarmed_iff.trans ExitLevels.isEmpty_iff
  refine ⟨hheld.asset_eq, hheld.not_flat, hdisarmed, fun harmed hunset => ?_, hfits.fired⟩
  rw [hdisarmed.mpr hunset] at harmed
  cases harmed

/-- The usual terms, in the numbers that are computed with. -/
def usualTerms : Terms Float := Policy.usual.terms fun _ => none

/-- A purchase with two levels. -/
def guarded : List (Operation Float) :=
  [.fill ⟨"SPY", 10, 100, 0, none, some ⟨some 90, some 120⟩⟩]

/-- The take-profit of the purchase is crossed, the account is taken back to before that, and then the stop-loss is
crossed. -/
def takenBack : List (Operation Float) :=
  guarded ++ [.trigger "SPY" 121 none] ++ [.restore (empty.run usualTerms guarded).snapshot] ++
    [.trigger "SPY" 89 none]

/-- After that the stop-loss alone is set. -/
theorem trigger_fits_takenBack :
    RestoresOwn usualTerms takenBack ∧
      ∃ p, ("SPY", p) ∈ (empty.run usualTerms takenBack).book.entries ∧
        p.trigger = .fired .stopLoss ∧ ∃ level, p.levels = .only .stopLoss level := by
  have hown : RestoresOwn usualTerms takenBack :=
    (((RestoresOwn.nil.other (by simp)).other (by simp)).restore (List.prefix_append ..)).other
      (by simp)
  have hend : (empty.run usualTerms takenBack).book.entries.map (fun e => (e.1, e.2.trigger)) =
      [("SPY", .fired .stopLoss)] := by decide +kernel
  obtain ⟨⟨asset, p⟩, hp, heq⟩ := List.mem_map.mp (hend ▸ List.mem_singleton_self _)
  obtain ⟨rfl, hfired⟩ := Prod.mk.inj heq
  obtain ⟨-, -, -, -, hlevels⟩ := trigger_fits_throughout hown "SPY" p hp
  exact ⟨hown, p, hp, hfired, hlevels .stopLoss hfired⟩

end Account

end Holdings
