import Mathlib
import Holdings.Proofs.Account.Trigger

/-!
# Snapshots in normal form

A snapshot that is restored and taken again need not be the one that was restored: its records may have stood in
another order, levels of zero do not count, and only what has a level can wait for it.

* `Record.normal` — a record as it is written down after it was read;
* `Account.ofSnapshot_snapshot` — an account comes back from its own snapshot if each of its positions comes back from
  its own record;
* `Snapshot.retaken?_retaken` — what was restored and taken again once stays as it is.
-/

namespace Holdings

variable {α : Type} [Quantity α]

/-! ## Records in normal form -/

namespace Record

variable {r : Record α}

/-- The trigger of a position that is read from a record: it waits only if there is a level. -/
def triggerRead (r : Record α) : TriggerState :=
  if r.trigger = .armed && r.levels.isEmpty then .disarmed else r.trigger

/-- A record as it is written down after it was read. -/
def normal (r : Record α) : Record α :=
  { r with
    takeProfit := r.levels.sentinels.2
    stopLoss := r.levels.sentinels.1
    trigger := r.triggerRead }

theorem hasFired_normal (r : Record α) : r.normal.hasFired = r.hasFired := by
  rcases htrigger : r.trigger with - | reason | - <;> rcases hempty : r.levels.isEmpty with - | - <;>
    simp [hasFired, normal, triggerRead, htrigger, hempty]

/-- The position of a record, in one piece. -/
theorem rebuilt_eq (h : r.bare.isFlat = false) :
    r.rebuilt = { r.bare with levels := r.levels, trigger := r.triggerRead } := by
  have hlevels : r.levels.normalized = r.levels := ExitLevels.normalized_ofSentinels ..
  rcases htrigger : r.trigger with - | reason | - <;>
    simp [rebuilt, triggerRead, htrigger, hlevels, Position.withLevels, h]

/-- **A position that was read is written down in normal form.** -/
theorem ofPosition_rebuilt (h : r.flaw? = none) : ofPosition r.rebuilt = r.normal := by
  rw [rebuilt_eq (held_of_flaw? h).1]
  rfl

variable [Quantity.LawfulZero α]

@[simp] theorem levels_normal (r : Record α) : r.normal.levels = r.levels :=
  (ExitLevels.ofSentinels_sentinels r.levels).trans (ExitLevels.normalized_ofSentinels ..)

@[simp] theorem triggerRead_normal (r : Record α) : r.normal.triggerRead = r.triggerRead := by
  have htrigger : r.normal.trigger = r.triggerRead := rfl
  rw [triggerRead, htrigger, levels_normal, triggerRead]
  split_ifs <;> simp_all

/-- **The normal form of a record has the flaws of the record.** -/
theorem flaw?_normal (r : Record α) : r.normal.flaw? = r.flaw? := by
  have hbare : r.normal.bare = r.bare := rfl
  rw [flaw?, flaw?, levels_normal, hbare, hasFired_normal]
  rfl

/-- **The normal form of a record is read as the record is.** -/
theorem toPosition_normal (h : r.flaw? = none) : r.normal.toPosition = .ok r.rebuilt := by
  have hflat : r.bare.isFlat = false := (held_of_flaw? h).1
  rw [Account.toPosition_of_flaw? ((flaw?_normal r).trans h), rebuilt_eq hflat,
    rebuilt_eq (r := r.normal) hflat, levels_normal, triggerRead_normal]
  rfl

end Record

/-! ## Accounts and their own snapshots -/

namespace Account

variable {a : Account α}

omit [Quantity α] in
/-- Positions that are kept under their own assets are the entries of the book. -/
theorem positions_eq_entries (h : All (fun asset p => p.asset = asset) a) :
    a.positions.map (fun p => (p.asset, p)) = a.book.entries := by
  rw [positions, Book.values, List.map_map]
  refine (List.map_congr_left fun e he => ?_).trans (List.map_id _)
  exact Prod.ext (h (Book.get?_eq_some_iff.mpr he)) rfl

omit [Quantity α] in
/-- The positions are in the order of their assets. -/
theorem positions_rising (h : All (fun asset p => p.asset = asset) a) :
    (a.positions.map Position.asset).Pairwise (· < ·) := by
  have hassets : a.positions.map Position.asset = a.book.assets := by
    rw [Book.assets, ← positions_eq_entries h, List.map_map]
    rfl
  rw [hassets]
  exact a.book.assets_rising

omit [Quantity α] in
theorem positions_distinct (h : All (fun asset p => p.asset = asset) a) :
    a.positions.Pairwise fun p q => p.asset ≠ q.asset :=
  List.pairwise_map.mp ((positions_rising h).imp fun {_ _} => String.ne_of_lt)

/-- Records of positions of different assets are read one by one. -/
theorem rebuild_ofPosition {ps : List (Position α)} {seen : List Asset}
    (hread : ∀ p ∈ ps, (Record.ofPosition p).toPosition = .ok p) (hseen : ∀ p ∈ ps, p.asset ∉ seen)
    (hpair : ps.Pairwise fun p q => p.asset ≠ q.asset) :
    Snapshot.rebuild seen (ps.map Record.ofPosition) = .ok ps := by
  have hnodup : ((ps.map Record.ofPosition).map Record.asset).Nodup := by
    rw [List.map_map]
    exact List.pairwise_map.mpr hpair
  refine rebuild_eq_ok_iff.mpr ⟨hnodup, List.forall_mem_map.mpr hseen, ?_, ?_⟩
  · exact List.forall_mem_map.mpr fun p hp => (toPosition_eq_ok (hread p hp)).1
  · rw [List.map_map]
    refine (List.map_id ps).symm.trans (List.map_congr_left fun p hp => ?_)
    exact (toPosition_eq_ok (hread p hp)).2

/-- **An account comes back from its own snapshot** if each of its positions comes back from its own record. -/
theorem ofSnapshot_snapshot (h : All (fun asset p => p.asset = asset) a)
    (hread : ∀ p ∈ a.positions, (Record.ofPosition p).toPosition = .ok p) :
    ofSnapshot a.snapshot = .ok a := by
  have hps : a.snapshot.toPositions = .ok a.positions :=
    rebuild_ofPosition hread (fun _ _ => List.not_mem_nil) (positions_distinct h)
  rw [ofSnapshot, hps]
  change Except.ok (⟨Book.ofList (a.positions.map fun p => (p.asset, p)), a.realized⟩ : Account α) = _
  rw [positions_eq_entries h, Book.ofList_entries]

/-- **What a snapshot is restored to**: its records are without flaw, and the positions are those that they describe. -/
theorem positions_perm_of_ofSnapshot {s : Snapshot α} (h : ofSnapshot s = .ok a) :
    (∀ r ∈ s.records, r.flaw? = none) ∧ a.positions.Perm (s.records.map Record.rebuilt) ∧
      a.realized = s.realized := by
  rw [ofSnapshot] at h
  obtain ⟨ps, hps, rfl⟩ := map_eq_ok_iff.mp h
  obtain ⟨hnodup, -, hflaws, rfl⟩ := rebuild_eq_ok_iff.mp hps
  refine ⟨hflaws, ?_, rfl⟩
  have hassets : (((s.records.map Record.rebuilt).map fun p => (p.asset, p)).map Prod.fst).Nodup := by
    simpa [Function.comp_def, rebuilt_asset] using hnodup
  simpa [positions, Book.values, Function.comp_def] using (Book.ofList_perm hassets).map Prod.snd

end Account

/-! ## Snapshots -/

namespace Snapshot

/-- A snapshot as it is taken right after it was restored, in whatever account: nothing of the account before it
remains. -/
def retaken? (s : Snapshot α) : Except (RecordFault α) (Snapshot α) :=
  (Account.ofSnapshot s).map Account.snapshot

/-- **Restoring brings a snapshot into its normal form, once and for all.** Whatever snapshot is accepted, the one that
is taken right after has the same records in normal form, in the order of their assets, and the same profit; it is
accepted in turn, is restored to the same account, and is taken again as it is. -/
theorem retaken?_retaken [Quantity.LawfulZero α] {s s' : Snapshot α} (h : s.retaken? = .ok s') :
    (s'.records.map Record.asset).Pairwise (· < ·) ∧
      s'.records.Perm (s.records.map Record.normal) ∧
      s'.realized = s.realized ∧
      Account.ofSnapshot s' = Account.ofSnapshot s ∧
      s'.retaken? = .ok s' := by
  obtain ⟨a, ha, rfl⟩ := map_eq_ok_iff.mp h
  obtain ⟨hflaws, hperm, hrealized⟩ := Account.positions_perm_of_ofSnapshot ha
  have hown : Account.All (fun asset p => p.asset = asset) a := fun asset p hp => by
    obtain ⟨r, -, hr, rfl⟩ := Account.ofSnapshot_eq_ok ha hp
    exact (Position.held_of_toPosition hr).asset_eq
  have hread : ∀ p ∈ a.positions, (Record.ofPosition p).toPosition = .ok p := fun p hp => by
    obtain ⟨r, hr, rfl⟩ := List.mem_map.mp (hperm.mem_iff.mp hp)
    rw [Record.ofPosition_rebuilt (hflaws r hr)]
    exact Record.toPosition_normal (hflaws r hr)
  have hback : Account.ofSnapshot a.snapshot = .ok a := Account.ofSnapshot_snapshot hown hread
  have hassets : a.snapshot.records.map Record.asset = a.positions.map Position.asset := List.map_map
  refine ⟨hassets ▸ Account.positions_rising hown, ?_, hrealized, hback.trans ha.symm, ?_⟩
  · have hnormal : s.records.map Record.normal = (s.records.map Record.rebuilt).map Record.ofPosition := by
      rw [List.map_map]
      exact List.map_congr_left fun r hr => (Record.ofPosition_rebuilt (hflaws r hr)).symm
    rw [hnormal]
    exact hperm.map Record.ofPosition
  · rw [retaken?, hback]
    rfl

/-- A long position whose record waits for no level, and a short one that has fired and keeps the other level. -/
def disordered : Snapshot Float :=
  ⟨[⟨"SPY", 10, 100, 100, none, 0, -0.0, .armed⟩,
    ⟨"AAPL", -5, 200, 190, none, 150, 220, .fired .takeProfit⟩], 12⟩

/-- The same positions in order, the long one disarmed and without a negative zero. -/
def ordered : Snapshot Float :=
  ⟨[⟨"AAPL", -5, 200, 190, none, 150, 220, .fired .takeProfit⟩,
    ⟨"SPY", 10, 100, 100, none, 0, 0, .disarmed⟩], 12⟩

/-- The one becomes the other, which stays as it is. -/
theorem retaken?_disordered : disordered.retaken? = .ok ordered ∧ ordered.retaken? = .ok ordered := by
  have hretaken : disordered.retaken? = .ok ordered := rfl
  obtain ⟨-, -, -, -, hagain⟩ := retaken?_retaken hretaken
  exact ⟨hretaken, hagain⟩

end Snapshot

end Holdings
