import Mathlib
import Holdings.Proofs.Account.Trigger

/-!
# One exit for each arming

An operation *arms* the levels of an asset when it is accepted and brings levels for it that count: a fill or new
levels of which one is not zero, or a snapshot that is restored. A level that is crossed asks for a trade that leaves
the position, an *exit*.

* `Account.chronicle` — what happens to the levels of an asset in a run: the armings and the exits, in their order;
* `Account.armed_before_exit` — right before each exit in it stands an arming.
-/

namespace Holdings

variable {α : Type} [Quantity α]

namespace Operation

/-- Whether an operation brings levels for an asset that count, or a whole book of them. -/
def bringsLevels (asset : Asset) : Operation α → Bool
  | .fill f => f.asset = asset && f.levels.any fun l => !l.normalized.isEmpty
  | .levels asset' l => asset' = asset && !l.normalized.isEmpty
  | .restore _ => true
  | _ => false

omit [Quantity α] in
/-- The price at which an operation looks at the levels of an asset. -/
def look? (asset : Asset) : Operation α → Option (α × Option Instant)
  | .trigger asset' price time => if asset' = asset then some (price, time) else none
  | .triggerAll priceOf time => (priceOf asset).map fun price => (price, time)
  | _ => none

end Operation

/-- What happens to the levels of an asset. -/
inductive Occurrence (α : Type) where
  /-- levels are brought that wait from now on -/
  | armed
  /-- a level was crossed: the trade that leaves the position -/
  | exit (intent : ExitIntent α)
deriving DecidableEq

namespace Account

/-- The trades that an operation asks for because a level was crossed. -/
def exits (a : Account α) : Operation α → List (ExitIntent α)
  | .trigger asset price time => ((a.trigger? asset price time).map Prod.fst).toList
  | .triggerAll priceOf time => (a.triggerAll priceOf time).1
  | _ => []

/-- Whether an operation is accepted and brings levels for an asset. -/
def arms (t : Terms α) (a : Account α) (asset : Asset) (op : Operation α) : Bool :=
  (a.perform? t op).isSome && op.bringsLevels asset

/-- What one operation does to the levels of an asset. -/
def occurrences (t : Terms α) (a : Account α) (asset : Asset) (op : Operation α) :
    List (Occurrence α) :=
  (if a.arms t asset op then [.armed] else []) ++
    ((a.exits op).filter fun i => i.asset = asset).map .exit

/-- What a run does to the levels of an asset. -/
def chronicle (t : Terms α) (asset : Asset) (a : Account α) : List (Operation α) → List (Occurrence α)
  | [] => []
  | op :: ops => a.occurrences t asset op ++ (a.perform t op).chronicle t asset ops

/-- The levels of an asset wait. -/
def Armed (a : Account α) (asset : Asset) : Prop := ∃ p, a.get? asset = some p ∧ p.trigger = .armed

/-- What a look at the levels of an asset finds, if an operation looks at them and one is crossed. -/
def firing? (a : Account α) (asset : Asset) (op : Operation α) : Option (ExitIntent α × Position α) :=
  (op.look? asset).bind fun look => (a.get? asset).bind fun p => p.trigger? look.1 look.2

variable {t : Terms α} {a : Account α} {asset : Asset} {op : Operation α}

/-! ## Exits -/

theorem firing?_eq_some {i : ExitIntent α} {q : Position α} (h : a.firing? asset op = some (i, q)) :
    ∃ price time p, op.look? asset = some (price, time) ∧ a.get? asset = some p ∧
      p.trigger? price time = some (i, q) := by
  obtain ⟨⟨price, time⟩, hlook, hrest⟩ := Option.bind_eq_some_iff.mp h
  obtain ⟨p, hp, hfire⟩ := Option.bind_eq_some_iff.mp hrest
  exact ⟨price, time, p, hlook, hp, hfire⟩

/-- An exit is asked for by an armed position, and leaves it fired. -/
theorem armed_of_firing? {i : ExitIntent α} {q : Position α} (h : a.firing? asset op = some (i, q)) :
    a.Armed asset ∧ q.trigger ≠ .armed := by
  obtain ⟨price, time, p, -, hp, hfire⟩ := firing?_eq_some h
  obtain ⟨-, harmed, reason, level, -, -, rfl⟩ := Position.trigger?_eq_some hfire
  exact ⟨⟨p, hp, harmed⟩, by simp⟩

/-- **The exits of one asset**: at most one, the one that the look at its position finds. -/
theorem exits_filter (ha : All Position.Held a) :
    (a.exits op).filter (fun i => i.asset = asset) =
      ((a.firing? asset op).map Prod.fst).toList := by
  cases op with
  | trigger asset' price time =>
    have htag : ∀ i ∈ a.exits (.trigger asset' price time), i.asset = asset' := fun i hi => by
      obtain ⟨⟨i, b⟩, hfire, rfl⟩ := Option.map_eq_some_iff.mp (Option.mem_toList.mp hi)
      exact asset_of_trigger? ha hfire
    by_cases heq : asset' = asset
    · subst heq
      rw [List.filter_eq_self.mpr fun i hi => by simpa using htag i hi]
      simp only [exits, trigger?, firing?, Operation.look?, if_pos]
      rcases a.get? asset' with - | p <;> simp [Function.comp_def]
    · rw [List.filter_eq_nil_iff.mpr fun i hi => by simpa [htag i hi] using heq]
      simp [firing?, Operation.look?, heq]
  | triggerAll priceOf time =>
    have htag : ∀ e ∈ a.book.entries, ∀ i : ExitIntent α,
        (((priceOf e.1).bind fun price => e.2.trigger? price time).map Prod.fst) = some i →
          i.asset = e.1 := by
      intro e he i hi
      obtain ⟨⟨j, q⟩, hlook, rfl⟩ := Option.map_eq_some_iff.mp hi
      obtain ⟨price, -, hfire⟩ := Option.bind_eq_some_iff.mp hlook
      exact (Position.asset_of_trigger? hfire).trans (ha (Book.get?_eq_some_iff.mpr he)).asset_eq
    refine (Entries.filter_filterMap asset a.book.rising htag).trans ?_
    rw [firing?, Operation.look?, get?, Book.get?]
    rcases Entries.find? asset a.book.entries with - | p
    · simp
    · rcases hprice : priceOf asset with - | price <;> simp [hprice]
  | _ => rfl

/-- After an exit the position of the asset is the one that has fired. -/
theorem get?_perform_of_firing? {i : ExitIntent α} {q : Position α}
    (h : a.firing? asset op = some (i, q)) : (a.perform t op).get? asset = some q := by
  obtain ⟨price, time, p, hlook, hp, hfire⟩ := firing?_eq_some h
  cases op with
  | trigger asset' price' time' =>
    rw [Operation.look?] at hlook
    split at hlook
    · next heq =>
      obtain ⟨rfl, rfl⟩ := Prod.mk.inj (Option.some.inj hlook)
      subst heq
      simp [perform, perform?, trigger?, hp, hfire]
    · cases hlook
  | triggerAll priceOf time' =>
    obtain ⟨price', hprice, hpair⟩ := Option.map_eq_some_iff.mp hlook
    obtain ⟨rfl, rfl⟩ := Prod.mk.inj hpair
    have hmap : (a.triggerAll priceOf time').2.get? asset = _ := Book.get?_map ..
    have hp : a.book.get? asset = some p := hp
    simp [perform, perform?, hmap, hp, hprice, hfire]
  | _ => cases hlook

end Account

/-! ## Armings -/

namespace Position

variable {p q : Position α}

/-- Levels that are accepted wait only if one of them counts. -/
theorem isEmpty_of_configure {l : ExitLevels α} (h : p.configure l = .ok q)
    (harmed : q.trigger = .armed) : l.normalized.isEmpty = false := by
  obtain ⟨-, rfl⟩ := configure_eq_ok h
  by_contra hne
  rw [Bool.not_eq_false] at hne
  simp [withLevels, hne] at harmed

/-- A split arms nothing. -/
theorem armed_of_split {asset : Asset} {ratio cash : α} {lot : Lot α}
    (h : p.split asset ratio lot = .ok (cash, q)) (harmed : q.trigger = .armed) :
    p.trigger = .armed := by
  obtain ⟨-, -, ⟨-, rfl⟩ | ⟨-, hq⟩⟩ := split_eq_ok h
  · exact harmed
  · obtain rfl := congrArg Prod.snd hq
    rw [splitHeld] at harmed
    dsimp only at harmed
    split at harmed
    · cases harmed
    · exact harmed

end Position

section Armings

variable [Quantity.LawfulZero α]

/-- A level that counts on the ticks counted before it was moved onto them. -/
theorem Terms.isEmpty_normalized_of_roundLevels {t : Terms α} {asset : Asset} {long : Bool}
    {l : ExitLevels α} (h : (t.roundLevels asset long l).normalized.isEmpty = false) :
    l.normalized.isEmpty = false := by
  have hzero : ∀ (i : Instrument α) (rule : TickRule) (x : α), (x == 0) = true →
      roundLevel i rule x = x := fun i rule x hx => by
    simp [roundLevel, Quantity.LawfulZero.not_pos hx]
  rw [roundLevels] at h
  split at h
  · exact h
  · split at h <;> exact ExitLevels.isEmpty_normalized_of_map (hzero _ _) (hzero _ _) h

namespace Account

variable {t : Terms α} {a : Account α} {asset : Asset} {op : Operation α}

/-- **A position that an operation leaves armed** was armed before it, or the operation brings levels. -/
theorem armed_of_leaves {x : Option (Position α)} {q : Position α} (h : Leaves t asset op x q)
    (harmed : q.trigger = .armed) :
    op.bringsLevels asset = true ∨ ∃ p, x = some p ∧ p.trigger = .armed := by
  cases h with
  | @fill x f long o q hasset hf ho =>
    obtain ⟨-, -, -, -, hlevels⟩ := Settlement.settle_position t.settlement (x.getD (.flat asset))
      { f with levels := f.levels.map (t.roundLevels asset long) }
    rcases Settlement.apply_eq_ok_of_left hf ho with ⟨-, rfl⟩ | ⟨l, hl, hc⟩
    · rcases hlevels with ⟨-, htrigger⟩ | ⟨-, htrigger⟩ <;> rw [htrigger] at harmed
      · cases x with
        | none => cases harmed
        | some p => exact .inr ⟨p, rfl, harmed⟩
      · cases harmed
    · obtain ⟨l', hl', rfl⟩ := Option.map_eq_some_iff.mp hl
      have hset : l'.normalized.isEmpty = false :=
        Terms.isEmpty_normalized_of_roundLevels (Position.isEmpty_of_configure hc harmed)
      exact .inl (by simp [Operation.bringsLevels, hasset, hl', hset])
  | mark hm =>
    obtain ⟨-, rfl⟩ := Position.mark_eq_ok hm
    exact .inr ⟨_, rfl, harmed⟩
  | @levels p q l hc =>
    have hset : l.normalized.isEmpty = false :=
      Terms.isEmpty_normalized_of_roundLevels (Position.isEmpty_of_configure hc harmed)
    exact .inl (by simp [Operation.bringsLevels, hset])
  | trigger ht =>
    obtain ⟨-, -, reason, level, -, -, rfl⟩ := Position.trigger?_eq_some ht
    cases harmed
  | triggerAll _ ht =>
    obtain ⟨-, -, reason, level, -, -, rfl⟩ := Position.trigger?_eq_some ht
    cases harmed
  | split hs _ => exact .inr ⟨_, rfl, Position.armed_of_split hs harmed⟩
  | charge hc =>
    obtain ⟨basis, rfl⟩ := Position.charge_eq_ok hc
    exact .inr ⟨_, rfl, harmed⟩
  | restore _ _ _ => exact .inl rfl

/-- Levels that wait after an operation waited before it, or the operation arms them. -/
theorem Armed.of_perform (h : (a.perform t op).Armed asset) :
    a.arms t asset op = true ∨ a.Armed asset := by
  obtain ⟨q, hq, harmed⟩ := h
  rcases get?_perform_cases hq with hsame | ⟨haccepted, hleaves⟩
  · exact .inr ⟨q, hsame, harmed⟩
  · rcases armed_of_leaves hleaves harmed with hbrings | hbefore
    · exact .inl (by rw [arms, haccepted, hbrings, Bool.and_self])
    · exact .inr hbefore

/-! ## The chronicle -/

omit [Quantity.LawfulZero α] in
/-- An operation that brings levels does not look whether any is crossed. -/
theorem firing?_of_bringsLevels (h : op.bringsLevels asset = true) : a.firing? asset op = none := by
  cases op <;> first | rfl | cases h

/-- **What one operation does to the levels of an asset**: it arms them, or it does nothing and they wait after it
only if they waited before it, or it finds one level crossed, and they waited before it and do not wait after it. -/
theorem occurrences_cases (t : Terms α) (asset : Asset) (op : Operation α) (ha : All Position.Held a) :
    a.occurrences t asset op = [.armed] ∨
    (a.occurrences t asset op = [] ∧ ((a.perform t op).Armed asset → a.Armed asset)) ∨
    ∃ i, a.occurrences t asset op = [.exit i] ∧ a.Armed asset ∧ ¬(a.perform t op).Armed asset := by
  rw [occurrences, exits_filter ha]
  rcases harms : a.arms t asset op with - | -
  · rcases hfiring : a.firing? asset op with - | ⟨i, q⟩
    · refine .inr (.inl ⟨by simp, fun hafter => ?_⟩)
      exact hafter.of_perform.resolve_left (by simp [harms])
    · obtain ⟨hbefore, hfired⟩ := armed_of_firing? hfiring
      refine .inr (.inr ⟨i, by simp, hbefore, ?_⟩)
      rintro ⟨q', hq', harmed⟩
      rw [get?_perform_of_firing? hfiring] at hq'
      exact hfired (Option.some.inj hq' ▸ harmed)
  · have hbrings : op.bringsLevels asset = true := (Bool.and_eq_true_iff.mp harms).2
    exact .inl (by simp [firing?_of_bringsLevels hbrings])

/-- Right before an exit stands an arming, unless it is the first occurrence and the levels waited already. -/
theorem armed_before_exit_from : ∀ {ops : List (Operation α)} {a : Account α}
    {before after : List (Occurrence α)} {i : ExitIntent α}, All Position.Held a →
    a.chronicle t asset ops = before ++ .exit i :: after →
    before.getLast? = some .armed ∨ before = [] ∧ a.Armed asset
  | [], _, before, _, _, _, h => by
    rw [chronicle] at h
    cases before <;> cases h
  | op :: ops, a, before, after, i, ha, h => by
    have hnext := ha.perform (Position.stable_held t) op
    rw [chronicle] at h
    rcases occurrences_cases t asset op ha with hocc | ⟨hocc, hback⟩ |
        ⟨j, hocc, hbefore, hafter⟩ <;> rw [hocc] at h
    · cases before with
      | nil => cases h
      | cons x before =>
        obtain rfl := (List.cons.inj h).1
        have hrest : (a.perform t op).chronicle t asset ops = before ++ .exit i :: after :=
          (List.cons.inj h).2
        rcases armed_before_exit_from hnext hrest with hlast | ⟨rfl, -⟩
        · exact .inl (by simp [List.getLast?_cons, hlast])
        · exact .inl rfl
    · rcases armed_before_exit_from hnext h with hlast | ⟨hnil, harmed⟩
      · exact .inl hlast
      · exact .inr ⟨hnil, hback harmed⟩
    · cases before with
      | nil => exact .inr ⟨rfl, hbefore⟩
      | cons x before =>
        obtain rfl := (List.cons.inj h).1
        have hrest : (a.perform t op).chronicle t asset ops = before ++ .exit i :: after :=
          (List.cons.inj h).2
        -- nothing waits after an exit, so the next one cannot come first
        rcases armed_before_exit_from hnext hrest with hlast | ⟨-, harmed⟩
        · exact .inl (by simp [List.getLast?_cons, hlast])
        · exact absurd harmed hafter

/-- **Each exit has an arming of its own**: in what happens to the levels of an asset throughout a run, each exit
comes right after an arming. -/
theorem armed_before_exit (t : Terms α) (asset : Asset) (ops : List (Operation α))
    {before after : List (Occurrence α)} {i : ExitIntent α}
    (h : empty.chronicle t asset ops = before ++ .exit i :: after) :
    before.getLast? = some .armed := by
  rcases armed_before_exit_from all_empty h with harmed | ⟨-, p, hp, -⟩
  · exact harmed
  · cases hp

/-- A purchase whose take-profit is crossed twice, then a new stop-loss, and a price that crosses it. -/
def guardedTwice : List (Operation Float) :=
  guarded ++ [.trigger "SPY" 121 none, .trigger "SPY" 122 none, .levels "SPY" ⟨some 110, none⟩,
    .triggerAll (fun _ => some 105) none]

/-- It is left twice, each time after an arming. -/
theorem armed_before_exit_guardedTwice :
    ∃ before, empty.chronicle usualTerms "SPY" guardedTwice =
        before ++ [.exit ⟨"SPY", -10, .stopLoss, 110, 105, none⟩] ∧
      before.head? = some .armed ∧
      .exit ⟨"SPY", -10, .takeProfit, 120, 121, none⟩ ∈ before ∧
      before.getLast? = some .armed := by
  have hrun : empty.chronicle usualTerms "SPY" guardedTwice =
      [.armed, .exit ⟨"SPY", -10, .takeProfit, 120, 121, none⟩, .armed] ++
        [.exit ⟨"SPY", -10, .stopLoss, 110, 105, none⟩] := by decide +kernel
  exact ⟨_, hrun, rfl, by simp, armed_before_exit usualTerms "SPY" guardedTwice hrun⟩

end Account

end Armings

end Holdings
