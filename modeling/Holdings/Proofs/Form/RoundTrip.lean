import Mathlib
import Holdings.Decimal.Shortest
import Holdings.Form.Text
import Holdings.Proofs.Json.Record

/-!
# What is written is read back

Every value that is kept in JSON comes back from its text unchanged: bars, fills, orders and their kinds, instruments,
levels and the state of their trigger, positions, records, exits, lots, cost models, policies and snapshots. Renamed and
tagged choices, fields that are left out where there is nothing to say and fields with a default are all read as they
were written.

Numbers and instants have to be *legible*, which is to come back from their own texts. Strings and counts always are.
Fingerprints are hashes of compact texts, and those tell any two legible snapshots apart.
-/

namespace Holdings

/-- An instant that is read back as it was written. -/
def Instant.Legible (i : Instant) : Prop := parse? i.stamp = some i

instance (i : Instant) : Decidable i.Legible := inferInstanceAs (Decidable (_ = some i))

variable {α : Type} [Numeral α]

/-! ## Legible values -/

/-- The numbers and the time of a bar come back. -/
def Bar.Legible (b : Bar α) : Prop :=
  b.time.Legible ∧ ∀ x ∈ [b.opening, b.high, b.low, b.closing, b.volume], Numeral.Legible x

/-- The levels that are set come back. -/
def ExitLevels.Legible (l : ExitLevels α) : Prop :=
  (∀ x ∈ l.stopLoss, Numeral.Legible x) ∧ ∀ x ∈ l.takeProfit, Numeral.Legible x

/-- The numbers, the time and the levels of a fill come back. -/
def Fill.Legible (f : Fill α) : Prop :=
  (∀ x ∈ [f.quantity, f.price, f.cost], Numeral.Legible x) ∧ (∀ i ∈ f.time, i.Legible) ∧ ∀ l ∈ f.levels, l.Legible

/-- The prices of a kind of order come back. -/
def OrderKind.Legible : OrderKind α → Prop
  | .stop s => Numeral.Legible s
  | .stopLimit s l => Numeral.Legible s ∧ Numeral.Legible l
  | .limit l => Numeral.Legible l

/-- The numbers of an order come back; its own number has 64 bits. -/
def Order.Legible (o : Order α) : Prop :=
  o.id ≤ Json.greatestWord ∧ o.kind.Legible ∧ Numeral.Legible o.quantity

/-- The numbers of an instrument come back. -/
def Instrument.Legible (i : Instrument α) : Prop := Numeral.Legible i.tick ∧ Numeral.Legible i.multiplier

/-- The numbers, the time and the levels of a position come back. -/
def Position.Legible (p : Position α) : Prop :=
  (∀ x ∈ [p.amount, p.basis, p.lastPrice], Numeral.Legible x) ∧ (∀ i ∈ p.lastTime, i.Legible) ∧ p.levels.Legible

/-- The numbers and the time of a record come back. -/
def Record.Legible (r : Record α) : Prop :=
  (∀ x ∈ [r.amount, r.basis, r.lastPrice, r.takeProfit, r.stopLoss], Numeral.Legible x) ∧
    ∀ i ∈ r.lastTime, i.Legible

instance [DecidableEq α] (r : Record α) : Decidable r.Legible := inferInstanceAs (Decidable (_ ∧ _))

/-- The numbers and the time of an exit come back. -/
def ExitIntent.Legible (i : ExitIntent α) : Prop :=
  (∀ x ∈ [i.quantity, i.level, i.price], Numeral.Legible x) ∧ ∀ t ∈ i.time, t.Legible

/-- The precision of a lot comes back. -/
def Lot.Legible : Lot α → Prop
  | .wholeShares => True
  | .fractional precision => Numeral.Legible precision

/-- The numbers of a cost model come back. -/
def CostModel.Legible (m : CostModel α) : Prop := ∀ x ∈ m.rates, Numeral.Legible x

/-- The numbers of a policy come back. -/
def Policy.Legible (p : Policy α) : Prop := p.lot.Legible ∧ Numeral.Legible p.minimum ∧ p.costs.Legible

/-- The numbers and the times of a snapshot come back. -/
def Snapshot.Legible (s : Snapshot α) : Prop := (∀ r ∈ s.records, r.Legible) ∧ Numeral.Legible s.realized

instance [DecidableEq α] (s : Snapshot α) : Decidable s.Legible := inferInstanceAs (Decidable (_ ∧ _))

/-! ## Names -/

instance : Named.Lawful TickRule := ⟨by intro b; cases b <;> rfl⟩

instance : Named.Lawful AssetClass := ⟨by intro b; cases b <;> rfl⟩

instance : Named.Lawful Side := ⟨by intro b; cases b <;> rfl⟩

instance : Named.Lawful OrderStatus := ⟨by intro b; cases b <;> rfl⟩

instance : Named.Lawful GapRule := ⟨by intro b; cases b <;> rfl⟩

instance : Named.Lawful Activation := ⟨by intro b; cases b <;> rfl⟩

instance : Named.Lawful CostTreatment := ⟨by intro b; cases b <;> rfl⟩

instance : Named.Lawful ExitReason := ⟨by intro b; cases b <;> rfl⟩

/-! ## Trees -/

omit [Numeral α] in
/-- A time that may be missing comes back. -/
theorem Json.maybe?_stamp {time : Option Instant} (h : ∀ i ∈ time, i.Legible) :
    (maybe stamp time : Json α).maybe? instant? = some time :=
  maybe?_maybe h fun i hnull => by cases hnull

/-- A number that may be missing comes back. -/
theorem Json.maybe?_real (x : Option α) : (maybe real x).maybe? number? = some x :=
  maybe?_maybe (fun _ _ => rfl) fun x hnull => by cases hnull

namespace Bar

theorem legible_toJson {b : Bar α} (h : b.Legible) : b.toJson.Legible := by
  simpa [toJson] using h.2

theorem ofJson?_toJson {b : Bar α} (h : b.Legible) : ofJson? b.toJson = some b := by
  have htime : (Json.stamp b.time : Json α).instant? = some b.time := h.1
  simp [ofJson?, toJson, Fields.of?_object, Fields.required, Fields.withDefault, htime]

end Bar

namespace Instrument

theorem legible_toJson {i : Instrument α} (h : i.Legible) : i.toJson.Legible := by
  simpa [toJson, Legible] using h

theorem ofJson?_toJson (o : Origin) (i : Instrument α) : ofJson? o i.toJson = some i := by
  simp [ofJson?, toJson, Fields.of?_object, Fields.required, Fields.withDefault]

end Instrument

namespace ExitLevels

theorem legible_toJson {l : ExitLevels α} (h : l.Legible) : l.toJson.Legible := by
  simpa [toJson, Legible] using h

theorem ofJson?_toJson (l : ExitLevels α) : ofJson? l.toJson = some l := by
  simp [ofJson?, toJson, Fields.of?_object, ofFields?, Fields.optional, Fields.withDefault, Json.maybe?_real]

end ExitLevels

namespace TriggerState

theorem legible_toJson (t : TriggerState) : (t.toJson : Json α).Legible := by
  cases t <;> simp [toJson]

omit [Numeral α] in
theorem ofJson?_toJson (o : Origin) (t : TriggerState) : ofJson? o (t.toJson : Json α) = some t := by
  cases t with
  | armed => rfl
  | disarmed => rfl
  | fired reason => simp [toJson, ofJson?]

end TriggerState

namespace OrderKind

theorem legible_toJson {k : OrderKind α} (h : k.Legible) : k.toJson.Legible := by
  cases k <;> simpa [toJson, Json.tagged, Legible] using h

theorem ofJson?_toJson {n : Nat} (hn : n < Origin.deepest) (k : OrderKind α) :
    ofJson? (.text n) k.toJson = some k := by
  cases k <;> rw [ofJson?, toJson, Json.choose?_tagged hn (by simp [Json.AreNumbers, Json.tagName])] <;>
    simp [choices, List.lookup, Fields.of?_object, Fields.required]

end OrderKind

namespace Order

theorem legible_toJson {o : Order α} (h : o.Legible) : o.toJson.Legible := by
  obtain ⟨hid, hkind, hquantity⟩ := h
  simp [toJson, Json.legible_count hid, OrderKind.legible_toJson hkind, hquantity]

theorem ofJson?_toJson (o : Order α) : ofJson? (.text 0) o.toJson = some o := by
  have hkind := OrderKind.ofJson?_toJson (n := 1) (by decide) o.kind
  simp [ofJson?, toJson, Origin.inside, Fields.of?_object, Fields.required, Fields.withDefault, hkind]

end Order

namespace Lot

theorem legible_toJson {l : Lot α} (h : l.Legible) : l.toJson.Legible := by
  cases l with
  | wholeShares => simp [toJson, Json.tagged]
  | fractional precision => simpa [toJson, Json.tagged, Legible] using h

theorem ofJson?_toJson {n : Nat} (hn : n < Origin.deepest) (l : Lot α) : ofJson? (.text n) l.toJson = some l := by
  cases l <;> rw [ofJson?, toJson, Json.choose?_tagged hn (by simp [Json.AreNumbers, Json.tagName])] <;>
    simp [choices, List.lookup, Json.noFields?, Fields.of?_object, Fields.required]

end Lot

namespace CostModel

theorem legible_toJson {m : CostModel α} (h : m.Legible) : m.toJson.Legible := by
  cases m with
  | free => simp [toJson, Json.tagged]
  | _ => simpa [toJson, Json.tagged, Legible, rates] using h

theorem ofJson?_toJson {n : Nat} (hn : n < Origin.deepest) (m : CostModel α) :
    ofJson? (.text n) m.toJson = some m := by
  cases m <;> rw [ofJson?, toJson, Json.choose?_tagged hn (by simp [Json.AreNumbers, Json.tagName])] <;>
    simp [choices, List.lookup, Json.noFields?, Fields.of?_object, Fields.required, Fields.withDefault]

end CostModel

namespace Policy

theorem legible_toJson {p : Policy α} (h : p.Legible) : p.toJson.Legible := by
  obtain ⟨hlot, hminimum, hcosts⟩ := h
  simp [toJson, Lot.legible_toJson hlot, hminimum, CostModel.legible_toJson hcosts]

theorem ofJson?_toJson (p : Policy α) : ofJson? (.text 0) p.toJson = some p := by
  have hlot := Lot.ofJson?_toJson (n := 1) (by decide) p.lot
  have hcosts := CostModel.ofJson?_toJson (n := 1) (by decide) p.costs
  simp [ofJson?, toJson, Origin.inside, Fields.of?_object, Fields.withDefault, hlot, hcosts]

end Policy

namespace Position

theorem legible_toJson {p : Position α} (h : p.Legible) : p.toJson.Legible := by
  obtain ⟨hnumbers, -, hlevels⟩ := h
  simpa [toJson, ExitLevels.legible_toJson hlevels, TriggerState.legible_toJson] using hnumbers

theorem ofJson?_toJson (o : Origin) {p : Position α} (h : p.Legible) : ofJson? o p.toJson = some p := by
  simp [ofJson?, toJson, Fields.of?_object, Fields.required, Fields.nullable, Fields.optional, Fields.withDefault,
    Json.maybe?_stamp h.2.1, ExitLevels.ofJson?_toJson, TriggerState.ofJson?_toJson]

end Position

namespace Record

theorem legible_toJson {r : Record α} (h : r.Legible) : r.toJson.Legible := by
  simpa [toJson, TriggerState.legible_toJson] using h.1

theorem ofJson?_toJson (o : Origin) {r : Record α} (h : r.Legible) : ofJson? o r.toJson = some r := by
  simp [ofJson?, toJson, Fields.of?_object, Fields.required, Fields.optional, Fields.withDefault,
    Json.maybe?_stamp h.2, TriggerState.ofJson?_toJson]

end Record

namespace ExitIntent

theorem legible_toJson {i : ExitIntent α} (h : i.Legible) : i.toJson.Legible := by
  simpa [toJson] using h.1

theorem ofJson?_toJson (o : Origin) {i : ExitIntent α} (h : i.Legible) : ofJson? o i.toJson = some i := by
  simp [ofJson?, toJson, Fields.of?_object, Fields.required, Fields.optional, Fields.withDefault, Json.maybe?_stamp h.2]

end ExitIntent

namespace Fill

theorem legible_toJson {f : Fill α} (h : f.Legible) : f.toJson.Legible := by
  obtain ⟨hnumbers, -, hlevels⟩ := h
  rcases hf : f.levels with - | l
  · simpa [toJson, hf] using hnumbers
  · simpa [toJson, hf, ExitLevels.legible_toJson (hlevels l hf)] using hnumbers

theorem ofJson?_toJson {f : Fill α} (h : f.Legible) : ofJson? f.toJson = some f := by
  obtain ⟨-, htime, -⟩ := h
  rcases f with ⟨asset, quantity, price, cost, time, - | l⟩
  · simp [ofJson?, toJson, Fields.of?_object, Fields.required, Fields.optional, Fields.withDefault,
      Json.maybe?_stamp htime]
  · have hlevels : l.toJson.maybe? ExitLevels.ofJson? = some (some l) :=
      Json.maybe?_maybe (o := some l) (fun l _ => ExitLevels.ofJson?_toJson l) fun l hnull => by cases hnull
    simp [ofJson?, toJson, Fields.of?_object, Fields.required, Fields.optional, Fields.withDefault,
      Json.maybe?_stamp htime, hlevels]

end Fill

namespace Snapshot

theorem legible_toJson {s : Snapshot α} (h : s.Legible) : s.toJson.Legible := by
  obtain ⟨hrecords, hrealized⟩ := h
  simpa [toJson, hrealized] using fun r hr => Record.legible_toJson (hrecords r hr)

theorem ofJson?_toJson (o : Origin) {s : Snapshot α} (h : s.Legible) : ofJson? o s.toJson = some s := by
  have hrecords : (Json.array (s.records.map Record.toJson)).list? (Record.ofJson? o.inside.inside) =
      some s.records := by
    simpa using Json.list?_array (f := id) fun r hr => Record.ofJson?_toJson o.inside.inside (h.1 r hr)
  simp [ofJson?, toJson, Fields.of?_object, Fields.required, Fields.withDefault, hrecords]

theorem readsAs_self {s : Snapshot α} (h : s.Legible) : s.toJson.ReadsAs (ofJson? (.text 0)) s :=
  (legible_toJson h).readsAs (ofJson?_toJson _ h)

/-- The text of a snapshot is read back. -/
theorem parse?_pretty {s : Snapshot α} (h : s.Legible) : parse? s.pretty = some s := (readsAs_self h).2

end Snapshot

/-! ## Texts -/

/-- **What is written is read back.** Every legible value of every type that is kept comes back from its text, in either
layout; and snapshots with the same compact text, which is the text that a fingerprint hashes, are the same. -/
theorem readsAs_toJson :
    (∀ b : Bar α, b.Legible → b.toJson.ReadsAs Bar.ofJson? b) ∧
      (∀ f : Fill α, f.Legible → f.toJson.ReadsAs Fill.ofJson? f) ∧
      (∀ o : Order α, o.Legible → o.toJson.ReadsAs (Order.ofJson? (.text 0)) o) ∧
      (∀ k : OrderKind α, k.Legible → k.toJson.ReadsAs (OrderKind.ofJson? (.text 0)) k) ∧
      (∀ i : Instrument α, i.Legible → i.toJson.ReadsAs (Instrument.ofJson? (.text 0)) i) ∧
      (∀ l : ExitLevels α, l.Legible → l.toJson.ReadsAs ExitLevels.ofJson? l) ∧
      (∀ t : TriggerState, (t.toJson : Json α).ReadsAs (TriggerState.ofJson? (.text 0)) t) ∧
      (∀ p : Position α, p.Legible → p.toJson.ReadsAs (Position.ofJson? (.text 0)) p) ∧
      (∀ r : Record α, r.Legible → r.toJson.ReadsAs (Record.ofJson? (.text 0)) r) ∧
      (∀ i : ExitIntent α, i.Legible → i.toJson.ReadsAs (ExitIntent.ofJson? (.text 0)) i) ∧
      (∀ l : Lot α, l.Legible → l.toJson.ReadsAs (Lot.ofJson? (.text 0)) l) ∧
      (∀ m : CostModel α, m.Legible → m.toJson.ReadsAs (CostModel.ofJson? (.text 0)) m) ∧
      (∀ p : Policy α, p.Legible → p.toJson.ReadsAs (Policy.ofJson? (.text 0)) p) ∧
      (∀ s : Snapshot α, s.Legible →
        Snapshot.parse? s.toJson.compact = some s ∧ Snapshot.parse? s.pretty = some s) ∧
      ∀ s s' : Snapshot α, s.Legible → s'.Legible → s.toJson.compact = s'.toJson.compact → s = s' := by
  have htop : 0 < Origin.deepest := by decide
  exact ⟨fun b h => (Bar.legible_toJson h).readsAs (Bar.ofJson?_toJson h),
    fun f h => (Fill.legible_toJson h).readsAs (Fill.ofJson?_toJson h),
    fun o h => (Order.legible_toJson h).readsAs (Order.ofJson?_toJson o),
    fun k h => (OrderKind.legible_toJson h).readsAs (OrderKind.ofJson?_toJson htop k),
    fun i h => (Instrument.legible_toJson h).readsAs (Instrument.ofJson?_toJson _ i),
    fun l h => (ExitLevels.legible_toJson h).readsAs (ExitLevels.ofJson?_toJson l),
    fun t => (TriggerState.legible_toJson t).readsAs (TriggerState.ofJson?_toJson _ t),
    fun p h => (Position.legible_toJson h).readsAs (Position.ofJson?_toJson _ h),
    fun r h => (Record.legible_toJson h).readsAs (Record.ofJson?_toJson _ h),
    fun i h => (ExitIntent.legible_toJson h).readsAs (ExitIntent.ofJson?_toJson _ h),
    fun l h => (Lot.legible_toJson h).readsAs (Lot.ofJson?_toJson htop l),
    fun m h => (CostModel.legible_toJson h).readsAs (CostModel.ofJson?_toJson htop m),
    fun p h => (Policy.legible_toJson h).readsAs (Policy.ofJson?_toJson p),
    fun s h => Snapshot.readsAs_self h,
    fun s s' h h' heq => (Snapshot.readsAs_self h).eq_of_compact_eq (Snapshot.readsAs_self h') heq⟩

/-- A snapshot of ten shares whose stop-loss at 95 has fired. -/
theorem readsAs_toJson_fired :
    let r : Record Float := ⟨"BRK\"B", 10, 100.25, 101.5, some ⟨19724, 75600, 0⟩, 120, 95, .fired .stopLoss⟩
    let s : Snapshot Float := ⟨[r], -3.5⟩
    s.Legible ∧ Snapshot.parse? s.toJson.compact = some s ∧ Snapshot.parse? s.pretty = some s := by
  intro r s
  have hnumbers : ∀ x ∈ [r.amount, r.basis, r.lastPrice, r.takeProfit, r.stopLoss],
      (Json.parse? (Json.compact (.real x))).bind Json.number? = some x := by decide +kernel
  have htime : ∀ i ∈ r.lastTime, Instant.parse? i.stamp = some i := by decide +kernel
  have hrealized : (Json.parse? (Json.compact (.real s.realized))).bind Json.number? = some s.realized := by
    decide +kernel
  have hlegible : s.Legible := by
    refine ⟨fun r' hr' => ?_, hrealized⟩
    rw [List.mem_singleton.mp hr']
    exact ⟨hnumbers, htime⟩
  obtain ⟨-, -, -, -, -, -, -, -, -, -, -, -, -, hsnapshot, -⟩ := readsAs_toJson (α := Float)
  exact ⟨hlegible, hsnapshot s hlegible⟩

end Holdings
