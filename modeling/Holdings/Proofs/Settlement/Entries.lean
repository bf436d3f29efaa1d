import Mathlib
import Holdings.Proofs.Settlement

/-!
# The prices of entry

Where the cost of a fill does not go into its price, the basis of what is held is an average of the prices at which it
was entered. An exposure begins with the fill that opens a position or turns it to the other side. From then on, fills
on its side add to it at their prices, and the others take from it at prices that the basis does not know of.

* `Trial.Effect` — what one fill does to the exposure that it meets;
* `Position.EnteredBy` — the fills that an exposure comes from, and what the basis has to do with their prices;
* `Settlement.basis_between_entries` — whatever is tried from nothing held, what is held was entered so.
-/

namespace Holdings

/-! ## Fills that enter -/

namespace Trial

variable {α : Type}

/-- What the fill did, if it was accepted. -/
def kind? (x : Trial α) : Option FillKind := x.answer.toOption.map Outcome.kind

/-- Whether the fill began an exposure: it opened the position, or turned it to the other side. -/
def starts (x : Trial α) : Bool := x.kind? = some .opened || x.kind? = some .flipped

/-- Whether the fill was accepted and lies on a side. -/
def enters [Quantity α] (x : Trial α) (side : α) : Bool :=
  x.kind?.isSome && Quantity.sameSide x.fill.quantity side

/-- The prices of entry of an exposure on a side: those of the fill that began it and of the later fills on its side. -/
def entryPrices (side : Rat) (entry : Trial Rat) (later : List (Trial Rat)) : List Rat :=
  (entry :: later.filter (·.enters side)).map fun x => x.fill.price

theorem entryPrices_concat (side : Rat) (entry : Trial Rat) (later : List (Trial Rat)) (x : Trial Rat) :
    entryPrices side entry (later ++ [x]) =
      entryPrices side entry later ++ if x.enters side then [x.fill.price] else [] := by
  rw [entryPrices, entryPrices, List.filter_append]
  cases hx : x.enters side <;> simp [hx]

/-- The prices of entry are the same for every amount on the side. -/
theorem entryPrices_congr {side side' : Rat} (h : Quantity.sameSide side side' = true) (entry : Trial Rat)
    (later : List (Trial Rat)) : entryPrices side entry later = entryPrices side' entry later := by
  simp only [entryPrices, enters, Quantity.sameSide_congr h]

end Trial

/-! ## Averages -/

/-- A value that some of the prices do not exceed, and some do not fall short of. -/
structure Spans (prices : List Rat) (value : Rat) : Prop where
  /-- the smallest of them is not above it -/
  lower : ∃ price ∈ prices, price ≤ value
  /-- the largest of them is not below it -/
  upper : ∃ price ∈ prices, value ≤ price

namespace Spans

variable {prices more : List Rat} {value value' price : Rat}

theorem singleton (price : Rat) : Spans [price] price where
  lower := ⟨price, List.mem_singleton_self price, le_rfl⟩
  upper := ⟨price, List.mem_singleton_self price, le_rfl⟩

theorem append_right (h : Spans prices value) (more : List Rat) : Spans (prices ++ more) value := by
  obtain ⟨lo, hlo, hle⟩ := h.lower
  obtain ⟨hi, hhi, hge⟩ := h.upper
  exact ⟨⟨lo, List.mem_append_left more hlo, hle⟩, ⟨hi, List.mem_append_left more hhi, hge⟩⟩

/-- What lies between a value that the prices span and one more price is spanned by them all. -/
theorem concat (h : Spans prices value) (hbetween : value' ∈ Set.uIcc value price) :
    Spans (prices ++ [price]) value' := by
  have hprice : price ∈ prices ++ [price] := List.mem_append_right prices (List.mem_singleton_self price)
  obtain ⟨lo, hlo, hle⟩ := (h.append_right [price]).lower
  obtain ⟨hi, hhi, hge⟩ := (h.append_right [price]).upper
  rcases Set.mem_uIcc.mp hbetween with ⟨hbelow, habove⟩ | ⟨hbelow, habove⟩
  · exact ⟨⟨lo, hlo, hle.trans hbelow⟩, ⟨price, hprice, habove⟩⟩
  · exact ⟨⟨price, hprice, hbelow⟩, ⟨hi, hhi, habove.trans hge⟩⟩

end Spans

/-- The average of two prices with weights on the same side lies between them, on either side. -/
theorem average_between {held quantity : Rat} (h : Quantity.sameSide held quantity = true) (basis price : Rat) :
    (held * basis + quantity * price) / (held + quantity) ∈ Set.uIcc basis price := by
  have hsum : held + quantity ≠ 0 := Quantity.ne_zero_of_sameSide (Quantity.sameSide_add h)
  have hside : Quantity.sameSide quantity held = true := by rwa [Quantity.sameSide_comm]
  have hsegment : (held * basis + quantity * price) / (held + quantity) ∈ segment Rat basis price := by
    refine ⟨held / (held + quantity), quantity / (held + quantity), Quantity.share_nonneg h, ?_, ?_, ?_⟩
    · rw [add_comm]
      exact Quantity.share_nonneg hside
    · rw [← add_div, div_self hsum]
    · simp only [smul_eq_mul]
      ring
  exact segment_subset_uIcc basis price hsegment

/-! ## One fill -/

namespace Trial

/-- **What a fill does to the exposure that it meets**, where its cost is not in its price. -/
inductive Effect (x : Trial Rat) : Prop
  /-- it begins a new one, at its price -/
  | starts (hstarts : x.starts = true) (hside : Quantity.sameSide x.held.amount x.left.amount = false)
      (hleft : x.left.amount ≠ 0) (hprice : 0 ≤ x.fill.price) (hbasis : x.left.basis = x.fill.price)
  /-- it adds to it, and draws the basis towards its price -/
  | adds (hstays : x.starts = false) (hside : Quantity.sameSide x.held.amount x.left.amount = true)
      (henters : x.enters x.held.amount = true) (hprice : 0 ≤ x.fill.price)
      (hbasis : x.left.basis ∈ Set.uIcc x.held.basis x.fill.price)
  /-- it takes from it or is refused, and the basis stays -/
  | keeps (hstays : x.starts = false) (hside : Quantity.sameSide x.held.amount x.left.amount = true)
      (henters : x.enters x.held.amount = false) (hbasis : x.left.basis = x.held.basis)
  /-- it leaves nothing of it -/
  | ends (hleft : x.left.amount = 0)

end Trial

namespace Settlement

variable {s : Settlement Rat} {f : Fill Rat}

/-- A cost that is expensed, or that is nothing, is not in the price. -/
theorem unitPrice_of_cost (h : s.treatment = .expensed ∨ f.cost = 0) : s.unitPrice f = f.price := by
  rcases h with hexpensed | hcost
  · simp only [unitPrice, hexpensed]
  · cases hs : s.treatment <;> simp [unitPrice, hs, hcost]

/-- **Every fill that is tried** has one of these effects. -/
theorem trial_effect (hcost : s.treatment = .expensed ∨ f.cost = 0) (p : Position Rat) : (s.trial p f).Effect := by
  rcases h : s.apply p f with fault | ⟨o, q⟩
  · have hx : s.trial p f = ⟨p, f, .error fault, p⟩ := by simp only [trial, h]
    rw [hx]
    by_cases hheld : p.amount = 0
    · exact .ends hheld
    · exact .keeps rfl (Quantity.sameSide_self hheld) rfl rfl
  · have hx : s.trial p f = ⟨p, f, .ok o, q⟩ := by simp only [trial, h]
    rw [hx]
    obtain ⟨hnone, rfl, -⟩ := apply_eq_ok h
    obtain ⟨-, hamount, hbasis⟩ := apply_position h
    have hfault := fillFault?_of_fault? hnone
    have hprice := price_of_fault?_eq_none hnone
    change q.amount = s.remaining p.amount f.quantity at hamount
    change q.basis = s.basisAfter p f at hbasis
    rw [basisAfter, unitPrice_of_cost hcost] at hbasis
    have hdid : (Trial.mk p f (.ok (s.settle p f).1) q).kind? =
        some (kindOf p.amount f.quantity (s.remaining p.amount f.quantity)) := rfl
    rcases kindOf_cases hfault p.amount with ⟨hkind, hzero, hleft⟩ | ⟨hkind, -, hleft, hne⟩ |
        ⟨hkind, -, hleft, hne⟩ | ⟨hkind, -, hleft⟩ | ⟨hkind, -, hleft, hne⟩
    · -- opened: nothing was held, on neither side
      simp only [hkind] at hbasis hdid
      have hq := (quantity_of_fillFault?_eq_none hfault).1
      have hside : Quantity.sameSide p.amount q.amount = false := by simp [Quantity.sameSide, hzero]
      exact .starts (by simp [Trial.starts, hdid]) hside ((hamount.trans hleft).trans_ne hq) hprice hbasis
    · -- increased: the new basis is the average of the old one and the price
      have hside := sameSide_of_increased hkind
      simp only [hkind] at hbasis hdid
      rw [hleft] at hbasis hamount
      have hkept : Quantity.sameSide p.amount q.amount = true := by
        rw [hamount, Quantity.sameSide_comm]
        exact Quantity.sameSide_add hside
      have henters : Quantity.sameSide f.quantity p.amount = true := by rwa [Quantity.sameSide_comm]
      have hbetween : q.basis ∈ Set.uIcc p.basis f.price := hbasis ▸ average_between hside p.basis f.price
      exact .adds (by simp [Trial.starts, hdid]) hkept (by simp [Trial.enters, hdid, henters]) hprice hbetween
    · -- reduced: the fill lies on the other side, and the basis stays
      obtain ⟨hsame, hother⟩ := sides_of_reduced hkind
      simp only [hkind] at hbasis hdid
      have hkept : Quantity.sameSide p.amount q.amount = true := by rwa [hamount, Quantity.sameSide_comm]
      rw [Quantity.sameSide_comm] at hother
      exact .keeps (by simp [Trial.starts, hdid]) hkept (by simp [Trial.enters, hother]) hbasis
    · exact .ends (hamount.trans hleft)
    · -- flipped: what is left lies on the other side, at the price
      have hside : Quantity.sameSide p.amount q.amount = false := by
        rw [hamount, Quantity.sameSide_comm]
        exact not_sameSide_of_flipped hkind
      simp only [hkind] at hbasis hdid
      exact .starts (by simp [Trial.starts, hdid]) hside (hamount.trans_ne hne) hprice hbasis

end Settlement

/-! ## All fills -/

/-- **The fills that an exposure comes from**: the one that began it, and what was tried after that. -/
structure Position.EnteredBy (p : Position Rat) (entry : Trial Rat) (later : List (Trial Rat)) : Prop where
  /-- the first of them opened the position or turned it to the other side -/
  starts : entry.starts = true
  /-- before it the position was not on the side that it is on now -/
  fresh : Quantity.sameSide entry.held.amount p.amount = false
  /-- none of the later ones did so -/
  stays : ∀ x ∈ later, x.starts = false
  /-- since then the position was on the side that it is on now -/
  side : ∀ x ∈ entry :: later, Quantity.sameSide x.left.amount p.amount = true
  /-- the basis lies between the smallest and the largest price of entry -/
  spans : Spans (Trial.entryPrices p.amount entry later) p.basis
  /-- what did not add to the position left the basis as it was -/
  keeps : ∀ x ∈ later, x.enters p.amount = false → x.left.basis = x.held.basis
  /-- the basis is a price -/
  nonneg : 0 ≤ p.basis

/-- Some of the fills that were tried are those that a position comes from. -/
def Position.Entered (p : Position Rat) (xs : List (Trial Rat)) : Prop :=
  ∃ before entry later, xs = before ++ entry :: later ∧ p.EnteredBy entry later

namespace Position.EnteredBy

variable {x entry : Trial Rat} {later : List (Trial Rat)}

/-- What begins an exposure is all that it comes from. -/
theorem of_starts (hstarts : x.starts = true) (hside : Quantity.sameSide x.held.amount x.left.amount = false)
    (hleft : x.left.amount ≠ 0) (hprice : 0 ≤ x.fill.price) (hbasis : x.left.basis = x.fill.price) :
    x.left.EnteredBy x [] where
  starts := hstarts
  fresh := hside
  stays := List.forall_mem_nil _
  side := List.forall_mem_singleton.mpr (Quantity.sameSide_self hleft)
  spans := hbasis ▸ Spans.singleton x.fill.price
  keeps := List.forall_mem_nil _
  nonneg := hbasis ▸ hprice

/-- A fill that leaves the position on its side is one more of those that it comes from. -/
theorem concat (h : x.held.EnteredBy entry later) (hstays : x.starts = false)
    (hside : Quantity.sameSide x.held.amount x.left.amount = true)
    (hspans : Spans (Trial.entryPrices x.held.amount entry (later ++ [x])) x.left.basis)
    (hkeeps : x.enters x.held.amount = false → x.left.basis = x.held.basis) (hnonneg : 0 ≤ x.left.basis) :
    x.left.EnteredBy entry (later ++ [x]) where
  starts := h.starts
  fresh := by
    rw [← Quantity.sameSide_congr hside]
    exact h.fresh
  stays := List.forall_mem_append.mpr ⟨h.stays, List.forall_mem_singleton.mpr hstays⟩
  side := by
    rw [← List.cons_append]
    refine List.forall_mem_append.mpr ⟨fun y hy => ?_, List.forall_mem_singleton.mpr ?_⟩
    · rw [← Quantity.sameSide_congr hside]
      exact h.side y hy
    · rw [← Quantity.sameSide_congr hside, Quantity.sameSide_comm]
      exact hside
  spans := by rwa [← Trial.entryPrices_congr hside]
  keeps := by
    have henters : ∀ y : Trial Rat, y.enters x.left.amount = y.enters x.held.amount := fun y => by
      rw [Trial.enters, Trial.enters, Quantity.sameSide_congr hside]
    simp only [henters]
    exact List.forall_mem_append.mpr ⟨h.keeps, List.forall_mem_singleton.mpr hkeeps⟩
  nonneg := hnonneg

end Position.EnteredBy

/-- One more fill: what is left comes from the fills that were tried, if what was held does. -/
theorem Trial.Effect.entered {x : Trial Rat} {xs : List (Trial Rat)} (h : x.Effect) (hleft : x.left.amount ≠ 0)
    (hheld : x.held.amount ≠ 0 → x.held.Entered xs) : x.left.Entered (xs ++ [x]) := by
  cases h with
  | starts hstarts hside _ hprice hbasis =>
    exact ⟨xs, x, [], rfl, .of_starts hstarts hside hleft hprice hbasis⟩
  | adds hstays hside henters hprice hbasis =>
    obtain ⟨before, entry, later, rfl, hentered⟩ := hheld (Quantity.ne_zero_of_sameSide hside)
    refine ⟨before, entry, later ++ [x], by simp, hentered.concat hstays hside ?_ ?_ ?_⟩
    · rw [Trial.entryPrices_concat, if_pos henters]
      exact hentered.spans.concat hbasis
    · intro hother
      rw [henters] at hother
      cases hother
    · exact (le_min hentered.nonneg hprice).trans hbasis.1
  | keeps hstays hside henters hbasis =>
    obtain ⟨before, entry, later, rfl, hentered⟩ := hheld (Quantity.ne_zero_of_sameSide hside)
    refine ⟨before, entry, later ++ [x], by simp, hentered.concat hstays hside ?_ (fun _ => hbasis) ?_⟩
    · rw [Trial.entryPrices_concat, if_neg (by simp [henters]), List.append_nil, hbasis]
      exact hentered.spans
    · exact hbasis ▸ hentered.nonneg
  | ends hnothing => exact absurd hnothing hleft

namespace Settlement

/-- **The basis is an average of prices of entry.** Fills are tried one after the other from nothing held, and their
costs are expensed or are nothing. What is held after any of them goes back to the last fill that opened the position
or turned it. Its basis lies between the smallest and the largest of the price of that fill and the prices of the later
fills on the side of the position; no other fill has changed it since; and it is never negative. -/
theorem basis_between_entries (s : Settlement Rat) (asset : Asset) {fills : List (Fill Rat)}
    (hcost : s.treatment = .expensed ∨ ∀ f ∈ fills, f.cost = 0)
    (hheld : (s.after (.flat asset) fills).isFlat = false) :
    ∃ before entry later, s.trials (.flat asset) fills = before ++ entry :: later ∧
      (s.after (.flat asset) fills).EnteredBy entry later := by
  induction fills using List.reverseRecOn with
  | nil => cases hheld
  | append_singleton fills f ih =>
    have hcost' : s.treatment = .expensed ∨ ∀ g ∈ fills, g.cost = 0 :=
      hcost.imp_right fun h => (List.forall_mem_append.mp h).1
    have hf : s.treatment = .expensed ∨ f.cost = 0 :=
      hcost.imp_right fun h => h f (List.mem_append_right fills (List.mem_singleton_self f))
    rw [after_concat] at hheld ⊢
    rw [trials_concat]
    refine (trial_effect hf _).entered (by simpa [Position.isFlat] using hheld) fun hbefore => ?_
    rw [trial_held] at hbefore ⊢
    exact ih hcost' (by simpa [Position.isFlat] using hbefore)

/-- Ten are bought at 70; fifteen are sold at 60, which turns the position, and five at 50; a sale of a thousandth is
refused, and four are bought back at 90. The six that are owed have the basis of 55, between 60 and 50. -/
theorem basis_between_entries_owed :
    let s : Settlement Rat := .ofMinimum (1 / 100) .expensed
    let fills : List (Fill Rat) :=
      [⟨"SPY", 10, 70, 1, none, none⟩, ⟨"SPY", -15, 60, 1, none, none⟩, ⟨"SPY", -5, 50, 1, none, none⟩,
        ⟨"SPY", -1 / 1000, 10, 0, none, none⟩, ⟨"SPY", 4, 90, 1, none, none⟩]
    let p := s.after (.flat "SPY") fills
    s.treatment = .expensed ∧ p.isFlat = false ∧ p.amount = -6 ∧ p.basis = 55 ∧
      ∃ before entry later, s.trials (.flat "SPY") fills = before ++ entry :: later ∧ p.EnteredBy entry later := by
  intro s fills p
  have hheld : p.isFlat = false := by decide +kernel
  exact ⟨rfl, hheld, by decide +kernel, by decide +kernel, basis_between_entries s "SPY" (.inl rfl) hheld⟩

end Settlement

end Holdings
