import Mathlib
import Holdings.Proofs.Account.Trigger

/-!
# A look at all positions

`Account.triggerAll` looks at every position whose asset has a price, and changes the book while it goes through it. It
does what single looks do one after the other, and since a look reads and writes no more than the position in its asset
their order does not matter to the book.

* `Account.Swept` — what looks at different assets find and leave, said without an order: it determines the book, and
  the trades up to the order of the looks (`Account.Swept.perm`);
* `Account.swept_triggerEach` and `Account.swept_triggerAll` — looks one after the other and the look at all of them
  are such;
* `Account.triggerAll_one_by_one` — so the look at all positions is the looks at each of them in the order of the
  assets, and in any other order but for the order of the trades.
-/

namespace Holdings

variable {α : Type} [Quantity α]

namespace Account

/-- The positions that have a price, in the order of the assets. -/
def looks (a : Account α) (priceOf : Asset → Option α) : List (Asset × α) :=
  a.book.assets.filterMap fun asset => (priceOf asset).map (asset, ·)

/-- Looks at the positions in a list of assets, each at its price and one after the other: the trades that leave
positions, and the account after the last look. -/
def triggerEach (time : Option Instant) : Account α → List (Asset × α) → List (ExitIntent α) × Account α
  | a, [] => ([], a)
  | a, (asset, price) :: rest =>
    match a.trigger? asset price time with
    | none => triggerEach time a rest
    | some (intent, b) => ((triggerEach time b rest).1.cons intent, (triggerEach time b rest).2)

variable {a b : Account α} {time : Option Instant} {look : Asset × α} {looks : List (Asset × α)}

/-! ## One look -/

/-- What a look finds: the trade that leaves the position, and the position after it. -/
def fired? (a : Account α) (time : Option Instant) (look : Asset × α) : Option (ExitIntent α × Position α) :=
  (a.get? look.1).bind fun p => p.trigger? look.2 time

/-- The account after a look. -/
def looked (a : Account α) (time : Option Instant) (look : Asset × α) : Account α :=
  (a.fired? time look).elim a fun x => a.keep look.1 x.2

/-- What a look finds depends on the position in its asset alone. -/
theorem fired?_congr (h : a.get? look.1 = b.get? look.1) : a.fired? time look = b.fired? time look := by
  rw [fired?, fired?, h]

/-- In the asset that was looked at there is the position that was left, or else the one that was there. -/
theorem get?_looked_self : (a.looked time look).get? look.1 =
    ((a.fired? time look).map Prod.snd).or (a.get? look.1) := by
  rw [looked]
  rcases a.fired? time look with - | ⟨intent, q⟩
  · rfl
  · exact (get?_keep ..).trans (if_pos rfl)

theorem get?_looked_of_ne {asset : Asset} (h : asset ≠ look.1) : (a.looked time look).get? asset = a.get? asset := by
  rw [looked]
  rcases a.fired? time look with - | ⟨intent, q⟩
  · rfl
  · exact (get?_keep ..).trans (if_neg h.symm)

/-- The first look is made on the account as it is, and the others on the account after it. -/
theorem triggerEach_cons (time : Option Instant) (a : Account α) (look : Asset × α) (rest : List (Asset × α)) :
    triggerEach time a (look :: rest) =
      (((a.fired? time look).map Prod.fst).toList ++ (triggerEach time (a.looked time look) rest).1,
        (triggerEach time (a.looked time look) rest).2) := by
  have hlook : a.trigger? look.1 look.2 time = (a.fired? time look).map fun x => (x.1, a.keep look.1 x.2) := by
    rw [trigger?, fired?]
    rcases a.get? look.1 with - | p <;> rfl
  rw [triggerEach, hlook, looked]
  rcases a.fired? time look with - | ⟨intent, q⟩ <;> rfl

/-! ## Looks at different assets -/

/-- **What looks find and leave**: the trades of those that find anything, and in each asset that was looked at the
position that was left, or else the one that was there. -/
structure Swept (a : Account α) (time : Option Instant) (looks : List (Asset × α))
    (result : List (ExitIntent α) × Account α) : Prop where
  /-- the trades, in the order of the looks -/
  intents : result.1 = looks.filterMap fun look => (a.fired? time look).map Prod.fst
  /-- what is held in an asset that was looked at -/
  looked : ∀ look ∈ looks, result.2.get? look.1 = ((a.fired? time look).map Prod.snd).or (a.get? look.1)
  /-- what is held in any other asset -/
  other : ∀ asset, asset ∉ looks.map Prod.fst → result.2.get? asset = a.get? asset
  /-- the profit -/
  realized : result.2.realized = a.realized

/-- **Looks one after the other**, no two of them at one asset. The induction is on the looks: the position that a look
leaves is not looked at again, and those that are looked at later are as they were. -/
theorem swept_triggerEach (time : Option Instant) :
    ∀ {looks : List (Asset × α)} {a : Account α}, (looks.map Prod.fst).Nodup →
      Swept a time looks (triggerEach time a looks) := by
  intro looks
  induction looks with
  | nil =>
    intro a _
    exact ⟨rfl, fun look hlook => absurd hlook List.not_mem_nil, fun _ _ => rfl, rfl⟩
  | cons look rest ih =>
    intro a hnodup
    obtain ⟨hnew, hrest⟩ := List.nodup_cons.mp hnodup
    have hswept := ih (a := a.looked time look) hrest
    have hlater : ∀ later ∈ rest, (a.looked time look).get? later.1 = a.get? later.1 := by
      intro later hmem
      exact get?_looked_of_ne fun heq => hnew (heq ▸ List.mem_map_of_mem hmem)
    rw [triggerEach_cons]
    constructor
    · have hsame : ∀ later ∈ rest, ((a.looked time look).fired? time later).map Prod.fst =
          (a.fired? time later).map Prod.fst := by
        intro later hmem
        rw [fired?_congr (hlater later hmem)]
      rw [hswept.intents, List.filterMap_congr hsame, List.filterMap_cons]
      rcases a.fired? time look with - | ⟨intent, q⟩ <;> rfl
    · intro x hx
      rcases List.mem_cons.mp hx with rfl | hmem
      · exact (hswept.other x.1 hnew).trans get?_looked_self
      · have hfound := hswept.looked x hmem
        rwa [fired?_congr (hlater x hmem), hlater x hmem] at hfound
    · intro asset hasset
      obtain ⟨hne, hnot⟩ := not_or.mp (fun h => hasset (List.mem_cons.mpr h))
      exact (hswept.other asset hnot).trans (get?_looked_of_ne hne)
    · refine hswept.realized.trans ?_
      rw [looked]
      rcases a.fired? time look with - | ⟨intent, q⟩ <;> rfl

/-! ## The look at all positions -/

section All

variable (a : Account α) (priceOf : Asset → Option α) (time : Option Instant)

omit [Quantity α] in
/-- The looks rise with their assets. -/
theorem looks_rising : (a.looks priceOf).Pairwise fun x y => x.1 < y.1 := by
  refine List.Pairwise.filterMap _ ?_ a.book.assets_rising
  intro asset asset' hlt x hx y hy
  obtain ⟨price, -, rfl⟩ := Option.map_eq_some_iff.mp hx
  obtain ⟨price', -, rfl⟩ := Option.map_eq_some_iff.mp hy
  exact hlt

omit [Quantity α] in
/-- No two of them are at one asset. -/
theorem looks_nodup : ((a.looks priceOf).map Prod.fst).Nodup := by
  refine List.pairwise_map.mpr ((looks_rising a priceOf).imp ?_)
  intro x y hlt heq
  exact String.lt_irrefl x.1 (heq ▸ hlt)

omit [Quantity α] in
/-- What is looked at is held and has a price. -/
theorem mem_looks : look ∈ a.looks priceOf ↔ (a.get? look.1).isSome = true ∧ priceOf look.1 = some look.2 := by
  have hheld : ∀ asset, asset ∈ a.book.assets ↔ (a.get? asset).isSome = true := by
    intro asset
    simp only [Book.assets, List.mem_map, Option.isSome_iff_exists, get?, Book.get?_eq_some_iff]
    constructor
    · rintro ⟨e, he, rfl⟩
      exact ⟨e.2, he⟩
    · rintro ⟨p, hp⟩
      exact ⟨(asset, p), hp, rfl⟩
  rw [looks, List.mem_filterMap]
  constructor
  · rintro ⟨asset, hasset, hlook⟩
    obtain ⟨price, hprice, rfl⟩ := Option.map_eq_some_iff.mp hlook
    exact ⟨(hheld asset).mp hasset, hprice⟩
  · rintro ⟨hasset, hprice⟩
    exact ⟨look.1, (hheld look.1).mpr hasset, by rw [hprice]; rfl⟩

/-- The look at all positions changes each of them as a look at it would. -/
theorem get?_triggerAll (asset : Asset) : (a.triggerAll priceOf time).2.get? asset = (a.get? asset).map fun p =>
    (((priceOf asset).bind fun price => p.trigger? price time).map Prod.snd).getD p :=
  Book.get?_map ..

/-- **The look at all positions** is one of looks at those that have a price. -/
theorem swept_triggerAll : Swept a time (a.looks priceOf) (a.triggerAll priceOf time) where
  intents := by
    rw [looks, Book.assets, List.filterMap_map, List.filterMap_filterMap]
    refine List.filterMap_congr fun e he => ?_
    have hget : a.get? e.1 = some e.2 := Book.get?_eq_some_iff.mpr he
    simp only [Function.comp_apply]
    rcases priceOf e.1 with - | price
    · rfl
    · simp only [Option.bind_some, Option.map_some, fired?, hget]
  looked := by
    intro look hlook
    obtain ⟨hheld, hprice⟩ := (mem_looks a priceOf).mp hlook
    obtain ⟨p, hp⟩ := Option.isSome_iff_exists.mp hheld
    rw [get?_triggerAll, fired?, hp, hprice]
    simp only [Option.map_some, Option.bind_some]
    rcases p.trigger? look.2 time with - | ⟨intent, q⟩ <;> rfl
  other := by
    intro asset hasset
    rw [get?_triggerAll]
    rcases hp : a.get? asset with - | p
    · rfl
    · -- what is held and was not looked at has no price
      rcases hprice : priceOf asset with - | price
      · rfl
      · have hlook : (asset, price) ∈ a.looks priceOf := (mem_looks a priceOf).mpr ⟨by rw [hp]; rfl, hprice⟩
        exact absurd (List.mem_map_of_mem hlook) hasset
  realized := rfl

end All

/-- **The order of the looks** matters to the order of the trades alone. -/
theorem Swept.perm {looks' : List (Asset × α)} {x y : List (ExitIntent α) × Account α} (hx : Swept a time looks x)
    (hy : Swept a time looks' y) (h : looks.Perm looks') : x.2 = y.2 ∧ x.1.Perm y.1 := by
  constructor
  · refine ext_get? (fun asset => ?_) (hx.realized.trans hy.realized.symm)
    by_cases hmem : asset ∈ looks.map Prod.fst
    · obtain ⟨look, hlook, rfl⟩ := List.mem_map.mp hmem
      rw [hx.looked look hlook, hy.looked look (h.mem_iff.mp hlook)]
    · have hmem' : asset ∉ looks'.map Prod.fst := fun hmem' => hmem ((h.map Prod.fst).mem_iff.mpr hmem')
      rw [hx.other asset hmem, hy.other asset hmem']
  · rw [hx.intents, hy.intents]
    exact h.filterMap _

/-- Looks in the order of assets find trades in that order, where every position is kept under its own asset. -/
theorem Swept.rising {x : List (ExitIntent α) × Account α} (hx : Swept a time looks x)
    (hlooks : looks.Pairwise fun look look' => look.1 < look'.1)
    (hown : ∀ asset p, a.get? asset = some p → p.asset = asset) :
    (x.1.map ExitIntent.asset).Pairwise (· < ·) := by
  have hasset : ∀ look intent, (a.fired? time look).map Prod.fst = some intent → intent.asset = look.1 := by
    intro look intent h
    obtain ⟨⟨intent, q⟩, hfired, rfl⟩ := Option.map_eq_some_iff.mp h
    obtain ⟨p, hp, htrigger⟩ := Option.bind_eq_some_iff.mp hfired
    exact (Position.asset_of_trigger? htrigger).trans (hown look.1 p hp)
  rw [hx.intents]
  refine List.pairwise_map.mpr (List.Pairwise.filterMap _ ?_ hlooks)
  intro look look' hlt intent hintent intent' hintent'
  rw [hasset look intent hintent, hasset look' intent' hintent']
  exact hlt

/-- **The look at all positions is a look at one after the other.** On every account and whatever price each asset has,
if any, finite or not, it finds the trades and leaves the account that the single looks do, at each position that has a
price and in the order of the assets. In any other order the single looks leave the same account, and find the same
trades in another order. Where every position is kept under its own asset, the trades are in the strict order of their
assets, so that there is at most one for each. -/
theorem triggerAll_one_by_one (a : Account α) (priceOf : Asset → Option α) (time : Option Instant) :
    a.triggerAll priceOf time = triggerEach time a (a.looks priceOf) ∧
      (∀ order : List (Asset × α), order.Perm (a.looks priceOf) →
        (triggerEach time a order).2 = (a.triggerAll priceOf time).2 ∧
          (triggerEach time a order).1.Perm (a.triggerAll priceOf time).1) ∧
      ((∀ asset p, a.get? asset = some p → p.asset = asset) →
        ((a.triggerAll priceOf time).1.map ExitIntent.asset).Pairwise (· < ·)) := by
  have hall := swept_triggerAll a priceOf time
  have hnodup := looks_nodup a priceOf
  have heach := swept_triggerEach (a := a) time hnodup
  refine ⟨Prod.ext (hall.intents.trans heach.intents.symm) (hall.perm heach (List.Perm.refl _)).1, ?_, ?_⟩
  · intro order hperm
    have hnodup' := (hperm.map Prod.fst).nodup_iff.mpr hnodup
    exact (swept_triggerEach time hnodup').perm hall hperm
  · intro hown
    exact hall.rising (looks_rising a priceOf) hown

/-- Ten shares each of three assets, with a stop-loss at 90. -/
def threeGuarded : List (Operation Float) :=
  ["QQQ", "SPY", "IWM"].map fun asset => .fill ⟨asset, 10, 100, 0, none, some ⟨some 90, none⟩⟩

/-- Two of three positions have a price at which they are left. They are left in the order of their assets, and looked
at the other way round they leave the same account. -/
theorem triggerAll_one_by_one_guarded :
    let a := empty.run usualTerms threeGuarded
    let priceOf := fun asset : Asset => if asset = "QQQ" then none else some (89 : Float)
    (a.triggerAll priceOf none).1.map ExitIntent.asset = ["IWM", "SPY"] ∧
      ((a.triggerAll priceOf none).1.map ExitIntent.asset).Pairwise (· < ·) ∧
      (triggerEach none a [("SPY", 89), ("IWM", 89)]).2 = (a.triggerAll priceOf none).2 := by
  intro a priceOf
  obtain ⟨-, horder, hrising⟩ := triggerAll_one_by_one a priceOf none
  have hheld : All Position.Held a := All.run (Position.stable_held usualTerms) threeGuarded all_empty
  have hlooks : a.looks priceOf = [("IWM", 89), ("SPY", 89)] := by decide +kernel
  refine ⟨by decide +kernel, hrising fun asset p hp => (hheld hp).asset_eq, (horder _ ?_).1⟩
  rw [hlooks]
  exact List.Perm.swap ..

end Account

end Holdings
