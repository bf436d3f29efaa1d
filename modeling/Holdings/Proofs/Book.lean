import Mathlib
import Holdings.Book

/-!
# What a book holds

A book is looked at in two ways: by what it answers to `get?`, and by the list of its entries. The lemmas here
go between the two. An insertion and an erasure each change one entry, so a sum over the values of a book
changes by what that one entry is worth.
-/

namespace Holdings

namespace Entries

variable {β : Type} {key : Asset} {value : β} {l : List (Asset × β)}

/-- Rising entries are looked up by membership. -/
theorem find?_eq_some_iff : ∀ {l : List (Asset × β)}, Rising l →
    (find? key l = some value ↔ (key, value) ∈ l)
  | [], _ => by simp [find?]
  | (k, v) :: rest, h => by
    obtain ⟨hhead, htail⟩ := List.pairwise_cons.mp h
    rw [find?]
    split
    · next heq =>
      subst heq
      constructor
      · intro hv
        obtain rfl := Option.some.inj hv
        exact List.mem_cons_self ..
      · intro hmem
        rcases List.mem_cons.mp hmem with heq | hrest
        · rw [(Prod.mk.inj heq).2]
        · exact absurd (hhead _ hrest) (String.lt_irrefl k)
    · next hne =>
      rw [find?_eq_some_iff htail]
      simp [Ne.symm hne]

theorem drop_eq_self (h : find? key l = none) : drop key l = l := by
  induction l with
  | nil => rfl
  | cons e rest ih =>
    obtain ⟨k, v⟩ := e
    rw [find?] at h
    split at h
    · cases h
    · next hne =>
      rw [drop, List.filter_cons_of_pos (by simpa using hne)]
      exact congrArg _ (ih h)

/-- The entry of a key and the entries of all others are all entries. -/
theorem perm_drop_of_find? : ∀ {l : List (Asset × β)}, Rising l → find? key l = some value →
    l.Perm ((key, value) :: drop key l)
  | [], _, h => by simp [find?] at h
  | (k, v) :: rest, h, hf => by
    obtain ⟨hhead, htail⟩ := List.pairwise_cons.mp h
    rw [find?] at hf
    split at hf
    · next heq =>
      subst heq
      obtain rfl := Option.some.inj hf
      have hnone : find? k rest = none := find?_eq_none_of_lt hhead
      rw [drop, List.filter_cons_of_neg (by simp)]
      exact (List.Perm.of_eq (drop_eq_self hnone).symm).cons _
    · next hne =>
      rw [drop, List.filter_cons_of_pos (by simpa using hne)]
      exact ((perm_drop_of_find? htail hf).cons _).trans (List.Perm.swap ..)

/-- Putting a value in is dropping what was there and adding the new entry. -/
theorem put_perm (key : Asset) (value : β) : ∀ {l : List (Asset × β)}, Rising l →
    (put key value l).Perm ((key, value) :: drop key l)
  | [], _ => by simp [put, drop]
  | (k, v) :: rest, h => by
    obtain ⟨hhead, htail⟩ := List.pairwise_cons.mp h
    rw [put]
    split
    · next hlt => rw [drop_eq_self (find?_eq_none_of_lt_head h hlt)]
    · split
      · next heq =>
        subst heq
        have hnone : find? k rest = none := find?_eq_none_of_lt hhead
        rw [drop, List.filter_cons_of_neg (by simp)]
        exact (List.Perm.of_eq (drop_eq_self hnone).symm).cons _
      · next hne =>
        rw [drop, List.filter_cons_of_pos (by simpa using hne)]
        exact ((put_perm key value htail).cons _).trans (List.Perm.swap ..)

/-- Of what rising entries give, the part of one key is what the entry of that key gives. -/
theorem filter_filterMap {γ : Type} (key : Asset) {f : Asset × β → Option γ} {tag : γ → Asset} :
    ∀ {l : List (Asset × β)}, Rising l → (∀ e ∈ l, ∀ y, f e = some y → tag y = e.1) →
    (l.filterMap f).filter (fun y => tag y = key) = ((find? key l).bind fun v => f (key, v)).toList
  | [], _, _ => rfl
  | (k, v) :: rest, h, htag => by
    obtain ⟨hhead, htail⟩ := List.pairwise_cons.mp h
    have ih := filter_filterMap key htail fun e he => htag e (List.mem_cons_of_mem _ he)
    rw [find?]
    split
    · next heq =>
      subst heq
      rw [find?_eq_none_of_lt hhead, Option.bind_none, Option.toList_none] at ih
      rcases hf : f (k, v) with - | y
      · rw [List.filterMap_cons_none hf, ih, Option.bind_some, hf, Option.toList_none]
      · have hy : tag y = k := htag (k, v) (List.mem_cons_self ..) y hf
        rw [List.filterMap_cons_some hf, List.filter_cons_of_pos (by simpa using hy), ih,
          Option.bind_some, hf, Option.toList_some]
    · next hne =>
      rcases hf : f (k, v) with - | y
      · rw [List.filterMap_cons_none hf, ih]
      · have hy : tag y = k := htag (k, v) (List.mem_cons_self ..) y hf
        rw [List.filterMap_cons_some hf, List.filter_cons_of_neg (by simpa [hy] using hne), ih]

end Entries

namespace Book

variable {β : Type}

/-- An entry of a book is what the book answers. -/
theorem get?_eq_some_iff {b : Book β} {asset : Asset} {v : β} :
    b.get? asset = some v ↔ (asset, v) ∈ b.entries :=
  Entries.find?_eq_some_iff b.rising

theorem mem_values_iff {b : Book β} {v : β} :
    v ∈ b.values ↔ ∃ asset, b.get? asset = some v := by
  simp only [values, List.mem_map, get?_eq_some_iff]
  constructor
  · rintro ⟨e, he, rfl⟩
    exact ⟨e.1, he⟩
  · rintro ⟨asset, he⟩
    exact ⟨(asset, v), he, rfl⟩

/-- The assets of a book rise. -/
theorem assets_rising (b : Book β) : b.assets.Pairwise (· < ·) :=
  List.pairwise_map.mpr b.rising

/-! ## Sums over the values -/

/-- The sum of a weight over all values. -/
def sum (f : β → Rat) (b : Book β) : Rat := (b.values.map f).sum

/-- The weight of the value of an asset, nothing where it has none. -/
def weight (f : β → Rat) (b : Book β) (asset : Asset) : Rat := ((b.get? asset).map f).getD 0

@[simp] theorem sum_empty (f : β → Rat) : (empty : Book β).sum f = 0 := rfl

/-- Taking an asset out takes its weight off the sum. -/
theorem sum_erase (f : β → Rat) (b : Book β) (asset : Asset) :
    (b.erase asset).sum f = b.sum f - b.weight f asset := by
  rw [weight]
  rcases hg : b.get? asset with - | v
  · have hdrop : Entries.drop asset b.entries = b.entries := Entries.drop_eq_self hg
    simp [sum, values, erase, hdrop]
  · have hperm := ((Entries.perm_drop_of_find? b.rising hg).map Prod.snd).map f
    have hsum := hperm.sum_eq
    simp only [List.map_cons, List.sum_cons] at hsum
    simp only [sum, values, erase, hsum, Option.map_some, Option.getD_some]
    ring

/-- Giving an asset a value puts the weight of that value in place of the one it had. -/
theorem sum_insert (f : β → Rat) (b : Book β) (asset : Asset) (v : β) :
    (b.insert asset v).sum f = b.sum f - b.weight f asset + f v := by
  have hperm := ((Entries.put_perm asset v b.rising).map Prod.snd).map f
  have hsum : (b.insert asset v).sum f = f v + (b.erase asset).sum f := hperm.sum_eq
  rw [hsum, sum_erase]
  ring

/-- Changing values without changing their weights leaves the sum. -/
theorem sum_map (f : β → Rat) (b : Book β) {g : Asset → β → β} (h : ∀ a v, f (g a v) = f v) :
    (b.map g).sum f = b.sum f := by
  simp [sum, values, map, Function.comp_def, h]

/-- Where a value is replaced by one of the same weight the sum stays. -/
theorem sum_insert_of_eq {f : β → Rat} {b : Book β} {asset : Asset} {v w : β}
    (hv : b.get? asset = some v) (h : f w = f v) : (b.insert asset w).sum f = b.sum f := by
  rw [sum_insert, weight, hv, Option.map_some, Option.getD_some, h]
  ring

/-! ## Books of lists -/

/-- What the book of a list answers is in the list. -/
theorem mem_of_get?_ofList {l : List (Asset × β)} {asset : Asset} {v : β}
    (h : (ofList l).get? asset = some v) : (asset, v) ∈ l := by
  suffices hacc : ∀ (l : List (Asset × β)) (acc : Book β),
      (l.foldl (fun b e => b.insert e.1 e.2) acc).get? asset = some v →
        (asset, v) ∈ l ∨ acc.get? asset = some v by
    rcases hacc l empty h with hmem | hempty
    · exact hmem
    · cases hempty
  intro l
  induction l with
  | nil => intro acc hget; exact .inr hget
  | cons e rest ih =>
    obtain ⟨k, w⟩ := e
    intro acc hget
    rcases ih _ hget with hmem | hins
    · exact .inl (List.mem_cons_of_mem _ hmem)
    · rw [get?_insert] at hins
      split at hins
      · next heq =>
        subst heq
        obtain rfl := Option.some.inj hins
        exact .inl (List.mem_cons_self ..)
      · exact .inr hins

/-- The book of a list with one value for each asset has the entries of the list, in the order of the assets. -/
theorem ofList_perm {l : List (Asset × β)} (h : (l.map Prod.fst).Nodup) : (ofList l).entries.Perm l := by
  suffices hacc : ∀ (l : List (Asset × β)) (acc : Book β), (l.map Prod.fst).Nodup →
      (∀ e ∈ l, acc.get? e.1 = none) →
      (l.foldl (fun b e => b.insert e.1 e.2) acc).entries.Perm (l ++ acc.entries) by
    exact (hacc l empty h fun _ _ => get?_empty _).trans (List.Perm.of_eq (List.append_nil l))
  intro l
  induction l with
  | nil => intro acc _ _; exact List.Perm.refl _
  | cons e rest ih =>
    intro acc hnodup hfresh
    obtain ⟨hnot, hnodup⟩ := List.nodup_cons.mp hnodup
    obtain ⟨hnone, hfresh⟩ := List.forall_mem_cons.mp hfresh
    have hins : (acc.insert e.1 e.2).entries.Perm (e :: acc.entries) := by
      have hput := Entries.put_perm e.1 e.2 acc.rising
      rwa [Entries.drop_eq_self hnone] at hput
    refine (ih _ hnodup fun e' he' => ?_).trans ((hins.append_left rest).trans List.perm_middle)
    have hne : e.1 ≠ e'.1 := fun heq => hnot (heq ▸ List.mem_map_of_mem he')
    rw [get?_insert, if_neg hne]
    exact hfresh e' he'

/-- Such a book answers what the list has. -/
theorem get?_ofList_eq_some_iff {l : List (Asset × β)} (h : (l.map Prod.fst).Nodup) {asset : Asset} {v : β} :
    (ofList l).get? asset = some v ↔ (asset, v) ∈ l :=
  get?_eq_some_iff.trans (ofList_perm h).mem_iff

/-- It does not matter in which order the list has them. -/
theorem ofList_eq_of_perm {l l' : List (Asset × β)} (hperm : l.Perm l') (h : (l.map Prod.fst).Nodup) :
    ofList l = ofList l' := by
  have h' : (l'.map Prod.fst).Nodup := (hperm.map Prod.fst).nodup_iff.mp h
  refine ext_get? fun asset => Option.ext fun v => ?_
  rw [get?_ofList_eq_some_iff h, get?_ofList_eq_some_iff h', hperm.mem_iff]

/-- The book of the entries of a book is that book. -/
theorem ofList_entries (b : Book β) : ofList b.entries = b := by
  suffices h : ∀ (l : List (Asset × β)) (acc : Book β), Entries.Rising l → ∀ a,
      (l.foldl (fun b e => b.insert e.1 e.2) acc).get? a = (Entries.find? a l <|> acc.get? a) by
    refine ext_get? fun a => ?_
    rw [ofList, h b.entries empty b.rising a]
    cases hf : Entries.find? a b.entries <;> simp [get?, hf, empty, Entries.find?]
  intro l
  induction l with
  | nil => intro acc _ a; simp [Entries.find?]
  | cons e rest ih =>
    obtain ⟨k, v⟩ := e
    intro acc hl a
    obtain ⟨hhead, htail⟩ := List.pairwise_cons.mp hl
    rw [List.foldl_cons, ih _ htail a, get?_insert, Entries.find?]
    by_cases hk : k = a
    · subst hk
      have hnone : Entries.find? k rest = none := Entries.find?_eq_none_of_lt hhead
      simp [hnone]
    · simp [hk]

end Book

end Holdings
