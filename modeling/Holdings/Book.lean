import Holdings.Bar

/-!
# Books: values by asset

A `Book` holds at most one value for each asset, in the order of the assets. Two texts are ordered by
their first different character, which is also the order of their UTF-8 bytes. The order is part of the
type, so a book is determined by what it answers to `get?` (`Book.ext_get?`).
-/

namespace Holdings

namespace Entries

variable {β : Type}

/-- Keys that rise strictly. -/
def Rising (l : List (Asset × β)) : Prop := l.Pairwise fun x y => x.1 < y.1

/-- The value of a key in a list of entries. -/
def find? (key : Asset) : List (Asset × β) → Option β
  | [] => none
  | (k, v) :: rest => if k = key then some v else find? key rest

/-- Puts a value into rising entries, in place of the one that was there. -/
def put (key : Asset) (value : β) : List (Asset × β) → List (Asset × β)
  | [] => [(key, value)]
  | (k, v) :: rest =>
    if key < k then (key, value) :: (k, v) :: rest
    else if k = key then (key, value) :: rest
    else (k, v) :: put key value rest

/-- Takes a key out of a list of entries. -/
def drop (key : Asset) (l : List (Asset × β)) : List (Asset × β) := l.filter fun e => e.1 ≠ key

theorem lt_of_ne_of_not_lt {a b : Asset} (hne : b ≠ a) (h : ¬a < b) : b < a := by
  rcases Decidable.em (b < a) with hlt | hlt
  · exact hlt
  · exact absurd (String.le_antisymm (String.not_lt.mp h) (String.not_lt.mp hlt)) hne

theorem mem_put {key : Asset} {value : β} {e : Asset × β} :
    ∀ {l : List (Asset × β)}, e ∈ put key value l → e = (key, value) ∨ e ∈ l
  | [], h => by simpa [put] using h
  | (k, v) :: rest, h => by
    rw [put] at h
    split at h
    · simpa using h
    · split at h
      · rcases List.mem_cons.mp h with h | h
        · exact .inl h
        · exact .inr (List.mem_cons_of_mem _ h)
      · rcases List.mem_cons.mp h with h | h
        · exact .inr (h ▸ List.mem_cons_self ..)
        · exact (mem_put h).imp_right (List.mem_cons_of_mem _)

/-- Putting a value in keeps the order. -/
theorem rising_put (key : Asset) (value : β) :
    ∀ {l : List (Asset × β)}, Rising l → Rising (put key value l)
  | [], _ => by simp [put, Rising]
  | (k, v) :: rest, h => by
    obtain ⟨hhead, htail⟩ := List.pairwise_cons.mp h
    rw [put]
    split
    · next hlt =>
      refine List.pairwise_cons.mpr ⟨fun e he => ?_, h⟩
      rcases List.mem_cons.mp he with rfl | he
      · exact hlt
      · exact String.lt_trans hlt (hhead e he)
    · next hlt =>
      split
      · next heq => exact List.pairwise_cons.mpr ⟨fun e he => heq ▸ hhead e he, htail⟩
      · next hne =>
        refine List.pairwise_cons.mpr ⟨fun e he => ?_, rising_put key value htail⟩
        rcases mem_put he with rfl | he
        · exact lt_of_ne_of_not_lt hne hlt
        · exact hhead e he

/-- Taking a key out keeps the order. -/
theorem rising_drop (key : Asset) {l : List (Asset × β)} (h : Rising l) : Rising (drop key l) :=
  List.Pairwise.filter _ h

/-- Changing values keeps the order. -/
theorem rising_map (f : Asset → β → β) {l : List (Asset × β)} (h : Rising l) :
    Rising (l.map fun e => (e.1, f e.1 e.2)) :=
  List.pairwise_map.mpr h

theorem find?_put (key key' : Asset) (value : β) :
    ∀ l : List (Asset × β),
      find? key' (put key value l) = if key = key' then some value else find? key' l
  | [] => by simp [put, find?]
  | (k, v) :: rest => by
    rw [put]
    split
    · next hlt =>
      rw [find?]
    · split
      · next heq =>
        subst heq
        by_cases h : k = key' <;> simp [find?, h]
      · next hne =>
        rw [find?, find?, find?_put key key' value rest]
        by_cases h : k = key'
        · subst h
          simp [Ne.symm hne]
        · simp [h]

theorem find?_drop (key key' : Asset) :
    ∀ l : List (Asset × β),
      find? key' (drop key l) = if key = key' then none else find? key' l
  | [] => by simp [drop, find?]
  | (k, v) :: rest => by
    have ih := find?_drop key key' rest
    rw [drop] at ih ⊢
    by_cases h : k = key
    · subst h
      rw [List.filter_cons_of_neg (by simp), ih, find?]
      by_cases hk : k = key' <;> simp [hk]
    · rw [List.filter_cons_of_pos (by simpa using h), find?, ih, find?]
      by_cases hk : k = key'
      · subst hk
        simp [Ne.symm h]
      · simp [hk]

theorem find?_map (f : Asset → β → β) (key : Asset) :
    ∀ l : List (Asset × β),
      find? key (l.map fun e => (e.1, f e.1 e.2)) = (find? key l).map (f key)
  | [] => rfl
  | (k, v) :: rest => by
    rw [List.map_cons, find?, find?, find?_map f key rest]
    by_cases h : k = key
    · subst h
      simp
    · simp [h]

/-- A key before all the others is not among them. -/
theorem find?_eq_none_of_lt {key : Asset} :
    ∀ {l : List (Asset × β)}, (∀ e ∈ l, key < e.1) → find? key l = none
  | [], _ => rfl
  | (k, v) :: rest, h => by
    have hk : k ≠ key := fun he => String.lt_irrefl key (he ▸ h (k, v) (List.mem_cons_self ..))
    rw [find?, if_neg hk]
    exact find?_eq_none_of_lt fun e he => h e (List.mem_cons_of_mem _ he)

/-- A key before the first of rising entries is not among them. -/
theorem find?_eq_none_of_lt_head {key : Asset} {e : Asset × β} {rest : List (Asset × β)}
    (h : Rising (e :: rest)) (hlt : key < e.1) : find? key (e :: rest) = none := by
  refine find?_eq_none_of_lt fun e' he' => ?_
  rcases List.mem_cons.mp he' with rfl | he'
  · exact hlt
  · exact String.lt_trans hlt ((List.pairwise_cons.mp h).1 e' he')

/-- Rising entries are determined by the value of every key. -/
theorem eq_of_find? :
    ∀ {l l' : List (Asset × β)}, Rising l → Rising l' → (∀ k, find? k l = find? k l') → l = l'
  | [], [], _, _, _ => rfl
  | [], (k, v) :: rest, _, _, h => by simpa [find?] using h k
  | (k, v) :: rest, [], _, _, h => by simpa [find?] using h k
  | (k, v) :: rest, (k', v') :: rest', hl, hl', h => by
    have hkk : k = k' := by
      rcases Decidable.em (k < k') with hlt | hge
      · have h' := h k
        rw [find?_eq_none_of_lt_head hl' hlt] at h'
        simp [find?] at h'
      · rcases Decidable.em (k = k') with heq | hne
        · exact heq
        · have hlt : k' < k := lt_of_ne_of_not_lt (Ne.symm hne) hge
          have h' := h k'
          rw [find?_eq_none_of_lt_head hl hlt] at h'
          simp [find?] at h'
    subst hkk
    have hv : v = v' := by simpa [find?] using h k
    subst hv
    obtain ⟨hhead, htail⟩ := List.pairwise_cons.mp hl
    obtain ⟨hhead', htail'⟩ := List.pairwise_cons.mp hl'
    have hrest : rest = rest' := eq_of_find? htail htail' fun key => by
      by_cases hk : k = key
      · subst hk
        rw [find?_eq_none_of_lt hhead, find?_eq_none_of_lt hhead']
      · have h' := h key
        rwa [find?, find?, if_neg hk, if_neg hk] at h'
    rw [hrest]

end Entries

/-- Values by asset, in the order of the assets. -/
structure Book (β : Type) where
  /-- the assets with their values -/
  entries : List (Asset × β)
  /-- the assets rise strictly -/
  rising : Entries.Rising entries

namespace Book

variable {β : Type}

/-- No values. -/
def empty : Book β := ⟨[], List.Pairwise.nil⟩

/-- The value of an asset, if it has one. -/
def get? (b : Book β) (asset : Asset) : Option β := Entries.find? asset b.entries

/-- Gives an asset a value, in place of the one that it had. -/
def insert (b : Book β) (asset : Asset) (value : β) : Book β :=
  ⟨Entries.put asset value b.entries, Entries.rising_put asset value b.rising⟩

/-- Takes the value of an asset away. -/
def erase (b : Book β) (asset : Asset) : Book β :=
  ⟨Entries.drop asset b.entries, Entries.rising_drop asset b.rising⟩

/-- Changes every value. -/
def map (b : Book β) (f : Asset → β → β) : Book β :=
  ⟨b.entries.map fun e => (e.1, f e.1 e.2), Entries.rising_map f b.rising⟩

/-- The values in the order of their assets. -/
def values (b : Book β) : List β := b.entries.map Prod.snd

/-- The assets that have a value, in order. -/
def assets (b : Book β) : List Asset := b.entries.map Prod.fst

/-- How many assets have a value. -/
def size (b : Book β) : Nat := b.entries.length

/-- The book of a list of values; of two values of one asset the later one counts. -/
def ofList (l : List (Asset × β)) : Book β := l.foldl (fun b e => b.insert e.1 e.2) empty

/-- **A book is what it answers**: books with the same value for every asset are equal. -/
theorem ext_get? {b b' : Book β} (h : ∀ a, b.get? a = b'.get? a) : b = b' := by
  cases b
  cases b'
  congr 1
  exact Entries.eq_of_find? (by assumption) (by assumption) h

@[simp] theorem get?_empty (asset : Asset) : (empty : Book β).get? asset = none := rfl

theorem get?_insert (b : Book β) (a a' : Asset) (v : β) :
    (b.insert a v).get? a' = if a = a' then some v else b.get? a' :=
  Entries.find?_put a a' v b.entries

theorem get?_erase (b : Book β) (a a' : Asset) :
    (b.erase a).get? a' = if a = a' then none else b.get? a' :=
  Entries.find?_drop a a' b.entries

theorem get?_map (b : Book β) (f : Asset → β → β) (a : Asset) :
    (b.map f).get? a = (b.get? a).map (f a) :=
  Entries.find?_map f a b.entries

end Book

end Holdings
