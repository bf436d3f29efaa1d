import Mathlib
import Holdings.Json.Choice
import Holdings.Proofs.Json.Layout

/-!
# Records and choices come back from their trees

What the readers of records and choices make of the trees that their writers give: the fields of an object by their
names, values that may be missing, plain names and tagged records. None of it depends on what the values are.

`Json.Legible.readsAs` goes from trees to texts: what comes back from a legible tree comes back from its text, in both
layouts.
-/

namespace Holdings

variable {α β : Type}

/-! ## Fields -/

namespace Fields

/-- An object is taken apart into its members, where they are fields in their order, some perhaps left out. -/
theorem of?_object {names : List String} {members : List (String × Json α)}
    (h : (members.map Prod.fst).Sublist names) (hnames : names.Nodup) :
    of? names (.object members) = some ⟨members, true⟩ := by
  have hknown : (members.filter fun m => m.1 ∈ names) = members :=
    List.filter_eq_self.mpr fun m hm => decide_eq_true (h.subset (List.mem_map_of_mem hm))
  simp only [of?, hknown, if_pos (h.nodup hnames)]

/-- What is read of the fields of an object may be said of any fields among which its members are found by name. -/
theorem bind_of?_object {names : List String} {members : List (String × Json α)} {read : Fields α → Option β} {b : β}
    (h : (members.map Prod.fst).Sublist names) (hnames : names.Nodup)
    (hread : ∀ f : Fields α, (∀ m ∈ members, f.find? m.1 = some m.2) → read f = some b) :
    (of? names (.object members)).bind read = some b := by
  rw [of?_object h hnames]
  refine hread _ fun m hm => ?_
  obtain ⟨before, after, rfl⟩ := List.append_of_mem hm
  have hnodup := h.nodup hnames
  simp only [List.map_append, List.map_cons, List.nodup_append] at hnodup
  refine List.lookup_eq_some_iff.mpr ⟨before, after, rfl, fun p hp => bne_iff_ne.mpr fun heq => ?_⟩
  exact hnodup.2.2 p.1 (List.mem_map_of_mem hp) m.1 (List.mem_cons_self ..) heq.symm

variable {name key : String} {j : Json α} {given : List (String × Json α)} {byName : Bool}

@[simp] theorem find?_cons_self : (⟨(name, j) :: given, byName⟩ : Fields α).find? name = some j := by
  simp [find?]

@[simp] theorem find?_cons_of_ne (h : name ≠ key) :
    (⟨(key, j) :: given, byName⟩ : Fields α).find? name = (⟨given, byName⟩ : Fields α).find? name := by
  simp [find?, List.lookup_cons, beq_eq_false_iff_ne.mpr h]

@[simp] theorem find?_nil : (⟨[], byName⟩ : Fields α).find? name = none := rfl

end Fields

namespace Json

/-! ## Single values -/

@[simp] theorem text?_text (s : String) : (text s : Json α).text? = some s := rfl

@[simp] theorem natural?_count (n : Nat) : (count n : Json α).natural? = some n := rfl

@[simp] theorem number?_real [Quantity α] (x : α) : (real x).number? = some x := rfl

/-- A value that may be missing comes back, if the values do and none is written as missing. -/
theorem maybe?_maybe {write : β → Json α} {read : Json α → Option β} {o : Option β}
    (hread : ∀ b ∈ o, read (write b) = some b) (hwrite : ∀ b, write b ≠ .null) :
    maybe? read (maybe write o) = some o := by
  cases o with
  | none => rfl
  | some b =>
    rw [maybe, maybe?.eq_def]
    split
    · next hnull => exact absurd hnull (hwrite b)
    · rw [hread b rfl, Option.map_some]

/-- Values in a row are read one by one. -/
theorem list?_array {γ : Type} {write : β → Json α} {read : Json α → Option γ} {f : β → γ} {bs : List β}
    (h : ∀ b ∈ bs, read (write b) = some (f b)) : (array (bs.map write)).list? read = some (bs.map f) := by
  rw [list?]
  induction bs with
  | nil => rfl
  | cons b rest ih =>
    simp [h b (List.mem_cons_self ..), ih fun b' hb' => h b' (List.mem_cons_of_mem _ hb')]

end Json

/-! ## Plain names -/

/-- Every value is found by its name. -/
class Named.Lawful (β : Type) [Named β] : Prop where
  /-- the value of the name of a value -/
  ofName?_name : ∀ b : β, Named.ofName? (Named.name b) = some b

namespace Named

variable [Named β] [Lawful β]

omit [Lawful β] in
@[simp] theorem legible_toJson [Numeral α] (b : β) : (toJson b : Json α).Legible := .text _

@[simp] theorem ofJson?_toJson (o : Origin) (b : β) : ofJson? o (toJson b : Json α) = some b :=
  Lawful.ofName?_name b

end Named

/-! ## Tagged records -/

namespace Json

/-- Fields that are numbers, beside a tag. -/
def AreNumbers (fields : List (String × Json α)) : Prop := ∀ m ∈ fields, m.1 ≠ tagName ∧ ∃ x, m.2 = real x

theorem AreNumbers.sound_and_flat : ∀ {fields : List (String × Json α)}, AreNumbers fields →
    membersAreSound fields = true ∧ memberDepths fields = 0
  | [], _ => ⟨rfl, rfl⟩
  | (name, j) :: rest, h => by
    obtain ⟨⟨-, x, hx⟩, hrest⟩ := List.forall_mem_cons.mp h
    obtain ⟨hsound, hflat⟩ := AreNumbers.sound_and_flat hrest
    obtain rfl : j = real x := hx
    simp [membersAreSound, memberDepths, isSound, depth, hsound, hflat]

/-- **A tagged record of numbers** is read by the reader of its tag. -/
theorem choose?_tagged {n : Nat} {choices : List (String × (Json α → Option β))} {tag : String}
    {fields : List (String × Json α)} (hn : n < Origin.deepest) (h : AreNumbers fields) :
    (tagged tag fields).choose? (.text n) choices = (choices.lookup tag).bind fun read => read (.object fields) := by
  have hfields : ∀ m ∈ fields, m.1 ≠ tagName := fun m hm => (h m hm).1
  have htakes : (Origin.text n).takes (tagged tag fields) = true := by
    obtain ⟨hsound, hflat⟩ := h.sound_and_flat
    simp only [Origin.takes, tagged, isSound, membersAreSound, hsound, depth, memberDepths, hflat]
    simpa using hn
  have htag : tagged? (tagged tag fields) = some (.text tag, .object fields) := by
    have hnone : (fields.filter fun m => m.1 = tagName) = [] := by simpa using hfields
    have hall : (fields.filter fun m => m.1 ≠ tagName) = fields := List.filter_eq_self.mpr (by simpa using hfields)
    simp only [tagged?, tagged, List.filter_cons, decide_true, if_true, hnone, ne_eq, not_true, decide_false,
      Bool.false_eq_true, if_false]
    simpa using hall
  rw [choose?, if_pos htakes, htag, Option.bind_some]
  rfl

end Json

/-! ## Texts -/

namespace Json

variable [Numeral α] {j j' : Json α} {read? : Json α → Option β} {b b' : β}

/-- The text of a tree, in either layout, is read as a value. -/
def ReadsAs (j : Json α) (read? : Json α → Option β) (b : β) : Prop :=
  (parse? j.compact).bind read? = some b ∧ (parse? j.pretty).bind read? = some b

/-- What comes back from its tree comes back from its text, where the tree is legible. -/
theorem Legible.readsAs (h : j.Legible) (hread : read? j = some b) : j.ReadsAs read? b := by
  rw [ReadsAs, parse?_compact h, parse?_pretty h]
  exact ⟨hread, hread⟩

/-- A text is not read as two values. -/
theorem ReadsAs.eq_of_compact_eq (h : j.ReadsAs read? b) (h' : j'.ReadsAs read? b') (heq : j.compact = j'.compact) :
    b = b' := by
  have hread := h.1
  rw [heq, h'.1] at hread
  exact (Option.some.inj hread).symm

end Json

end Holdings
