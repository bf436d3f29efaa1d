import Mathlib
import Holdings.Proofs.Json.Record

/-!
# What a text shows of a tree

Numbers that are not finite have no text of their own: they are written as `null`. So a tree with such numbers in it
does not come back from its text, but another one does, which has nothing in their places. `Json.shown` is that tree.

* `Layout.text_shown` — a tree and what is shown of it have the same text, in every layout;
* `Json.parse?_text_shown` — what is shown is read back, if every number that is finite is.
-/

namespace Holdings

variable {α : Type} [Numeral α]

namespace Json

mutual

/-- The tree that a text shows: a number that is not finite stands in it as `null`. -/
def shown : Json α → Json α
  | .real x => if Quantity.isFinite x then .real x else .null
  | .array items => .array (shownItems items)
  | .object members => .object (shownMembers members)
  | .unusable => .null
  | j => j

/-- What is shown of some trees. -/
def shownItems : List (Json α) → List (Json α)
  | [] => []
  | j :: items => j.shown :: shownItems items

/-- What is shown of some members. -/
def shownMembers : List (String × Json α) → List (String × Json α)
  | [] => []
  | (name, j) :: members => (name, j.shown) :: shownMembers members

end

theorem shownItems_eq (items : List (Json α)) : shownItems items = items.map shown := by
  induction items with
  | nil => rfl
  | cons j items ih => rw [shownItems, ih, List.map_cons]

theorem shownMembers_eq (members : List (String × Json α)) :
    shownMembers members = members.map fun m => (m.1, m.2.shown) := by
  induction members with
  | nil => rfl
  | cons m members ih => rw [shownMembers, ih, List.map_cons]

@[simp] theorem shown_text (s : String) : (text s : Json α).shown = text s := rfl

@[simp] theorem shown_count (n : Nat) : (count n : Json α).shown = count n := rfl

@[simp] theorem shown_stamp (i : Instant) : (stamp i : Json α).shown = stamp i := rfl

@[simp] theorem shown_array (items : List (Json α)) : (array items).shown = array (items.map shown) := by
  rw [shown, shownItems_eq]

@[simp] theorem shown_object (members : List (String × Json α)) :
    (object members).shown = object (members.map fun m => (m.1, m.2.shown)) := by
  rw [shown, shownMembers_eq]

@[simp] theorem shown_maybe_stamp (time : Option Instant) : (maybe stamp time : Json α).shown = maybe stamp time := by
  cases time <;> rfl

@[simp] theorem shown_name {β : Type} [Named β] (b : β) : (Named.toJson b : Json α).shown = Named.toJson b := rfl

end Json

/-! ## Numbers -/

/-- A number, if it is finite. -/
def Quantity.finite? (x : α) : Option α := if Quantity.isFinite x then some x else none

/-- A number that is read back as it was written, unless it is not finite. -/
def Numeral.LegibleIfFinite (x : α) : Prop := Quantity.isFinite x = true → Numeral.Legible x

instance [DecidableEq α] (x : α) : Decidable (Numeral.LegibleIfFinite x) :=
  inferInstanceAs (Decidable (Quantity.isFinite x = true → Numeral.Legible x))

namespace Json

@[simp] theorem legible_shown_real_iff (x : α) : (real x).shown.Legible ↔ Numeral.LegibleIfFinite x := by
  rw [shown, Numeral.LegibleIfFinite]
  split <;> simp [*]

@[simp] theorem maybe?_shown_real (x : α) : (real x).shown.maybe? number? = some (Quantity.finite? x) := by
  rw [shown, Quantity.finite?]
  split <;> rfl

end Json

/-! ## Texts -/

namespace Layout

variable (l : Layout)

mutual

/-- The characters of a tree are those of what is shown of it. -/
theorem chars_shown (level : Nat) : ∀ j : Json α, l.chars level j.shown = l.chars level j
  | .null => rfl
  | .bool b => rfl
  | .integer n => rfl
  | .real x => by
    rw [Json.shown]
    split
    · rfl
    · next hnot => rw [chars, chars, Json.realChars, if_neg hnot]
  | .text s => rfl
  | .array [] => rfl
  | .array (j :: items) => by
    simp only [Json.shown, Json.shownItems, chars, chars_shown (level + 1) j, itemsChars_shown (level + 1) items]
  | .object [] => rfl
  | .object ((name, j) :: members) => by
    simp only [Json.shown, Json.shownMembers, chars, chars_shown (level + 1) j,
      membersChars_shown (level + 1) members]
  | .unusable => rfl

theorem itemsChars_shown (level : Nat) :
    ∀ items : List (Json α), l.itemsChars level (Json.shownItems items) = l.itemsChars level items
  | [] => rfl
  | j :: items => by
    simp only [Json.shownItems, itemsChars, chars_shown level j, itemsChars_shown level items]

theorem membersChars_shown (level : Nat) :
    ∀ members : List (String × Json α), l.membersChars level (Json.shownMembers members) = l.membersChars level members
  | [] => rfl
  | (name, j) :: members => by
    simp only [Json.shownMembers, membersChars, chars_shown level j, membersChars_shown level members]

end

/-- **A text does not tell a tree from what is shown of it.** -/
theorem text_shown (j : Json α) : l.text j.shown = l.text j := by
  rw [text, text, chars_shown]

end Layout

/-- **What a text shows is read back**, also where blanks follow it. -/
theorem Json.parse?_text_shown {l : Layout} {j : Json α} (h : j.shown.Legible) (blanks : String)
    (hblanks : ∀ c ∈ blanks.toList, isSpace c = true) : parse? (l.text j ++ blanks) = some j.shown := by
  rw [← l.text_shown]
  exact parse?_text h blanks hblanks

end Holdings
