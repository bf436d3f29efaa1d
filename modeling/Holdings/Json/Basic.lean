import Holdings.Quantity.Basic

/-!
# JSON: the tree of a text

A `Json` is what a JSON text says. Members of an object stand in the order of the text, repeated
names included. Whole numbers that fit into 64 bits are kept apart from the other numbers.

A text can be well formed and still name no value: a number beyond all quantities, or a string with half
of a surrogate pair. Such a part is `unusable`. It does no harm where nobody asks for it.
-/

namespace Holdings

/-- What a JSON text says. -/
inductive Json (α : Type) where
  /-- the word `null` -/
  | null
  /-- a truth value -/
  | bool (b : Bool)
  /-- a whole number of 64 bits, written without point and exponent -/
  | integer (n : Int)
  /-- any other number -/
  | real (x : α)
  /-- a string -/
  | text (s : String)
  /-- values in a row -/
  | array (items : List (Json α))
  /-- named values -/
  | object (members : List (String × Json α))
  /-- well formed, but no value -/
  | unusable

namespace Json

variable {α : Type}

/-! ## What a whole tree is like -/

mutual

/-- Every part of the tree names a value. -/
def isSound : Json α → Bool
  | .unusable => false
  | .array items => areSound items
  | .object members => membersAreSound members
  | _ => true

/-- Every part of every tree names a value. -/
def areSound : List (Json α) → Bool
  | [] => true
  | j :: rest => j.isSound && areSound rest

/-- Every part of every member names a value. -/
def membersAreSound : List (String × Json α) → Bool
  | [] => true
  | (_, j) :: rest => j.isSound && membersAreSound rest

end

mutual

/-- How many arrays and objects lie inside each other. -/
def depth : Json α → Nat
  | .array items => depths items + 1
  | .object members => memberDepths members + 1
  | _ => 0

/-- The greatest depth of some trees. -/
def depths : List (Json α) → Nat
  | [] => 0
  | j :: rest => max j.depth (depths rest)

/-- The greatest depth of some members. -/
def memberDepths : List (String × Json α) → Nat
  | [] => 0
  | (_, j) :: rest => max j.depth (memberDepths rest)

end

end Json

end Holdings
