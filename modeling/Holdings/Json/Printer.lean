import Holdings.Decimal.Style
import Holdings.Json.Basic
import Holdings.Text.Digits

/-!
# Writing JSON

Two layouts of the same text: `Json.compact`, without any blanks, and `Json.pretty`, with one item or
member on a line, two blanks of indentation for each level, and a blank after each colon. Empty arrays and
objects take no lines.

In a string only the quote, the backslash and the control characters are escaped. Numbers stand in the
style `Style.json`; one that is not finite is written as `null`.
-/

namespace Holdings

namespace Json

/-- A character of a string as it is written. -/
def escaped (c : Char) : List Char :=
  if c = '"' then ['\\', '"']
  else if c = '\\' then ['\\', '\\']
  else if c = '\n' then ['\\', 'n']
  else if c = '\r' then ['\\', 'r']
  else if c = '\t' then ['\\', 't']
  else if c = '\x08' then ['\\', 'b']
  else if c = '\x0c' then ['\\', 'f']
  else if c.toNat < 0x20 then '\\' :: 'u' :: hexFigures 4 c.toNat
  else [c]

/-- A string with its quotes. -/
def quoted (s : String) : List Char := '"' :: (s.toList.flatMap escaped ++ ['"'])

/-- A whole number. -/
def integerChars (n : Int) : List Char :=
  if n < 0 then '-' :: Nat.toDigits 10 n.natAbs else Nat.toDigits 10 n.natAbs

/-- The word for no value. -/
def nullWord : List Char := ['n', 'u', 'l', 'l']

/-- A truth value. -/
def boolWord (b : Bool) : List Char :=
  if b then ['t', 'r', 'u', 'e'] else ['f', 'a', 'l', 's', 'e']

variable {α : Type} [Numeral α]

/-- A number. -/
def realChars (x : α) : List Char := if Quantity.isFinite x then Style.json.chars x else nullWord

mutual

/-- The compact layout, in front of what follows. -/
def compactChars : Json α → List Char → List Char
  | .null, rest => nullWord ++ rest
  | .bool b, rest => boolWord b ++ rest
  | .integer n, rest => integerChars n ++ rest
  | .real x, rest => realChars x ++ rest
  | .text s, rest => quoted s ++ rest
  | .array [], rest => '[' :: ']' :: rest
  | .array (j :: items), rest => '[' :: compactChars j (compactItems items (']' :: rest))
  | .object [], rest => '{' :: '}' :: rest
  | .object ((name, j) :: members), rest =>
    '{' :: (quoted name ++ ':' :: compactChars j (compactMembers members ('}' :: rest)))
  | .unusable, rest => nullWord ++ rest

/-- Further items, each after a comma. -/
def compactItems : List (Json α) → List Char → List Char
  | [], rest => rest
  | j :: items, rest => ',' :: compactChars j (compactItems items rest)

/-- Further members, each after a comma. -/
def compactMembers : List (String × Json α) → List Char → List Char
  | [], rest => rest
  | (name, j) :: members, rest =>
    ',' :: (quoted name ++ ':' :: compactChars j (compactMembers members rest))

end

/-- The end of a line and the indentation of the next. -/
def newLine (level : Nat) (rest : List Char) : List Char :=
  '\n' :: (List.replicate (2 * level) ' ' ++ rest)

mutual

/-- The pretty layout at a level of indentation, in front of what follows. -/
def prettyChars (level : Nat) : Json α → List Char → List Char
  | .null, rest => nullWord ++ rest
  | .bool b, rest => boolWord b ++ rest
  | .integer n, rest => integerChars n ++ rest
  | .real x, rest => realChars x ++ rest
  | .text s, rest => quoted s ++ rest
  | .array [], rest => '[' :: ']' :: rest
  | .array (j :: items), rest =>
    '[' :: newLine (level + 1) (prettyChars (level + 1) j
      (prettyItems (level + 1) items (newLine level (']' :: rest))))
  | .object [], rest => '{' :: '}' :: rest
  | .object ((name, j) :: members), rest =>
    '{' :: newLine (level + 1) (quoted name ++ ':' :: ' ' :: prettyChars (level + 1) j
      (prettyMembers (level + 1) members (newLine level ('}' :: rest))))
  | .unusable, rest => nullWord ++ rest

/-- Further items, each on a line of its own. -/
def prettyItems (level : Nat) : List (Json α) → List Char → List Char
  | [], rest => rest
  | j :: items, rest => ',' :: newLine level (prettyChars level j (prettyItems level items rest))

/-- Further members, each on a line of its own. -/
def prettyMembers (level : Nat) : List (String × Json α) → List Char → List Char
  | [], rest => rest
  | (name, j) :: members, rest =>
    ',' :: newLine level (quoted name ++ ':' :: ' ' :: prettyChars level j
      (prettyMembers level members rest))

end

/-- The text without blanks. -/
def compact (j : Json α) : String := String.ofList (j.compactChars [])

/-- The text with one item or member on a line. -/
def pretty (j : Json α) : String := String.ofList (j.prettyChars 0 [])

end Json

end Holdings
