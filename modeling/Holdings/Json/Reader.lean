import Holdings.Decimal.Basic
import Holdings.Json.Basic
import Holdings.Text.Digits
import Holdings.Text.Scan

/-!
# Reading JSON

`Json.parse?` reads one value from the whole of a text, strictly: no comma at the end, no zero in front
of a number, no control character in a string, nothing after the value.

A number keeps the digits that fit into 64 bits. Digits of the whole part beyond those count as zeros,
and digits of the fraction beyond those are dropped. The number is then the quantity of that decimal by
scaling (`Decimal.scaled?`).
-/

namespace Holdings

namespace Json

/-! ## Blanks and strings -/

/-- A blank between the parts of a text. -/
def isSpace (c : Char) : Bool := c = ' ' || c = '\n' || c = '\t' || c = '\r'

/-- The text without the blanks it starts with. -/
def skipSpace (cs : List Char) : List Char := cs.dropWhile isSpace

/-- The first half of a surrogate pair. -/
def isHighHalf (n : Nat) : Bool := 0xD800 ≤ n && n < 0xDC00

/-- The second half of a surrogate pair. -/
def isLowHalf (n : Nat) : Bool := 0xDC00 ≤ n && n < 0xE000

/-- The character of a surrogate pair. -/
def pairChar (high low : Nat) : Char :=
  Char.ofNat (0x10000 + (high - 0xD800) * 0x400 + (low - 0xDC00))

/-- The character of a short escape. -/
def escape? (c : Char) : Option Char :=
  if c = '"' then some '"'
  else if c = '\\' then some '\\'
  else if c = '/' then some '/'
  else if c = 'b' then some '\x08'
  else if c = 'f' then some '\x0c'
  else if c = 'n' then some '\n'
  else if c = 'r' then some '\r'
  else if c = 't' then some '\t'
  else none

/-- A piece of a string as it is written. -/
inductive Piece where
  /-- a character, itself or by a short escape -/
  | plain (c : Char)
  /-- an escape by four hexadecimal digits: a unit of 16 bits -/
  | unit (n : Nat)

/-- The pieces of a string, after its first quote, and what follows its last one. -/
def pieces? : Scan (List Piece)
  | [] => none
  | '"' :: rest => some ([], rest)
  | '\\' :: 'u' :: a :: b :: c :: d :: rest =>
    match hexNumber? [a, b, c, d] with
    | some n => (pieces? rest).map fun (ps, rest) => (.unit n :: ps, rest)
    | none => none
  | '\\' :: c :: rest =>
    match escape? c with
    | some e => (pieces? rest).map fun (ps, rest) => (.plain e :: ps, rest)
    | none => none
  | c :: rest =>
    if c.toNat < 0x20 then none
    else (pieces? rest).map fun (ps, rest) => (.plain c :: ps, rest)

/-- The characters of a string, or nothing where a half of a surrogate pair stands alone. -/
abbrev Content : Type := Option (List Char)

/-- Puts surrogate pairs together. -/
def assemble : List Piece → Content
  | [] => some []
  | .plain c :: rest => (assemble rest).map (c :: ·)
  | .unit n :: .unit m :: rest =>
    if isHighHalf n && isLowHalf m then (assemble rest).map (pairChar n m :: ·)
    else if isHighHalf n || isLowHalf n then none
    else (assemble (.unit m :: rest)).map (Char.ofNat n :: ·)
  | .unit n :: rest =>
    if isHighHalf n || isLowHalf n then none
    else (assemble rest).map (Char.ofNat n :: ·)

/-- The rest of a string, after its first quote. -/
def stringTail? : Scan Content := fun cs =>
  (pieces? cs).map fun (ps, rest) => (assemble ps, rest)

/-! ## Numbers -/

/-- The greatest whole number of 64 bits. -/
def greatestWord : Nat := 0xFFFFFFFFFFFFFFFF

/-- The magnitude of the least whole number of 64 bits with a sign. -/
def largestNegative : Nat := 0x8000000000000000

/-- Takes digits onto a number while the result fits into 64 bits: the number and how many digits were
left over. -/
def takeFitting (n : Nat) : List Char → Nat × Nat
  | [] => (n, 0)
  | c :: rest =>
    let next := 10 * n + digitWorth c
    if next ≤ greatestWord then takeFitting next rest else (n, rest.length + 1)

/-- The parts of a written number. -/
structure NumberText where
  /-- it has a minus sign -/
  negative : Bool
  /-- the digits before the point -/
  whole : List Char
  /-- the digits after the point -/
  fraction : List Char
  /-- the exponent, where one is written -/
  exponent : Option Int

namespace NumberText

/-- The decimal of a written number, with the digits that fit into 64 bits. -/
def decimal (w : NumberText) : Decimal :=
  let (n, dropped) := takeFitting 0 w.whole
  let (digits, unused) := takeFitting n w.fraction
  ⟨w.negative, digits, (dropped : Int) - (w.fraction.length - unused : Nat) + w.exponent.getD 0⟩

/-- A number without point and exponent, where it is a whole number of 64 bits. Minus zero is none. -/
def integer? (w : NumberText) : Option Int :=
  if w.fraction.isEmpty && w.exponent.isNone then
    let n := numberOf w.whole
    if w.negative then
      if 0 < n ∧ n ≤ largestNegative then some (-(n : Int)) else none
    else if n ≤ greatestWord then some n else none
  else none

/-- The value of a written number. -/
def value {α : Type} [Quantity α] (w : NumberText) : Json α :=
  match w.integer? with
  | some n => .integer n
  | none =>
    match (w.decimal.scaled? : Option α) with
    | some x => .real x
    | none => .unusable

end NumberText

/-- Digits, at least one. -/
def digits? : Scan (List Char) := fun cs =>
  let ds := cs.takeWhile isDigit
  if ds.isEmpty then none else some (ds, cs.drop ds.length)

/-- The digits after a point; none where there is no point. -/
def fraction? : Scan (List Char) := fun cs =>
  match cs with
  | '.' :: rest => digits? rest
  | _ => some ([], cs)

/-- The digits of an exponent with their sign. -/
def signedDigits? : Scan Int := fun cs =>
  match cs with
  | '+' :: rest => (digits? rest).map fun (ds, rest) => ((numberOf ds : Int), rest)
  | '-' :: rest => (digits? rest).map fun (ds, rest) => (-(numberOf ds : Int), rest)
  | _ => (digits? cs).map fun (ds, rest) => ((numberOf ds : Int), rest)

/-- An exponent; none where there is no mark of one. -/
def exponent? : Scan (Option Int) := fun cs =>
  match cs with
  | c :: rest =>
    if c = 'e' || c = 'E' then (signedDigits? rest).map fun (n, rest) => (some n, rest)
    else some (none, cs)
  | [] => some (none, [])

/-- A number, after its sign. -/
def unsigned? (negative : Bool) : Scan NumberText := fun cs => do
  let (whole, cs) ← digits? cs
  guard (whole.length = 1 ∨ whole.head? ≠ some '0')
  let (fraction, cs) ← fraction? cs
  let (exponent, cs) ← exponent? cs
  return (⟨negative, whole, fraction, exponent⟩, cs)

/-- A number. -/
def numberText? : Scan NumberText := fun cs =>
  match cs with
  | '-' :: rest => unsigned? true rest
  | _ => unsigned? false cs

/-! ## Values -/

variable {α : Type} [Quantity α]

/-- An object, which names no value where one of its names is no text. -/
def objectOf (members : List (Content × Json α)) : Json α :=
  match members.mapM fun m => m.1.map fun name => (String.ofList name, m.2) with
  | some named => .object named
  | none => .unusable

/-- The value of a string that was read. -/
def textOf (content : Content) : Json α :=
  match content with
  | some cs => .text (String.ofList cs)
  | none => .unusable

mutual

/-- A value and what follows it. -/
def value? : Nat → Scan (Json α)
  | 0, _ => none
  | fuel + 1, cs =>
    match skipSpace cs with
    | '"' :: rest => (stringTail? rest).map fun (content, rest) => (textOf content, rest)
    | '[' :: rest =>
      match skipSpace rest with
      | ']' :: rest => some (.array [], rest)
      | rest => (items? fuel rest).map fun (items, rest) => (.array items, rest)
    | '{' :: rest =>
      match skipSpace rest with
      | '}' :: rest => some (.object [], rest)
      | rest => (members? fuel rest).map fun (members, rest) => (objectOf members, rest)
    | 'n' :: 'u' :: 'l' :: 'l' :: rest => some (.null, rest)
    | 't' :: 'r' :: 'u' :: 'e' :: rest => some (.bool true, rest)
    | 'f' :: 'a' :: 'l' :: 's' :: 'e' :: rest => some (.bool false, rest)
    | rest => (numberText? rest).map fun (w, rest) => (w.value, rest)

/-- The items of an array, at least one, up to its bracket. -/
def items? : Nat → Scan (List (Json α))
  | 0, _ => none
  | fuel + 1, cs =>
    match value? fuel cs with
    | none => none
    | some (j, rest) =>
      match skipSpace rest with
      | ',' :: rest => (items? fuel rest).map fun (items, rest) => (j :: items, rest)
      | ']' :: rest => some ([j], rest)
      | _ => none

/-- The members of an object, at least one, up to its brace. -/
def members? : Nat → Scan (List (Content × Json α))
  | 0, _ => none
  | fuel + 1, cs =>
    match skipSpace cs with
    | '"' :: rest =>
      match stringTail? rest with
      | none => none
      | some (name, rest) =>
        match skipSpace rest with
        | ':' :: rest =>
          match value? fuel rest with
          | none => none
          | some (j, rest) =>
            match skipSpace rest with
            | ',' :: rest =>
              (members? fuel rest).map fun (members, rest) => ((name, j) :: members, rest)
            | '}' :: rest => some ([(name, j)], rest)
            | _ => none
        | _ => none
    | _ => none

end

/-- Reads the whole of a text as characters. Every step of the reader takes at least one character for two
of the fuel. -/
def ofChars? (cs : List Char) : Option (Json α) :=
  match value? (2 * cs.length + 2) cs with
  | some (j, rest) => if (skipSpace rest).isEmpty then some j else none
  | none => none

/-- Reads a text. -/
def parse? (text : String) : Option (Json α) := ofChars? text.toList

end Json

end Holdings
