import Holdings.Decimal.Basic
import Holdings.Instant.Calendar
import Holdings.Text.Digits
import Holdings.Text.Scan
import Holdings.Toml.Basic

/-!
# The words of TOML

Blanks, line ends, keys, strings, numbers, dates and times. Each reader takes what it is named for off the
front of a text and gives the rest.
-/

namespace Holdings.Toml

/-! ## Blanks and lines -/

/-- A blank within a line. -/
def isSpace (c : Char) : Bool := c = ' ' || c = '\t'

/-- The text without the blanks it starts with. -/
def skipSpace (cs : List Char) : List Char := cs.dropWhile isSpace

/-- A character that may stand in a comment or a string: the tab, or any that is no control character of
ASCII. -/
def isPlain (c : Char) : Bool := c = '\t' || (0x20 ≤ c.toNat && c.toNat ≠ 0x7F)

/-- The rest after a line break. -/
def lineBreak? : List Char → Option (List Char)
  | '\n' :: rest => some rest
  | '\r' :: '\n' :: rest => some rest
  | _ => none

/-- The rest after a comment, if one is there. -/
def skipComment : List Char → List Char
  | '#' :: rest => rest.dropWhile isPlain
  | rest => rest

/-- The rest after what may follow on a line, and its end. -/
def lineEnd? (cs : List Char) : Option (List Char) :=
  match skipComment (skipSpace cs) with
  | [] => some []
  | rest => lineBreak? rest

/-! ## Strings -/

/-- A character in front of what was read. -/
def withChar (c : Char) (r : Option (List Char × List Char)) : Option (List Char × List Char) :=
  r.map fun (cs, rest) => (c :: cs, rest)

/-- The character of a short escape. -/
def escape? (c : Char) : Option Char :=
  if c = '"' then some '"'
  else if c = '\\' then some '\\'
  else if c = 'b' then some '\x08'
  else if c = 'f' then some '\x0c'
  else if c = 'n' then some '\n'
  else if c = 'r' then some '\r'
  else if c = 't' then some '\t'
  else none

/-- The character of a code point in hexadecimal digits; halves of surrogate pairs are none. -/
def codePoint? (digits : List Char) : Option Char :=
  match hexNumber? digits with
  | some n => if n.isValidChar then some (Char.ofNat n) else none
  | none => none

/-- A string in double quotes, after the first of them. -/
def basicTail : Scan (List Char)
  | [] => none
  | '"' :: rest => some ([], rest)
  | '\\' :: 'u' :: a :: b :: c :: d :: rest =>
    (codePoint? [a, b, c, d]).bind fun x => withChar x (basicTail rest)
  | '\\' :: 'U' :: a :: b :: c :: d :: e :: f :: g :: h :: rest =>
    (codePoint? [a, b, c, d, e, f, g, h]).bind fun x => withChar x (basicTail rest)
  | '\\' :: c :: rest => (escape? c).bind fun x => withChar x (basicTail rest)
  | c :: rest => if isPlain c then withChar c (basicTail rest) else none

/-- A string in single quotes, after the first of them. Nothing is escaped in it. -/
def literalTail : Scan (List Char)
  | [] => none
  | '\'' :: rest => some ([], rest)
  | c :: rest => if isPlain c then withChar c (literalTail rest) else none

/-- What of the text is left out of a string over several lines. -/
inductive Skipping where
  /-- nothing -/
  | nothing
  /-- blanks, up to a line break that has to come -/
  | line
  /-- blanks and line breaks -/
  | blanks
deriving DecidableEq

/-- A string over several lines in three double quotes, after the first three. Up to two more quotes may
stand before the last three. A backslash at the end of a line leaves out the blanks up to the next character,
over line breaks too. -/
def basicLines : Skipping → Scan (List Char)
  | _, [] => none
  | .line, ' ' :: rest => basicLines .line rest
  | .line, '\t' :: rest => basicLines .line rest
  | .line, '\n' :: rest => basicLines .blanks rest
  | .line, '\r' :: '\n' :: rest => basicLines .blanks rest
  | .line, _ => none
  | .blanks, ' ' :: rest => basicLines .blanks rest
  | .blanks, '\t' :: rest => basicLines .blanks rest
  | .blanks, '\n' :: rest => basicLines .blanks rest
  | .blanks, '\r' :: '\n' :: rest => basicLines .blanks rest
  | _, '"' :: '"' :: '"' :: '"' :: '"' :: rest => some (['"', '"'], rest)
  | _, '"' :: '"' :: '"' :: '"' :: rest => some (['"'], rest)
  | _, '"' :: '"' :: '"' :: rest => some ([], rest)
  | _, '\n' :: rest => withChar '\n' (basicLines .nothing rest)
  | _, '\r' :: '\n' :: rest => withChar '\n' (basicLines .nothing rest)
  | _, '\\' :: ' ' :: rest => basicLines .line rest
  | _, '\\' :: '\t' :: rest => basicLines .line rest
  | _, '\\' :: '\n' :: rest => basicLines .blanks rest
  | _, '\\' :: '\r' :: '\n' :: rest => basicLines .blanks rest
  | _, '\\' :: 'u' :: a :: b :: c :: d :: rest =>
    (codePoint? [a, b, c, d]).bind fun x => withChar x (basicLines .nothing rest)
  | _, '\\' :: 'U' :: a :: b :: c :: d :: e :: f :: g :: h :: rest =>
    (codePoint? [a, b, c, d, e, f, g, h]).bind fun x => withChar x (basicLines .nothing rest)
  | _, '\\' :: c :: rest => (escape? c).bind fun x => withChar x (basicLines .nothing rest)
  | _, c :: rest => if isPlain c then withChar c (basicLines .nothing rest) else none

/-- A string over several lines in three single quotes, after the first three. -/
def literalLines : Scan (List Char)
  | [] => none
  | '\'' :: '\'' :: '\'' :: '\'' :: '\'' :: rest => some (['\'', '\''], rest)
  | '\'' :: '\'' :: '\'' :: '\'' :: rest => some (['\''], rest)
  | '\'' :: '\'' :: '\'' :: rest => some ([], rest)
  | '\n' :: rest => withChar '\n' (literalLines rest)
  | '\r' :: '\n' :: rest => withChar '\n' (literalLines rest)
  | c :: rest => if isPlain c then withChar c (literalLines rest) else none

/-- The rest after a line break that follows the first quotes at once. -/
def skipBreak (cs : List Char) : List Char := (lineBreak? cs).getD cs

/-- A string on one line. -/
def shortString? : Scan String := fun cs =>
  (match cs with
    | '"' :: rest => basicTail rest
    | '\'' :: rest => literalTail rest
    | _ => none).map fun (text, rest) => (String.ofList text, rest)

/-- A string. -/
def string? : Scan String := fun cs =>
  match cs with
  | '"' :: '"' :: '"' :: rest =>
    (basicLines .nothing (skipBreak rest)).map fun (text, rest) => (String.ofList text, rest)
  | '\'' :: '\'' :: '\'' :: rest =>
    (literalLines (skipBreak rest)).map fun (text, rest) => (String.ofList text, rest)
  | _ => shortString? cs

/-! ## Keys -/

/-- A character of a key without quotes. -/
def isKeyChar (c : Char) : Bool := c.isAlphanum || c = '-' || c = '_'

/-- One part of a key. -/
def keyPart? : Scan String := fun cs =>
  match cs with
  | '"' :: _ => shortString? cs
  | '\'' :: _ => shortString? cs
  | _ =>
    let name := cs.takeWhile isKeyChar
    if name.isEmpty then none else some (String.ofList name, cs.drop name.length)

/-- How many parts a key may have. -/
def mostParts : Nat := 79

/-- At most so many parts of a key with points between them. -/
def keyParts? : Nat → Scan (List String)
  | 0, _ => none
  | most + 1, cs =>
    match keyPart? (skipSpace cs) with
    | none => none
    | some (name, rest) =>
      match skipSpace rest with
      | '.' :: rest => (keyParts? most rest).map fun (names, rest) => (name :: names, rest)
      | rest => some ([name], rest)

/-- A key: the path to its table, and its last part. -/
def key? : Scan (List String × String) := fun cs =>
  match keyParts? mostParts cs with
  | none => none
  | some (names, rest) => names.getLast?.map fun name => ((names.dropLast, name), rest)

/-! ## Numbers -/

/-- Digits of a kind, after the first; one underscore may stand between two. -/
def moreDigits (isFigure : Char → Bool) : List Char → List Char × List Char
  | [] => ([], [])
  | '_' :: c :: rest =>
    if isFigure c then
      let (ds, rest) := moreDigits isFigure rest
      (c :: ds, rest)
    else ([], '_' :: c :: rest)
  | c :: rest =>
    if isFigure c then
      let (ds, rest) := moreDigits isFigure rest
      (c :: ds, rest)
    else ([], c :: rest)

/-- Digits of a kind, at least one. -/
def digits? (isFigure : Char → Bool) : Scan (List Char) := fun cs =>
  match cs with
  | c :: rest =>
    if isFigure c then
      let (ds, rest) := moreDigits isFigure rest
      some (c :: ds, rest)
    else none
  | [] => none

/-- A sign, if one is there: whether it is a minus. -/
def sign (cs : List Char) : Bool × List Char :=
  match cs with
  | '+' :: rest => (false, rest)
  | '-' :: rest => (true, rest)
  | _ => (false, cs)

/-- The digits of a whole number; a zero in front of others is not read with them. -/
def wholeDigits? : Scan (List Char) := fun cs =>
  match cs with
  | '0' :: rest => some (['0'], rest)
  | _ => digits? isDigit cs

/-- A whole number of 64 bits. -/
def word? (n : Int) : Option Int :=
  if -0x8000000000000000 ≤ n ∧ n < 0x8000000000000000 then some n else none

/-- A whole number to a base below ten, or sixteen. -/
def based? (isFigure : Char → Bool) (base : Nat) : Scan Int := fun cs => do
  let (ds, rest) ← digits? isFigure cs
  let worths ← ds.mapM hexWorth?
  let n ← word? (worths.foldl (fun n d => base * n + d) 0 : Nat)
  return (n, rest)

/-- A whole number. -/
def integer? : Scan Int := fun cs =>
  match cs with
  | '0' :: 'x' :: rest => based? (fun c => (hexWorth? c).isSome) 16 rest
  | '0' :: 'o' :: rest => based? (fun c => '0' ≤ c && c ≤ '7') 8 rest
  | '0' :: 'b' :: rest => based? (fun c => c = '0' || c = '1') 2 rest
  | _ => do
    let (negative, cs) := sign cs
    let (ds, rest) ← wholeDigits? cs
    let size : Int := numberOf ds
    let n ← word? (if negative then -size else size)
    return (n, rest)

/-- An exponent with its mark. -/
def exponent? : Scan Int := fun cs =>
  match cs with
  | c :: rest =>
    if c = 'e' || c = 'E' then do
      let (negative, rest) := sign rest
      let (ds, rest) ← digits? isDigit rest
      let size : Int := numberOf ds
      return (if negative then -size else size, rest)
    else none
  | [] => none

/-- The point and the digits after it. -/
def fraction? : Scan (List Char) := fun cs =>
  match cs with
  | '.' :: rest => digits? isDigit rest
  | _ => none

/-- A decimal with a fraction, an exponent, or both. -/
def decimal? : Scan Decimal := fun cs => do
  let (negative, cs) := sign cs
  let (whole, cs) ← wholeDigits? cs
  match fraction? cs with
  | some (fraction, cs) =>
    let (power, cs) := (exponent? cs).getD (0, cs)
    return (⟨negative, numberOf (whole ++ fraction), power - fraction.length⟩, cs)
  | none =>
    let (power, cs) ← exponent? cs
    return (⟨negative, numberOf whole, power⟩, cs)

/-- The two words for numbers that are none: infinity and no value. -/
def word : Scan Bool := fun cs =>
  match cs with
  | 'i' :: 'n' :: 'f' :: rest => some (true, rest)
  | 'n' :: 'a' :: 'n' :: rest => some (false, rest)
  | _ => none

/-- A number that is not whole. One too large to be finite is refused, unless it is negative. -/
def real? {α : Type} [Numeral α] : Scan α := fun cs =>
  match decimal? cs with
  | some (d, rest) =>
    let x : α := Numeral.nearest d
    if Quantity.isFinite x || d.negative then some (x, rest) else none
  | none =>
    let (negative, rest) := sign cs
    (word rest).map fun (infinite, rest) =>
      let size : α := if infinite then 1.0 / 0.0 else 0.0 / 0.0
      (if negative then -size else size, rest)

/-! ## Dates and times -/

/-- Exactly so many digits. -/
def figures? (count : Nat) : Scan Nat := fun cs =>
  let ds := cs.take count
  if ds.length = count && ds.all isDigit then some (numberOf ds, cs.drop count) else none

/-- Exactly two digits, within bounds. -/
def field? (least most : Nat) : Scan Nat := fun cs =>
  (figures? 2 cs).filter fun (n, _) => least ≤ n && n ≤ most

/-- The rest after a date of the calendar. -/
def date? (cs : List Char) : Option (List Char) := do
  let (year, cs) ← figures? 4 cs
  let cs ← afterMark '-' cs
  let (month, cs) ← field? 1 12 cs
  let cs ← afterMark '-' cs
  let (_, cs) ← field? 1 (Date.daysIn year month) cs
  return cs

/-- The rest after a fraction of a second, if one is there. -/
def skipFraction : List Char → List Char
  | '.' :: c :: rest => if isDigit c then rest.dropWhile isDigit else '.' :: c :: rest
  | rest => rest

/-- The rest after a time of day. -/
def time? (cs : List Char) : Option (List Char) := do
  let (_, cs) ← field? 0 23 cs
  let cs ← afterMark ':' cs
  let (_, cs) ← field? 0 59 cs
  let cs ← afterMark ':' cs
  let (_, cs) ← field? 0 60 cs
  return skipFraction cs

/-- The rest after an offset. -/
def offset? : List Char → Option (List Char)
  | [] => none
  | c :: rest =>
    if c = 'Z' || c = 'z' then some rest
    else if c = '+' || c = '-' then do
      let (_, cs) ← field? 0 23 rest
      let cs ← afterMark ':' cs
      let (_, cs) ← field? 0 59 cs
      return cs
    else none

/-- The rest after a time of day that follows a date, with its offset, if they are there. -/
def skipTime (cs : List Char) : List Char :=
  match cs with
  | [] => []
  | c :: rest =>
    if c = 'T' || c = 't' || c = ' ' then
      match time? rest with
      | some rest => (offset? rest).getD rest
      | none => cs
    else cs

/-- A date, a time, or both, as it is written. -/
def moment? : Scan String := fun cs =>
  ((date? cs).map skipTime <|> time? cs).map fun rest =>
    (String.ofList (cs.take (cs.length - rest.length)), rest)

end Holdings.Toml
