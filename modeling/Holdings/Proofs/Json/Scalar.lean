import Mathlib
import Holdings.Json.Fields
import Holdings.Json.Printer
import Holdings.Json.Reader

/-!
# Single values in a JSON text

What the reader makes of a string, a whole number and a number as they are written, whatever follows them.

* `stringTail?_quoted` — every string is read back, escapes and all;
* `value?_integer` — so is every whole number of 64 bits;
* `value?_real` — a number is read in front of anything that does not go on with it as it is read alone. Whether it
  is read back depends on the digits: a reading may miss the last place. `Numeral.Legible` says of a number that it is
  read back.
-/

namespace Holdings

/-! ## Digits -/

theorem isDigit_eq (c : Char) : isDigit c = c.isDigit := by
  simp only [isDigit, Char.isDigit, Char.le_def]

theorem isDigit_of_mem_toDigits {n : Nat} {c : Char} (h : c ∈ Nat.toDigits 10 n) : isDigit c = true := by
  rw [isDigit_eq]
  exact Nat.isDigit_of_mem_toDigits (by decide) (by decide) h

theorem numberOf_toDigits (n : Nat) : numberOf (Nat.toDigits 10 n) = n :=
  Nat.ofDigitChars_toDigits (b := 10) (by decide) (by decide)

/-- Four hexadecimal digits of a control character. -/
theorem hexFigures_control {n : Nat} (h : n < 0x20) :
    ∃ a b c d, hexFigures 4 n = [a, b, c, d] ∧ hexNumber? [a, b, c, d] = some n := by
  have hall : ∀ n : Fin 0x20, (hexFigures 4 n).length = 4 ∧ hexNumber? (hexFigures 4 n) = some n.1 := by decide
  obtain ⟨hlength, hnumber⟩ := hall ⟨n, h⟩
  obtain ⟨a, b, c, d, hfigures⟩ := List.length_eq_four.mp hlength
  exact ⟨a, b, c, d, hfigures, hfigures ▸ hnumber⟩

namespace Json

/-! ## Strings -/

/-- The piece as which a character is read back. -/
def pieceOf (c : Char) : Piece :=
  if c.toNat < 0x20 ∧ c ∉ ['\n', '\r', '\t', '\x08', '\x0c'] then .unit c.toNat else .plain c

theorem pieces?_escaped (c : Char) (cs : List Char) :
    pieces? (escaped c ++ cs) = (pieces? cs).map fun (ps, rest) => (pieceOf c :: ps, rest) := by
  rw [escaped]
  split_ifs with hquote hslash hn hr ht hb hf hcontrol
  · subst hquote; simp [pieces?, escape?, pieceOf]
  · subst hslash; simp [pieces?, escape?, pieceOf]
  · subst hn; simp [pieces?, escape?, pieceOf]
  · subst hr; simp [pieces?, escape?, pieceOf]
  · subst ht; simp [pieces?, escape?, pieceOf]
  · subst hb; simp [pieces?, escape?, pieceOf]
  · subst hf; simp [pieces?, escape?, pieceOf]
  · obtain ⟨x, y, z, w, hfigures, hnumber⟩ := hexFigures_control hcontrol
    have hpiece : pieceOf c = .unit c.toNat := by simp [pieceOf, hcontrol, hn, hr, ht, hb, hf]
    simp only [hfigures, List.cons_append, List.nil_append, pieces?, hnumber, hpiece]
  · have hpiece : pieceOf c = .plain c := by simp [pieceOf, hcontrol]
    rw [List.singleton_append, pieces?.eq_def]
    split <;> simp_all

/-- A control character is no half of a surrogate pair, so it stands for itself. -/
theorem assemble_pieceOf (c : Char) (ps : List Piece) :
    assemble (pieceOf c :: ps) = (assemble ps).map (c :: ·) := by
  rw [pieceOf]
  split
  · next h =>
    have hhigh : isHighHalf c.toNat = false := by simp [isHighHalf]; omega
    have hlow : isLowHalf c.toNat = false := by simp [isLowHalf]; omega
    rcases ps with - | ⟨d | m, rest⟩ <;> simp [assemble, hhigh, hlow]
  · rfl

/-- **Every string is read back.** -/
theorem stringTail?_quoted (s : String) (rest : List Char) :
    stringTail? (s.toList.flatMap escaped ++ '"' :: rest) = some (some s.toList, rest) := by
  rw [stringTail?]
  induction s.toList with
  | nil => simp [pieces?, assemble]
  | cons c cs ih =>
    rw [List.flatMap_cons, List.append_assoc, pieces?_escaped]
    obtain ⟨⟨ps, rest'⟩, hpieces, hpair⟩ := Option.map_eq_some_iff.mp ih
    obtain ⟨hcontent, rfl⟩ := Prod.mk.inj hpair
    simp [hpieces, assemble_pieceOf, hcontent]

/-! ## Scans of numbers -/

/-- What may follow a number: it does not go on with it. -/
def endsNumber : List Char → Bool
  | [] => true
  | c :: _ => !isDigit c && c ≠ '.' && c ≠ 'e' && c ≠ 'E'

/-- A scan that is not disturbed by what follows a number. -/
def Extends {β : Type} (scan : Scan β) : Prop :=
  ∀ ⦃cs : List Char⦄ ⦃b : β⦄ ⦃left rest : List Char⦄, scan cs = some (b, left) → endsNumber rest = true →
    scan (cs ++ rest) = some (b, left ++ rest)

theorem Extends.map {β γ : Type} {scan : Scan β} (hscan : Extends scan) (f : β → γ) :
    Extends fun cs => (scan cs).map fun (b, left) => (f b, left) := by
  intro cs c left rest h hrest
  obtain ⟨⟨b, left'⟩, hb, hpair⟩ := Option.map_eq_some_iff.mp h
  obtain ⟨rfl, rfl⟩ := Prod.mk.inj hpair
  dsimp only
  rw [hscan hb hrest, Option.map_some]

theorem takeWhile_isDigit_of_endsNumber {rest : List Char} (h : endsNumber rest = true) :
    rest.takeWhile isDigit = [] := by
  rcases rest with - | ⟨c, cs⟩
  · rfl
  · simp_all [endsNumber]

theorem digits?_extends : Extends digits? := by
  intro cs ds left rest h hrest
  have htake : (cs ++ rest).takeWhile isDigit = cs.takeWhile isDigit := by
    rw [List.takeWhile_append, takeWhile_isDigit_of_endsNumber hrest, List.append_nil]
    split
    · next hall => exact ((List.takeWhile_prefix isDigit).eq_of_length hall).symm
    · rfl
  have hlength := (List.takeWhile_prefix isDigit (l := cs)).length_le
  simp only [digits?] at h ⊢
  rw [htake]
  split at h
  · cases h
  · next hne =>
    obtain ⟨rfl, rfl⟩ := Prod.mk.inj (Option.some.inj h)
    rw [if_neg hne, List.drop_append_of_le_length hlength]

theorem fraction?_of_ne {c : Char} {cs : List Char} (h : c ≠ '.') : fraction? (c :: cs) = some ([], c :: cs) := by
  rw [fraction?]
  rintro rest hcons
  exact h (List.cons.inj hcons).1

theorem fraction?_of_endsNumber {rest : List Char} (h : endsNumber rest = true) : fraction? rest = some ([], rest) := by
  rcases rest with - | ⟨c, cs⟩
  · rfl
  · exact fraction?_of_ne (by simp_all [endsNumber])

theorem exponent?_of_endsNumber {rest : List Char} (h : endsNumber rest = true) :
    exponent? rest = some (none, rest) := by
  rcases rest with - | ⟨c, cs⟩
  · rfl
  · simp_all [endsNumber, exponent?]

theorem fraction?_extends : Extends fraction? := by
  intro cs ds left rest h hrest
  rcases cs with - | ⟨c, cs⟩
  · obtain ⟨rfl, rfl⟩ := Prod.mk.inj (Option.some.inj h)
    exact fraction?_of_endsNumber hrest
  · by_cases hc : c = '.'
    · subst hc
      exact digits?_extends h hrest
    · rw [fraction?_of_ne hc] at h
      obtain ⟨rfl, rfl⟩ := Prod.mk.inj (Option.some.inj h)
      exact fraction?_of_ne hc

/-- Digits begin with one. -/
theorem digits?_head {cs ds left : List Char} (h : digits? cs = some (ds, left)) :
    ∃ c tail, cs = c :: tail ∧ isDigit c = true := by
  rcases cs with - | ⟨c, tail⟩
  · cases h
  · refine ⟨c, tail, rfl, ?_⟩
    by_contra hc
    simp [digits?, hc] at h

theorem signedDigits?_of_isDigit {c : Char} (h : isDigit c = true) (cs : List Char) :
    signedDigits? (c :: cs) = (digits? (c :: cs)).map fun (ds, rest) => ((numberOf ds : Int), rest) := by
  rw [signedDigits?]
  · rintro rest ⟨⟩
    cases h
  · rintro rest ⟨⟩
    cases h

theorem signedDigits?_extends : Extends signedDigits? := by
  intro cs n left rest h hrest
  rw [signedDigits?.eq_def] at h
  split at h
  · exact digits?_extends.map (fun ds => (numberOf ds : Int)) h hrest
  · exact digits?_extends.map (fun ds => -(numberOf ds : Int)) h hrest
  · obtain ⟨⟨ds, left'⟩, hdigits, -⟩ := Option.map_eq_some_iff.mp h
    obtain ⟨c, tail, rfl, hc⟩ := digits?_head hdigits
    exact (signedDigits?_of_isDigit hc _).trans (digits?_extends.map (fun ds => (numberOf ds : Int)) h hrest)

theorem exponent?_extends : Extends exponent? := by
  intro cs n left rest h hrest
  rcases cs with - | ⟨c, cs⟩
  · obtain ⟨rfl, rfl⟩ := Prod.mk.inj (Option.some.inj h)
    exact exponent?_of_endsNumber hrest
  · simp only [exponent?, List.cons_append] at h ⊢
    split at h
    · next hc =>
      rw [if_pos hc]
      exact signedDigits?_extends.map some h hrest
    · next hc =>
      obtain ⟨rfl, rfl⟩ := Prod.mk.inj (Option.some.inj h)
      rw [if_neg hc]
      rfl

theorem unsigned?_extends (negative : Bool) : Extends (unsigned? negative) := by
  intro cs w left rest h hrest
  simp only [unsigned?, Option.bind_eq_bind, Option.bind_eq_some_iff] at h ⊢
  obtain ⟨⟨whole, cs₁⟩, hwhole, _, hguard, ⟨fraction, cs₂⟩, hfraction, ⟨exponent, cs₃⟩, hexponent, hpure⟩ := h
  obtain ⟨rfl, rfl⟩ := Prod.mk.inj (Option.some.inj hpure)
  exact ⟨_, digits?_extends hwhole hrest, _, hguard, _, fraction?_extends hfraction hrest, _,
    exponent?_extends hexponent hrest, rfl⟩

theorem numberText?_of_isDigit {c : Char} (h : isDigit c = true) (cs : List Char) :
    numberText? (c :: cs) = unsigned? false (c :: cs) := by
  rw [numberText?]
  rintro rest ⟨⟩
  cases h

/-- A number that is read begins with its sign or with a digit. -/
theorem numberText?_head {cs left : List Char} {w : NumberText} (h : numberText? cs = some (w, left)) :
    ∃ c tail, cs = c :: tail ∧ (c = '-' ∨ isDigit c = true) := by
  rw [numberText?.eq_def] at h
  split at h
  · exact ⟨_, _, rfl, .inl rfl⟩
  · obtain ⟨⟨whole, cs₁⟩, hwhole, -⟩ := Option.bind_eq_some_iff.mp h
    obtain ⟨c, tail, rfl, hc⟩ := digits?_head hwhole
    exact ⟨c, tail, rfl, .inr hc⟩

/-- **A number is read as it is read alone**, in front of anything that does not go on with it. -/
theorem numberText?_extends : Extends numberText? := by
  intro cs w left rest h hrest
  obtain ⟨c, tail, rfl, rfl | hc⟩ := numberText?_head h
  · exact unsigned?_extends true h hrest
  · rw [numberText?_of_isDigit hc] at h
    exact (numberText?_of_isDigit hc _).trans (unsigned?_extends false h hrest)

/-! ### What a scan takes -/

theorem digits?_eq_some {cs ds left : List Char} (h : digits? cs = some (ds, left)) :
    cs = ds ++ left ∧ ds ≠ [] ∧ ∀ c ∈ ds, isDigit c = true := by
  simp only [digits?] at h
  split at h
  · cases h
  · next hne =>
    obtain ⟨rfl, rfl⟩ := Prod.mk.inj (Option.some.inj h)
    refine ⟨?_, by simpa using hne, fun c hc => List.mem_takeWhile_imp hc⟩
    exact (List.prefix_iff_eq_append.mp (List.takeWhile_prefix isDigit)).symm

theorem fraction?_suffix {cs ds left : List Char} (h : fraction? cs = some (ds, left)) :
    left <:+ cs ∧ (ds = [] → left = cs) := by
  rw [fraction?.eq_def] at h
  split at h
  · obtain ⟨rfl, hne, -⟩ := digits?_eq_some h
    exact ⟨⟨'.' :: ds, rfl⟩, fun hnil => absurd hnil hne⟩
  · obtain ⟨rfl, rfl⟩ := Prod.mk.inj (Option.some.inj h)
    exact ⟨List.suffix_refl _, fun _ => rfl⟩

theorem signedDigits?_suffix {cs left : List Char} {n : Int} (h : signedDigits? cs = some (n, left)) :
    left <:+ cs := by
  rw [signedDigits?.eq_def] at h
  split at h <;> obtain ⟨⟨ds, left'⟩, hdigits, hpair⟩ := Option.map_eq_some_iff.mp h <;>
    obtain ⟨rfl, rfl⟩ := Prod.mk.inj hpair <;> obtain ⟨rfl, -⟩ := digits?_eq_some hdigits
  · exact ⟨'+' :: ds, rfl⟩
  · exact ⟨'-' :: ds, rfl⟩
  · exact ⟨ds, rfl⟩

theorem exponent?_suffix {cs left : List Char} {n : Option Int} (h : exponent? cs = some (n, left)) :
    left <:+ cs ∧ (n = none → left = cs) := by
  rcases cs with - | ⟨c, cs⟩
  · obtain ⟨rfl, rfl⟩ := Prod.mk.inj (Option.some.inj h)
    exact ⟨List.suffix_refl _, fun _ => rfl⟩
  · simp only [exponent?] at h
    split at h
    · obtain ⟨⟨m, left'⟩, hsigned, hpair⟩ := Option.map_eq_some_iff.mp h
      obtain ⟨rfl, rfl⟩ := Prod.mk.inj hpair
      exact ⟨(signedDigits?_suffix hsigned).trans (List.suffix_cons c cs), fun hnone => by cases hnone⟩
    · obtain ⟨rfl, rfl⟩ := Prod.mk.inj (Option.some.inj h)
      exact ⟨List.suffix_refl _, fun _ => rfl⟩

/-- What a number takes, which is only its sign and digits where it is a whole number. -/
theorem numberText?_takes {cs left : List Char} {w : NumberText} (h : numberText? cs = some (w, left)) :
    ∃ taken, cs = taken ++ left ∧ (w.integer?.isSome = true → ∀ c ∈ taken, c = '-' ∨ isDigit c = true) := by
  have hunsigned : ∀ {negative : Bool} {cs : List Char}, unsigned? negative cs = some (w, left) →
      ∃ taken, cs = taken ++ left ∧ (w.integer?.isSome = true → ∀ c ∈ taken, isDigit c = true) := by
    intro negative cs h
    simp only [unsigned?, Option.bind_eq_bind, Option.bind_eq_some_iff] at h
    obtain ⟨⟨whole, cs₁⟩, hwhole, _, -, ⟨fraction, cs₂⟩, hfraction, ⟨exponent, cs₃⟩, hexponent, hpure⟩ := h
    obtain ⟨rfl, rfl⟩ := Prod.mk.inj (Option.some.inj hpure)
    obtain ⟨rfl, -, hdigits⟩ := digits?_eq_some hwhole
    -- a whole number has neither fraction nor exponent, so nothing was taken for them
    obtain ⟨hsuffix, hnofraction⟩ := fraction?_suffix hfraction
    obtain ⟨hsuffix', hnoexponent⟩ := exponent?_suffix hexponent
    by_cases hinteger : (NumberText.integer? ⟨negative, whole, fraction, exponent⟩).isSome = true
    · have hboth : fraction = [] ∧ exponent = none := by
        by_contra hnot
        rw [NumberText.integer?, if_neg (by simpa using hnot)] at hinteger
        cases hinteger
      obtain rfl := hnofraction hboth.1
      obtain rfl := hnoexponent hboth.2
      exact ⟨whole, rfl, fun _ => hdigits⟩
    · obtain ⟨taken, htaken⟩ := hsuffix'.trans (hsuffix.trans (List.suffix_append whole _))
      exact ⟨taken, htaken.symm, fun h => absurd h hinteger⟩
  rw [numberText?.eq_def] at h
  split at h
  · obtain ⟨taken, rfl, hdigits⟩ := hunsigned h
    refine ⟨'-' :: taken, rfl, fun hinteger c hc => ?_⟩
    rcases List.mem_cons.mp hc with rfl | hc
    · exact .inl rfl
    · exact .inr (hdigits hinteger c hc)
  · obtain ⟨taken, rfl, hdigits⟩ := hunsigned h
    exact ⟨taken, rfl, fun hinteger c hc => .inr (hdigits hinteger c hc)⟩

/-! ## Numbers as they are written -/

theorem head?_toDigits : ∀ {n : Nat}, 0 < n → (Nat.toDigits 10 n).head? ≠ some '0' := by
  intro n
  induction n using Nat.strong_induction_on with
  | h n ih =>
    intro hpos
    rcases Nat.lt_or_ge n 10 with hlt | hge
    · have hall : ∀ m : Fin 10, 0 < m.1 → Nat.digitChar m.1 ≠ '0' := by decide
      rw [Nat.toDigits_of_lt_base hlt]
      simpa using hall ⟨n, hlt⟩ hpos
    · rw [Nat.toDigits_of_base_le (by decide) hge, List.head?_append_of_ne_nil _ Nat.toDigits_ne_nil]
      exact ih (n / 10) (Nat.div_lt_self hpos (by decide)) (Nat.div_pos hge (by decide))

/-- The digits of a whole number are read as they are written. -/
theorem unsigned?_toDigits (negative : Bool) (n : Nat) {rest : List Char} (h : endsNumber rest = true) :
    unsigned? negative (Nat.toDigits 10 n ++ rest) = some (⟨negative, Nat.toDigits 10 n, [], none⟩, rest) := by
  have htake : (Nat.toDigits 10 n ++ rest).takeWhile isDigit = Nat.toDigits 10 n := by
    rw [List.takeWhile_append_of_pos fun c hc => isDigit_of_mem_toDigits hc, takeWhile_isDigit_of_endsNumber h,
      List.append_nil]
  have hdigits : digits? (Nat.toDigits 10 n ++ rest) = some (Nat.toDigits 10 n, rest) := by
    simp only [digits?, htake, List.drop_left]
    exact if_neg (by simp)
  have hzero : (Nat.toDigits 10 n).length = 1 ∨ (Nat.toDigits 10 n).head? ≠ some '0' := by
    rcases Nat.eq_zero_or_pos n with rfl | hpos
    · exact .inl rfl
    · exact .inr (head?_toDigits hpos)
  simp [unsigned?, hdigits, hzero, guard, fraction?_of_endsNumber h, exponent?_of_endsNumber h]

variable {α : Type}

section Quantity

variable [Quantity α]

/-- What begins like a number does not begin with a blank. -/
theorem skipSpace_of_numberHead {c : Char} (h : c = '-' ∨ isDigit c = true) (tail : List Char) :
    skipSpace (c :: tail) = c :: tail := by
  refine List.dropWhile_cons_of_neg fun hspace => ?_
  simp only [isSpace, Bool.or_eq_true, decide_eq_true_eq] at hspace
  rcases hspace with ((rfl | rfl) | rfl) | rfl <;> revert h <;> decide

theorem skipSpace_eq_self {cs : List Char} (h : ∀ c ∈ cs, isSpace c = false) : skipSpace cs = cs := by
  rcases cs with - | ⟨c, tail⟩
  · rfl
  · exact List.dropWhile_cons_of_neg (by simp [h c (List.mem_cons_self ..)])

/-- A value that begins like a number is read as one. -/
theorem value?_of_numberText? {cs left : List Char} {w : NumberText} (h : numberText? cs = some (w, left))
    (fuel : Nat) : value? (fuel + 1) cs = some ((w.value : Json α), left) := by
  obtain ⟨c, tail, rfl, hc⟩ := numberText?_head h
  have hother : ∀ d ∈ ['"', '[', '{', 'n', 't', 'f'], c ≠ d := by
    have hhead : ∀ d ∈ ['"', '[', '{', 'n', 't', 'f'], ¬(d = '-' ∨ isDigit d = true) := by simp [isDigit]
    rintro d hd rfl
    exact hhead c hd hc
  rw [value?, skipSpace_of_numberHead hc]
  split <;> simp_all

/-- Only what begins like a number is read as one. -/
theorem numberText?_of_value? {cs left : List Char} {j : Json α} {x : α} {fuel : Nat}
    (h : value? fuel cs = some (j, left)) (hx : j.number? = some x) :
    ∃ w, numberText? (skipSpace cs) = some (w, left) ∧ w.value = j := by
  cases fuel with
  | zero => cases h
  | succ fuel =>
    rw [value?] at h
    split at h
    · obtain ⟨⟨content, left'⟩, -, hpair⟩ := Option.map_eq_some_iff.mp h
      obtain ⟨rfl, rfl⟩ := Prod.mk.inj hpair
      cases content <;> cases hx
    · split at h
      · obtain ⟨rfl, rfl⟩ := Prod.mk.inj (Option.some.inj h)
        cases hx
      · obtain ⟨⟨items, left'⟩, -, hpair⟩ := Option.map_eq_some_iff.mp h
        obtain ⟨rfl, rfl⟩ := Prod.mk.inj hpair
        cases hx
    · split at h
      · obtain ⟨rfl, rfl⟩ := Prod.mk.inj (Option.some.inj h)
        cases hx
      · obtain ⟨⟨members, left'⟩, -, hpair⟩ := Option.map_eq_some_iff.mp h
        obtain ⟨rfl, rfl⟩ := Prod.mk.inj hpair
        rw [objectOf] at hx
        split at hx <;> cases hx
    · obtain ⟨rfl, rfl⟩ := Prod.mk.inj (Option.some.inj h)
      cases hx
    · obtain ⟨rfl, rfl⟩ := Prod.mk.inj (Option.some.inj h)
      cases hx
    · obtain ⟨rfl, rfl⟩ := Prod.mk.inj (Option.some.inj h)
      cases hx
    · obtain ⟨⟨w, left'⟩, hw, hpair⟩ := Option.map_eq_some_iff.mp h
      obtain ⟨rfl, rfl⟩ := Prod.mk.inj hpair
      exact ⟨w, hw, rfl⟩

/-- **Every whole number of 64 bits is read back.** -/
theorem value?_integer {n : Int} (hleast : -(largestNegative : Int) ≤ n) (hgreatest : n ≤ greatestWord)
    {rest : List Char} (hrest : endsNumber rest = true) (fuel : Nat) :
    value? (fuel + 1) (integerChars n ++ rest) = some ((.integer n : Json α), rest) := by
  have hvalue : ∀ w : NumberText, w.integer? = some n → (w.value : Json α) = .integer n := fun w hw => by
    rw [NumberText.value, hw]
  rw [integerChars]
  split
  · next hneg =>
    have hinteger : NumberText.integer? ⟨true, Nat.toDigits 10 n.natAbs, [], none⟩ = some n := by
      have hbound : 0 < n.natAbs ∧ n.natAbs ≤ largestNegative := by omega
      simp only [NumberText.integer?, numberOf_toDigits, List.isEmpty_nil, Option.isNone_none, Bool.and_self, if_true,
        if_pos hbound]
      congr 1
      omega
    have hscan : numberText? ('-' :: (Nat.toDigits 10 n.natAbs ++ rest)) =
        some (⟨true, Nat.toDigits 10 n.natAbs, [], none⟩, rest) := unsigned?_toDigits true n.natAbs hrest
    exact (value?_of_numberText? hscan fuel).trans (by rw [hvalue _ hinteger])
  · next hnonneg =>
    have hinteger : NumberText.integer? ⟨false, Nat.toDigits 10 n.natAbs, [], none⟩ = some n := by
      have hbound : n.natAbs ≤ greatestWord := by omega
      simp only [NumberText.integer?, numberOf_toDigits, List.isEmpty_nil, Option.isNone_none, Bool.and_self, if_true,
        Bool.false_eq_true, if_false, if_pos hbound]
      congr 1
      omega
    have hscan : numberText? (Nat.toDigits 10 n.natAbs ++ rest) =
        some (⟨false, Nat.toDigits 10 n.natAbs, [], none⟩, rest) := by
      have hunsigned := unsigned?_toDigits false n.natAbs hrest
      rcases hdigits : Nat.toDigits 10 n.natAbs with - | ⟨c, tail⟩
      · exact absurd hdigits Nat.toDigits_ne_nil
      · have hc : isDigit c = true := isDigit_of_mem_toDigits (n := n.natAbs) (hdigits ▸ List.mem_cons_self ..)
        rw [hdigits] at hunsigned
        exact (numberText?_of_isDigit hc _).trans hunsigned
    rw [value?_of_numberText? hscan, hvalue _ hinteger]

end Quantity

/-! ### Numbers with a point or an exponent -/

section Numeral

/-- The characters of a decimal: digits, signs, a point and the mark of an exponent. -/
def isNumeric (c : Char) : Bool := isDigit c || c = '-' || c = '+' || c = '.' || c = 'e'

theorem isSpace_of_isNumeric {c : Char} (h : isNumeric c = true) : isSpace c = false := by
  by_contra hspace
  simp only [isSpace, Bool.not_eq_false, Bool.or_eq_true, decide_eq_true_eq] at hspace
  rcases hspace with ((rfl | rfl) | rfl) | rfl <;> revert h <;> decide

theorem isNumeric_figures (n : Nat) : ∀ c ∈ Decimal.figures n, isNumeric c = true := fun c hc => by
  simp [isNumeric, isDigit_of_mem_toDigits hc]

theorem isNumeric_positionally (s : Style) {figures : List Char} (h : ∀ c ∈ figures, isNumeric c = true)
    (exponent : Int) : ∀ c ∈ s.positionally figures exponent, isNumeric c = true := by
  have hzeros : ∀ n, ∀ c ∈ List.replicate n '0', isNumeric c = true := fun n c hc => by
    rw [List.eq_of_mem_replicate hc]
    rfl
  simp only [Style.positionally]
  split_ifs
  · simp only [List.forall_mem_append]
    exact ⟨⟨h, hzeros _⟩, by simp [isNumeric, isDigit]⟩
  · simp only [List.forall_mem_append]
    exact ⟨⟨h, hzeros _⟩, by simp⟩
  · simp only [List.forall_mem_append, List.forall_mem_cons]
    exact ⟨fun c hc => h c (List.mem_of_mem_take hc), rfl, fun c hc => h c (List.mem_of_mem_drop hc)⟩
  · simp only [List.forall_mem_append, List.forall_mem_cons]
    exact ⟨rfl, rfl, hzeros _, h⟩

theorem isNumeric_scientifically (s : Style) {figures : List Char} (h : ∀ c ∈ figures, isNumeric c = true)
    (e : Int) : ∀ c ∈ s.scientifically figures e, isNumeric c = true := by
  simp only [Style.scientifically, List.forall_mem_append, List.forall_mem_cons]
  refine ⟨⟨fun c hc => h c (List.mem_of_mem_take hc), ?_⟩, rfl, ?_, isNumeric_figures _⟩
  · split
    · simp
    · exact List.forall_mem_cons.mpr ⟨rfl, fun c hc => h c (List.mem_of_mem_drop hc)⟩
  · split_ifs <;> simp [isNumeric]

theorem isNumeric_spell (s : Style) (d : Decimal) : ∀ c ∈ s.spell d, isNumeric c = true := by
  have hfigures := isNumeric_figures d.digits
  simp only [Style.spell]
  split_ifs
  · exact List.forall_mem_cons.mpr ⟨rfl, isNumeric_positionally s hfigures _⟩
  · exact List.forall_mem_cons.mpr ⟨rfl, isNumeric_scientifically s hfigures _⟩
  · exact isNumeric_positionally s hfigures _
  · exact isNumeric_scientifically s hfigures _

/-- A decimal has a point or an exponent. -/
theorem exists_mark_spell (d : Decimal) : ∃ c ∈ Style.json.spell d, c = '.' ∨ c = 'e' := by
  have hpositional : '.' ∈ Style.json.positionally (Decimal.figures d.digits) d.exponent := by
    simp only [Style.positionally, Style.json]
    split_ifs <;> simp
  have hscientific : ∀ e, 'e' ∈ Style.json.scientifically (Decimal.figures d.digits) e := by
    intro e
    simp [Style.scientifically]
  simp only [Style.spell]
  split_ifs
  · exact ⟨'.', List.mem_cons_of_mem _ hpositional, .inl rfl⟩
  · exact ⟨'e', List.mem_cons_of_mem _ (hscientific _), .inr rfl⟩
  · exact ⟨'.', hpositional, .inl rfl⟩
  · exact ⟨'e', hscientific _, .inr rfl⟩

variable [Numeral α]

/-- A number has no blanks, whatever it is. -/
theorem isSpace_of_mem_realChars {x : α} {c : Char} (h : c ∈ realChars x) : isSpace c = false := by
  have hword : ∀ word ∈ [nullWord, ['N', 'a', 'N'], ['-', 'i', 'n', 'f'], ['i', 'n', 'f']], ∀ c ∈ word,
      isSpace c = false := by simp [nullWord, isSpace]
  rw [realChars, Style.chars] at h
  split at h
  · split at h
    · exact hword _ (by simp) c h
    · split at h <;> exact hword _ (by simp) c h
    · exact isSpace_of_isNumeric (isNumeric_spell _ _ c h)
  · exact hword _ (by simp) c h

/-- A number is not only a sign and digits. -/
theorem exists_mark_realChars (x : α) : ∃ c ∈ realChars x, ¬(c = '-' ∨ isDigit c = true) := by
  rw [realChars, Style.chars]
  split
  · split
    · exact ⟨'N', by simp, by decide⟩
    · split <;> exact ⟨'i', by simp, by decide⟩
    · next d _ =>
      obtain ⟨c, hc, rfl | rfl⟩ := exists_mark_spell d
      · exact ⟨'.', hc, by decide⟩
      · exact ⟨'e', hc, by decide⟩
  · exact ⟨'n', by simp [nullWord], by decide⟩

end Numeral

end Json

section Legible

variable {α : Type} [Numeral α] {x : α}

/-- A number that is read back as it was written. One that is not finite is written as `null`, and is not. -/
def Numeral.Legible (x : α) : Prop := (Json.parse? (Json.compact (.real x))).bind Json.number? = some x

instance [DecidableEq α] : Decidable (Numeral.Legible x) := inferInstanceAs (Decidable (_ = some x))

namespace Json

/-- The text of a number that is read back is a number, with nothing left over, and no whole one. -/
theorem numberText?_of_legible (h : Numeral.Legible x) :
    ∃ w, numberText? (realChars x) = some (w, []) ∧ (w.value : Json α) = .real x := by
  have htext : (Json.compact (.real x)).toList = realChars x := by
    rw [compact, compactChars, String.toList_ofList, List.append_nil]
  rw [Numeral.Legible, parse?, htext, ofChars?] at h
  split at h
  · next j left hvalue =>
    split at h
    · next hempty =>
      rw [Option.bind_some] at h
      -- the text has no blanks, so none were skipped, and what is left over is nothing
      have hskip : skipSpace (realChars x) = realChars x := skipSpace_eq_self fun c => isSpace_of_mem_realChars
      obtain ⟨w, hw, rfl⟩ := numberText?_of_value? hvalue h
      rw [hskip] at hw
      obtain ⟨taken, htaken, hdigits⟩ := numberText?_takes hw
      obtain rfl : left = [] := by
        have hleft : skipSpace left = left := skipSpace_eq_self fun c hc =>
          isSpace_of_mem_realChars (htaken ▸ List.mem_append_right taken hc)
        rw [hleft] at hempty
        exact List.isEmpty_iff.mp hempty
      refine ⟨w, hw, ?_⟩
      rw [List.append_nil] at htaken
      -- it has a point or an exponent, so it is no whole number
      obtain ⟨c, hc, hmark⟩ := exists_mark_realChars x
      have hnone : w.integer? = none := by
        by_contra hne
        exact hmark (hdigits (Option.isSome_iff_ne_none.mpr hne) c (htaken ▸ hc))
      simp only [NumberText.value, hnone] at h ⊢
      split at h
      · exact congrArg _ (Option.some.inj h)
      · cases h
    · cases h
  · cases h

/-- **A number that is read back alone is read back anywhere.** -/
theorem value?_real (h : Numeral.Legible x) {rest : List Char} (hrest : endsNumber rest = true) (fuel : Nat) :
    value? (fuel + 1) (realChars x ++ rest) = some (.real x, rest) := by
  obtain ⟨w, hw, hvalue⟩ := numberText?_of_legible h
  rw [value?_of_numberText? (numberText?_extends hw hrest), hvalue, List.nil_append]

end Json

end Legible

end Holdings
