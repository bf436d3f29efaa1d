import Mathlib
import Holdings.Proofs.Json.Scalar

/-!
# Layouts of a JSON text

The two layouts of a text differ in their blanks alone. A `Layout` says what blanks stand between the parts of a text,
and `Layout.chars` writes a tree with them; both `Json.compact` and `Json.pretty` are layouts in this sense.

`Json.value?_chars` — in every layout the reader gets back the tree that was written, as long as its scalars are
legible. `Json.parse?_text` says so of whole texts, and `Json.parse?_compact` and `Json.parse?_pretty` are the two
cases that occur.
-/

namespace Holdings

/-- Blanks between the parts of a text. -/
structure Layout where
  /-- what stands in front of an item, a member or a closing mark at a level -/
  gap : Nat → List Char
  /-- what stands after a colon -/
  afterColon : List Char
  /-- nothing but blanks -/
  isSpace_gap : ∀ level, ∀ c ∈ gap level, Json.isSpace c = true
  /-- nothing but blanks -/
  isSpace_afterColon : ∀ c ∈ afterColon, Json.isSpace c = true

namespace Layout

/-- No blanks at all. -/
def dense : Layout where
  gap _ := []
  afterColon := []
  isSpace_gap _ _ h := by cases h
  isSpace_afterColon _ h := by cases h

/-- A line for each item or member, with two blanks of indentation for each level. -/
def lines : Layout where
  gap level := '\n' :: List.replicate (2 * level) ' '
  afterColon := [' ']
  isSpace_gap level c h := by
    rcases List.mem_cons.mp h with rfl | h
    · rfl
    · rw [List.eq_of_mem_replicate h]
      rfl
  isSpace_afterColon c h := by
    rw [List.mem_singleton.mp h]
    rfl

@[simp] theorem gap_dense (level : Nat) : dense.gap level = [] := rfl

@[simp] theorem afterColon_dense : dense.afterColon = [] := rfl

@[simp] theorem afterColon_lines : lines.afterColon = [' '] := rfl

variable {α : Type} [Numeral α]

mutual

/-- A tree at a level of indentation. -/
def chars (l : Layout) (level : Nat) : Json α → List Char
  | .null => Json.nullWord
  | .bool b => Json.boolWord b
  | .integer n => Json.integerChars n
  | .real x => Json.realChars x
  | .text s => Json.quoted s
  | .array [] => ['[', ']']
  | .array (j :: items) =>
    '[' :: (l.gap (level + 1) ++ (l.chars (level + 1) j ++ (l.itemsChars (level + 1) items ++
      (l.gap level ++ [']']))))
  | .object [] => ['{', '}']
  | .object ((name, j) :: members) =>
    '{' :: (l.gap (level + 1) ++ (Json.quoted name ++ ':' :: (l.afterColon ++ (l.chars (level + 1) j ++
      (l.membersChars (level + 1) members ++ (l.gap level ++ ['}']))))))
  | .unusable => Json.nullWord

/-- Further items, each after a comma. -/
def itemsChars (l : Layout) (level : Nat) : List (Json α) → List Char
  | [] => []
  | j :: items => ',' :: (l.gap level ++ (l.chars level j ++ l.itemsChars level items))

/-- Further members, each after a comma. -/
def membersChars (l : Layout) (level : Nat) : List (String × Json α) → List Char
  | [] => []
  | (name, j) :: members =>
    ',' :: (l.gap level ++ (Json.quoted name ++ ':' :: (l.afterColon ++ (l.chars level j ++
      l.membersChars level members))))

end

/-- The text of a tree. -/
def text (l : Layout) (j : Json α) : String := String.ofList (l.chars 0 j)

end Layout

namespace Json

variable {α : Type} [Numeral α]

/-! ## Both layouts -/

mutual

/-- The compact text has no blanks. -/
theorem compactChars_eq (level : Nat) :
    ∀ (j : Json α) (rest : List Char), j.compactChars rest = Layout.dense.chars level j ++ rest
  | .null, rest => rfl
  | .bool b, rest => rfl
  | .integer n, rest => rfl
  | .real x, rest => rfl
  | .text s, rest => rfl
  | .array [], rest => rfl
  | .array (j :: items), rest => by
    simp [compactChars, Layout.chars, compactChars_eq (level + 1) j, compactItems_eq (level + 1) items]
  | .object [], rest => rfl
  | .object ((name, j) :: members), rest => by
    simp [compactChars, Layout.chars, compactChars_eq (level + 1) j, compactMembers_eq (level + 1) members]
  | .unusable, rest => rfl

theorem compactItems_eq (level : Nat) :
    ∀ (items : List (Json α)) (rest : List Char),
      compactItems items rest = Layout.dense.itemsChars level items ++ rest
  | [], rest => rfl
  | j :: items, rest => by
    simp [compactItems, Layout.itemsChars, compactChars_eq level j, compactItems_eq level items]

theorem compactMembers_eq (level : Nat) :
    ∀ (members : List (String × Json α)) (rest : List Char),
      compactMembers members rest = Layout.dense.membersChars level members ++ rest
  | [], rest => rfl
  | (name, j) :: members, rest => by
    simp [compactMembers, Layout.membersChars, compactChars_eq level j, compactMembers_eq level members]

end

theorem newLine_eq (level : Nat) (rest : List Char) : newLine level rest = Layout.lines.gap level ++ rest := by
  simp [newLine, Layout.lines]

mutual

/-- The pretty text has its items and members on lines. -/
theorem prettyChars_eq (level : Nat) :
    ∀ (j : Json α) (rest : List Char), j.prettyChars level rest = Layout.lines.chars level j ++ rest
  | .null, rest => rfl
  | .bool b, rest => rfl
  | .integer n, rest => rfl
  | .real x, rest => rfl
  | .text s, rest => rfl
  | .array [], rest => rfl
  | .array (j :: items), rest => by
    simp [prettyChars, Layout.chars, newLine_eq, prettyChars_eq (level + 1) j, prettyItems_eq (level + 1) items]
  | .object [], rest => rfl
  | .object ((name, j) :: members), rest => by
    simp [prettyChars, Layout.chars, newLine_eq, prettyChars_eq (level + 1) j, prettyMembers_eq (level + 1) members]
  | .unusable, rest => rfl

theorem prettyItems_eq (level : Nat) :
    ∀ (items : List (Json α)) (rest : List Char),
      prettyItems level items rest = Layout.lines.itemsChars level items ++ rest
  | [], rest => rfl
  | j :: items, rest => by
    simp [prettyItems, Layout.itemsChars, newLine_eq, prettyChars_eq level j, prettyItems_eq level items]

theorem prettyMembers_eq (level : Nat) :
    ∀ (members : List (String × Json α)) (rest : List Char),
      prettyMembers level members rest = Layout.lines.membersChars level members ++ rest
  | [], rest => rfl
  | (name, j) :: members, rest => by
    simp [prettyMembers, Layout.membersChars, newLine_eq, prettyChars_eq level j, prettyMembers_eq level members]

end

theorem compact_eq_text (j : Json α) : j.compact = Layout.dense.text j := by
  rw [compact, compactChars_eq 0, List.append_nil, Layout.text]

theorem pretty_eq_text (j : Json α) : j.pretty = Layout.lines.text j := by
  rw [pretty, prettyChars_eq, List.append_nil, Layout.text]

/-! ## Reading a layout -/

/-- A tree whose scalars are read back as they are written. -/
inductive Legible : Json α → Prop where
  /-- the word `null` -/
  | null : Legible .null
  /-- a truth value -/
  | bool (b : Bool) : Legible (.bool b)
  /-- a whole number that fits into 64 bits -/
  | integer {n : Int} : -(largestNegative : Int) ≤ n → n ≤ greatestWord → Legible (.integer n)
  /-- a number that is read back -/
  | real {x : α} : Numeral.Legible x → Legible (.real x)
  /-- any string -/
  | text (s : String) : Legible (.text s)
  /-- legible values in a row -/
  | array {items : List (Json α)} : (∀ j ∈ items, Legible j) → Legible (.array items)
  /-- legible values with names -/
  | object {members : List (String × Json α)} : (∀ m ∈ members, Legible m.2) → Legible (.object members)

@[simp] theorem legible_null : (null : Json α).Legible := .null

@[simp] theorem legible_text (s : String) : (text s : Json α).Legible := .text s

@[simp] theorem legible_real_iff (x : α) : (real x).Legible ↔ Numeral.Legible x :=
  ⟨fun h => by cases h with | real hx => exact hx, .real⟩

theorem legible_count {n : Nat} (h : n ≤ greatestWord) : (count n : Json α).Legible :=
  .integer (by omega) (by omega)

@[simp] theorem legible_stamp (i : Instant) : (stamp i : Json α).Legible := .text _

@[simp] theorem legible_maybe_iff {β : Type} (write : β → Json α) (o : Option β) :
    (maybe write o).Legible ↔ ∀ b ∈ o, (write b).Legible := by
  cases o <;> simp [maybe]

@[simp] theorem legible_array_iff (items : List (Json α)) : (array items).Legible ↔ ∀ j ∈ items, j.Legible :=
  ⟨fun h => by cases h with | array hitems => exact hitems, .array⟩

@[simp] theorem legible_object_iff (members : List (String × Json α)) :
    (object members).Legible ↔ ∀ m ∈ members, m.2.Legible :=
  ⟨fun h => by cases h with | object hmembers => exact hmembers, .object⟩

variable {l : Layout} {level : Nat}

theorem skipSpace_append {blanks : List Char} (h : ∀ c ∈ blanks, isSpace c = true) (cs : List Char) :
    skipSpace (blanks ++ cs) = skipSpace cs :=
  List.dropWhile_append_of_pos h

/-- A value is looked for behind blanks. -/
theorem value?_append {blanks : List Char} (h : ∀ c ∈ blanks, isSpace c = true) (fuel : Nat) (cs : List Char) :
    (value? fuel (blanks ++ cs) : Option (Json α × List Char)) = value? fuel cs := by
  cases fuel with
  | zero => rfl
  | succ fuel => rw [value?, value?, skipSpace_append h]

theorem skipSpace_skipSpace (cs : List Char) : skipSpace (skipSpace cs) = skipSpace cs :=
  List.dropWhile_idempotent ..

/-- The mark that closes an array does not begin a value. -/
theorem value?_bracket (fuel : Nat) (cs : List Char) :
    (value? fuel (']' :: cs) : Option (Json α × List Char)) = none := by
  cases fuel <;> rfl

/-- The items of an array that has some. -/
theorem value?_array {cs rest : List Char} {items : List (Json α)} {fuel : Nat}
    (h : items? fuel cs = some (items, rest)) : value? (fuel + 1) ('[' :: cs) = some (.array items, rest) := by
  have hskip : items? fuel (skipSpace cs) = (items? fuel cs : Option (List (Json α) × List Char)) := by
    cases fuel with
    | zero => rfl
    | succ fuel =>
      cases fuel with
      | zero => rfl
      | succ fuel => simp only [items?, value?, skipSpace_skipSpace]
  have hopen : skipSpace ('[' :: cs) = '[' :: cs := rfl
  simp only [value?, hopen]
  -- the reader looks behind the blanks for a bracket that closes at once, but there are items
  split
  · next rest' hclose =>
    rw [hclose] at hskip
    rw [← hskip] at h
    cases fuel with
    | zero => cases h
    | succ fuel => simp [items?, value?_bracket] at h
  · rw [hskip, h, Option.map_some]

/-- The members of an object that has some. -/
theorem value?_object {cs rest : List Char} {members : List (Content × Json α)} {fuel : Nat}
    (h : members? fuel cs = some (members, rest)) :
    value? (fuel + 1) ('{' :: cs) = some (objectOf members, rest) := by
  have hskip : members? fuel (skipSpace cs) = (members? fuel cs : Option (List (Content × Json α) × List Char)) := by
    cases fuel with
    | zero => rfl
    | succ fuel => simp only [members?, skipSpace_skipSpace]
  have hopen : skipSpace ('{' :: cs) = '{' :: cs := rfl
  simp only [value?, hopen]
  split
  · next rest' hclose =>
    rw [hclose] at hskip
    rw [← hskip] at h
    cases fuel with
    | zero => cases h
    | succ fuel =>
      have hbrace : skipSpace ('}' :: rest') = '}' :: rest' := rfl
      simp [members?, hbrace] at h
  · rw [hskip, h, Option.map_some]

/-- Blanks do not go on with a number. -/
theorem endsNumber_append {blanks cs : List Char} (h : ∀ c ∈ blanks, isSpace c = true)
    (hcs : endsNumber cs = true) : endsNumber (blanks ++ cs) = true := by
  rcases blanks with - | ⟨c, tail⟩
  · exact hcs
  · have hc := h c (List.mem_cons_self ..)
    simp only [isSpace, Bool.or_eq_true, decide_eq_true_eq] at hc
    rcases hc with ((rfl | rfl) | rfl) | rfl <;> rfl

/-- A tree is read back from a layout, whatever follows that does not go on with a number. Two of the fuel for each
character are enough, as each step of the reader takes at least one character for two of the fuel. -/
def ReadBack (l : Layout) (level : Nat) (j : Json α) : Prop :=
  ∀ (fuel : Nat) (rest : List Char), 2 * (l.chars level j).length < fuel → endsNumber rest = true →
    value? fuel (l.chars level j ++ rest) = some (j, rest)

theorem ReadBack.of_succ {j : Json α}
    (h : ∀ (fuel : Nat) (rest : List Char), 2 * (l.chars level j).length ≤ fuel → endsNumber rest = true →
      value? (fuel + 1) (l.chars level j ++ rest) = some (j, rest)) : ReadBack l level j := by
  rintro (- | fuel) rest hfuel hrest
  · cases hfuel
  · exact h fuel rest (Nat.le_of_lt_succ hfuel) hrest

/-- The items of an array, its bracket and what follows it. -/
theorem items?_chars (level' : Nat) (rest : List Char) : ∀ (items : List (Json α)) (j : Json α) (fuel : Nat),
    (∀ k ∈ j :: items, ReadBack l level k) →
    2 * (l.gap level ++ (l.chars level j ++ (l.itemsChars level items ++ (l.gap level' ++ [']'])))).length ≤ fuel →
    items? fuel (l.gap level ++ (l.chars level j ++ (l.itemsChars level items ++ (l.gap level' ++ ']' :: rest)))) =
      some (j :: items, rest)
  | items, j, 0, _, hfuel => by simp at hfuel
  | [], j, fuel + 1, h, hfuel => by
    simp only [List.length_append, List.length_singleton] at hfuel
    -- blanks and the bracket end the last item, also where it is a number
    have hclose : skipSpace (l.gap level' ++ ']' :: rest) = ']' :: rest := skipSpace_append (l.isSpace_gap level') _
    have hends : endsNumber (l.gap level' ++ ']' :: rest) = true := endsNumber_append (l.isSpace_gap level') rfl
    have hvalue := h j (List.mem_cons_self ..) fuel _ (by omega) hends
    simp only [items?, value?_append (l.isSpace_gap level), Layout.itemsChars, List.nil_append, hvalue, hclose]
  | k :: items, j, fuel + 1, h, hfuel => by
    simp only [Layout.itemsChars, List.cons_append, List.append_assoc] at hfuel ⊢
    have ih := items?_chars level' rest items k fuel (fun k' hk' => h k' (List.mem_cons_of_mem _ hk'))
      (by simp only [List.length_append, List.length_cons] at hfuel ⊢; omega)
    simp only [List.length_append, List.length_cons] at hfuel
    rw [items?, value?_append (l.isSpace_gap level), h j (List.mem_cons_self ..) fuel _ (by omega) rfl]
    change (items? fuel _).map _ = _
    rw [ih, Option.map_some]

theorem quoted_append (s : String) (cs : List Char) :
    quoted s ++ cs = '"' :: (s.toList.flatMap escaped ++ '"' :: cs) := by
  rw [quoted, List.cons_append, List.append_assoc, List.singleton_append]

theorem skipSpace_quote (cs : List Char) : skipSpace ('"' :: cs) = '"' :: cs := rfl

theorem skipSpace_colon (cs : List Char) : skipSpace (':' :: cs) = ':' :: cs := rfl

section Member

variable {name : String} {j : Json α} {fuel : Nat} {next rest : List Char} (h : ReadBack l level j)
  (hfuel : 2 * (l.chars level j).length < fuel) (hnext : endsNumber next = true)

include h hfuel hnext

/-- A member with more of them after it. -/
theorem members?_more (hcomma : skipSpace next = ',' :: rest) :
    members? (fuel + 1) (l.gap level ++ (quoted name ++ ':' :: (l.afterColon ++ (l.chars level j ++ next)))) =
      (members? fuel rest).map fun (members, rest) => ((some name.toList, j) :: members, rest) := by
  simp only [members?, skipSpace_append (l.isSpace_gap level), quoted_append, skipSpace_quote, stringTail?_quoted,
    skipSpace_colon, value?_append l.isSpace_afterColon, h fuel next hfuel hnext, hcomma]

/-- The last member. -/
theorem members?_last (hbrace : skipSpace next = '}' :: rest) :
    members? (fuel + 1) (l.gap level ++ (quoted name ++ ':' :: (l.afterColon ++ (l.chars level j ++ next)))) =
      some ([(some name.toList, j)], rest) := by
  simp only [members?, skipSpace_append (l.isSpace_gap level), quoted_append, skipSpace_quote, stringTail?_quoted,
    skipSpace_colon, value?_append l.isSpace_afterColon, h fuel next hfuel hnext, hbrace]

end Member

/-- The members of an object, its brace and what follows it. -/
theorem members?_chars (level' : Nat) (rest : List Char) :
    ∀ (members : List (String × Json α)) (name : String) (j : Json α) (fuel : Nat),
    (∀ m ∈ (name, j) :: members, ReadBack l level m.2) →
    2 * (l.gap level ++ (quoted name ++ ':' :: (l.afterColon ++ (l.chars level j ++
      (l.membersChars level members ++ (l.gap level' ++ ['}'])))))).length ≤ fuel →
    members? fuel (l.gap level ++ (quoted name ++ ':' :: (l.afterColon ++ (l.chars level j ++
      (l.membersChars level members ++ (l.gap level' ++ '}' :: rest)))))) =
      some (((name, j) :: members).map fun m => (some m.1.toList, m.2), rest)
  | members, name, j, 0, _, hfuel => by simp at hfuel
  | [], name, j, fuel + 1, h, hfuel => by
    simp only [List.length_append, List.length_cons] at hfuel
    have hclose : skipSpace (l.gap level' ++ '}' :: rest) = '}' :: rest := skipSpace_append (l.isSpace_gap level') _
    have hends : endsNumber (l.gap level' ++ '}' :: rest) = true := endsNumber_append (l.isSpace_gap level') rfl
    have hroom : 2 * (l.chars level j).length < fuel := by omega
    exact members?_last (h (name, j) (List.mem_cons_self ..)) hroom hends hclose
  | (name', k) :: members, name, j, fuel + 1, h, hfuel => by
    simp only [Layout.membersChars, List.cons_append, List.append_assoc] at hfuel ⊢
    have ih := members?_chars level' rest members name' k fuel (fun m hm => h m (List.mem_cons_of_mem _ hm))
      (by simp only [List.length_append, List.length_cons] at hfuel ⊢; omega)
    simp only [List.length_append, List.length_cons] at hfuel
    have hroom : 2 * (l.chars level j).length < fuel := by omega
    refine (members?_more (h (name, j) (List.mem_cons_self ..)) hroom rfl rfl).trans ?_
    rw [ih, Option.map_some]
    rfl

omit [Numeral α] in
/-- An object whose names are texts. -/
theorem objectOf_some (members : List (String × Json α)) :
    objectOf (members.map fun m => (some m.1.toList, m.2)) = .object members := by
  have hmap : (members.map fun m => ((some m.1.toList : Content), m.2)).mapM
      (fun m => m.1.map fun name => (String.ofList name, m.2)) = some members := by
    induction members with
    | nil => rfl
    | cons m rest ih => simp [ih]
  rw [objectOf, hmap]

/-- **A legible tree is read back from every layout.** -/
theorem value?_chars {j : Json α} (h : j.Legible) : ∀ level, ReadBack l level j := by
  induction h with
  | null => exact fun level => .of_succ fun fuel rest _ _ => rfl
  | bool b => exact fun level => .of_succ fun fuel rest _ _ => by cases b <;> rfl
  | integer hleast hgreatest =>
    exact fun level => .of_succ fun fuel rest _ hrest => value?_integer hleast hgreatest hrest fuel
  | real hx => exact fun level => .of_succ fun fuel rest _ hrest => value?_real hx hrest fuel
  | text s =>
    refine fun level => .of_succ fun fuel rest _ _ => ?_
    simp only [Layout.chars, quoted_append, value?, skipSpace_quote, stringTail?_quoted, Option.map_some, textOf,
      String.ofList_toList]
  | @array items hitems ih =>
    refine fun level => .of_succ fun fuel rest hfuel hrest => ?_
    rcases items with - | ⟨j, items⟩
    · rfl
    · simp only [Layout.chars, List.length_cons] at hfuel
      have hread := items?_chars level rest items j fuel (fun k hk => ih k hk (level + 1)) (by omega)
      simpa only [Layout.chars, List.cons_append, List.append_assoc, List.nil_append] using value?_array hread
  | @object members hmembers ih =>
    refine fun level => .of_succ fun fuel rest hfuel hrest => ?_
    rcases members with - | ⟨⟨name, j⟩, members⟩
    · rfl
    · simp only [Layout.chars, List.length_cons] at hfuel
      have hread := members?_chars level rest members name j fuel (fun m hm => ih m hm (level + 1)) (by omega)
      simpa only [Layout.chars, List.cons_append, List.append_assoc, List.nil_append, objectOf_some] using
        value?_object hread

/-- A text in a layout is read as the tree that was written, also where blanks follow it. -/
theorem parse?_text {j : Json α} (h : j.Legible) (blanks : String) (hblanks : ∀ c ∈ blanks.toList, isSpace c = true) :
    parse? (l.text j ++ blanks) = some j := by
  have hends : endsNumber (blanks.toList ++ []) = true := endsNumber_append hblanks rfl
  rw [List.append_nil] at hends
  have hnothing : skipSpace blanks.toList = [] := List.dropWhile_eq_nil_iff.mpr hblanks
  have hvalue := value?_chars (l := l) h 0 (2 * (l.chars 0 j ++ blanks.toList).length + 2) blanks.toList
    (by rw [List.length_append]; omega) hends
  rw [parse?, String.toList_append, Layout.text, String.toList_ofList, ofChars?, hvalue]
  simp only [hnothing, List.isEmpty_nil, if_true]

/-- **A compact text is read back.** -/
theorem parse?_compact {j : Json α} (h : j.Legible) : parse? j.compact = some j := by
  rw [compact_eq_text]
  simpa using parse?_text (l := .dense) h "" nofun

/-- **A pretty text is read back.** -/
theorem parse?_pretty {j : Json α} (h : j.Legible) : parse? j.pretty = some j := by
  rw [pretty_eq_text]
  simpa using parse?_text (l := .lines) h "" nofun

end Json

end Holdings
