import ScopedQuery.Json
import ScopedQuery.Proofs.Views

namespace ScopedQuery.Json

/-!
# JSON texts and the values that they denote

A reader of JSON texts knows nothing of how they are laid out: blanks and line breaks may stand
around every part, each character of a string may be escaped in any way, and containers nest as deep
as one likes.  It keeps the containers that are open in a list, the innermost first.  Texts with a
truth value or a fraction denote no value of `Json`, and are not read.

* `chars?`, `integer?` — strings and numbers.
* `Container`, `valueIn`, `valueBehind` — a value in its containers, and what follows it.
* `ofText?` — the value that a whole text denotes.
* `valueIn_render` — the text of a value is read as that value, wherever it stands.
* `ofText_text` — so is a whole text, in every layout.
-/

/-! ### Strings -/

/-- The value of a hexadecimal digit. -/
def hexDigit? (c : Char) : Option Nat :=
  if '0' ≤ c ∧ c ≤ '9' then some (c.toNat - '0'.toNat)
  else if 'a' ≤ c ∧ c ≤ 'f' then some (c.toNat - 'a'.toNat + 10)
  else if 'A' ≤ c ∧ c ≤ 'F' then some (c.toNat - 'A'.toNat + 10)
  else none

/-- The value of four hexadecimal digits, and what follows them. -/
def codeUnit? : List Char → Option (Nat × List Char)
  | a :: b :: c :: d :: rest => do
    let a ← hexDigit? a
    let b ← hexDigit? b
    let c ← hexDigit? c
    let d ← hexDigit? d
    return (0x1000 * a + 0x100 * b + 0x10 * c + d, rest)
  | _ => none

/-- The characters that one letter behind a backslash stands for. -/
def shortEscapes : List (Char × Char) :=
  [('"', '"'), ('\\', '\\'), ('/', '/'), ('b', '\x08'), ('f', '\x0c'), ('n', '\n'), ('r', '\r'),
   ('t', '\t')]

/-- The second half of a character that is escaped as two, and what follows it. -/
def lowHalf? : List Char → Option (Nat × List Char)
  | '\\' :: 'u' :: rest => (codeUnit? rest).filter fun (unit, _) => 0xDC00 ≤ unit && unit ≤ 0xDFFF
  | _ => none

/-- The character of a number in hexadecimal digits, and what follows it.  A character beyond the
    first 65536 is escaped as two halves, neither of which stands alone. -/
def codePoint? (text : List Char) : Option (Char × List Char) :=
  match codeUnit? text with
  | none => none
  | some (unit, rest) =>
    if 0xD800 ≤ unit ∧ unit ≤ 0xDBFF then
      (lowHalf? rest).map fun (low, rest) =>
        (Char.ofNat (0x10000 + 0x400 * (unit - 0xD800) + (low - 0xDC00)), rest)
    else if 0xDC00 ≤ unit ∧ unit ≤ 0xDFFF then none
    else some (Char.ofNat unit, rest)

/-- The character that an escape stands for, and what follows it; the backslash has been read. -/
def escaped? : List Char → Option (Char × List Char)
  | [] => none
  | letter :: rest =>
    if letter = 'u' then codePoint? rest
    else (shortEscapes.lookup letter).map fun c => (c, rest)

/-- A code unit takes up four digits. -/
theorem length_codeUnit_lt {text rest : List Char} {unit : Nat}
    (h : codeUnit? text = some (unit, rest)) : rest.length < text.length := by
  unfold codeUnit? at h
  split at h
  · simp only [Option.bind_eq_bind, Option.bind_eq_some_iff, Option.pure_def, Option.some.injEq,
      Prod.mk.injEq] at h
    obtain ⟨-, -, -, -, -, -, -, -, -, rfl⟩ := h
    simp only [List.length_cons]
    omega
  · cases h

/-- The second half of a pair takes up some of the text. -/
theorem length_lowHalf_lt {text rest : List Char} {unit : Nat}
    (h : lowHalf? text = some (unit, rest)) : rest.length < text.length := by
  unfold lowHalf? at h
  split at h
  · have := length_codeUnit_lt (Option.filter_eq_some_iff.mp h).1
    simp only [List.length_cons]
    omega
  · cases h

/-- So does a code point, whether it is one code unit or a pair. -/
theorem length_codePoint_lt {text rest : List Char} {c : Char}
    (h : codePoint? text = some (c, rest)) : rest.length < text.length := by
  unfold codePoint? at h
  split at h
  · cases h
  next unit rest₁ hunit =>
    have hlt := length_codeUnit_lt hunit
    split at h
    · obtain ⟨⟨low, rest₂⟩, hlow, heq⟩ := Option.map_eq_some_iff.mp h
      have hlt' := length_lowHalf_lt hlow
      obtain ⟨-, rfl⟩ := Prod.mk.inj heq
      omega
    split at h
    · cases h
    · obtain ⟨-, rfl⟩ := Prod.mk.inj (Option.some.inj h)
      exact hlt

/-- So does a character that is escaped. -/
theorem length_escaped_lt {text rest : List Char} {c : Char} (h : escaped? text = some (c, rest)) :
    rest.length < text.length := by
  unfold escaped? at h
  split at h
  · cases h
  split at h
  · have := length_codePoint_lt h
    simp only [List.length_cons]
    omega
  · obtain ⟨c', -, hc⟩ := Option.map_eq_some_iff.mp h
    obtain ⟨-, rfl⟩ := Prod.mk.inj hc
    simp

/-- The characters of a string up to its closing quote, and what follows the quote. -/
def chars? (text : List Char) : Option (List Char × List Char) :=
  match text with
  | [] => none
  | c :: rest =>
    if c = '"' then some ([], rest)
    else if c = '\\' then
      match h : escaped? rest with
      | some (c, rest') =>
        have : rest'.length < rest.length := length_escaped_lt h
        (chars? rest').map fun (chars, rest) => (c :: chars, rest)
      | none => none
    -- control characters have to be escaped
    else if c.toNat < 0x20 then none
    else (chars? rest).map fun (chars, rest) => (c :: chars, rest)
termination_by text.length

/-- A string takes up its closing quote at least. -/
theorem length_chars_lt {text rest chars : List Char} (h : chars? text = some (chars, rest)) :
    rest.length < text.length := by
  -- each branch that goes on has passed an escape or one character before it does
  fun_induction chars? text generalizing chars rest with
  | case1 => cases h
  | case2 => cases h; simp
  | case3 _ _ c rest₁ hescaped hlt ih =>
    obtain ⟨⟨_, _⟩, hchars, heq⟩ := Option.map_eq_some_iff.mp h
    cases heq
    have := ih hchars
    simp only [List.length_cons]
    omega
  | case4 => cases h
  | case5 => cases h
  | case6 _ _ _ _ _ ih =>
    obtain ⟨⟨_, _⟩, hchars, heq⟩ := Option.map_eq_some_iff.mp h
    cases heq
    have := ih hchars
    simp only [List.length_cons]
    omega

/-! ### Numbers -/

/-- A natural number without needless zeros, and what follows it, which is no fraction and no
    exponent. -/
def natural? (text : List Char) : Option (Nat × List Char) :=
  let digits := text.takeWhile Char.isDigit
  let rest := text.dropWhile Char.isDigit
  if digits = [] ∨ digits.head? = some '0' ∧ digits ≠ ['0'] then none
  else if rest.head?.any ['.', 'e', 'E'].contains then none
  else some (Nat.ofDigitChars 10 digits 0, rest)

/-- An integer, and what follows it. -/
def integer? : List Char → Option (Int × List Char)
  | '-' :: rest => (natural? rest).map fun (n, rest) => (-n, rest)
  | text => (natural? text).map fun (n, rest) => (n, rest)

/-! ### Values -/

/-- A blank or a line break, which may stand around the parts of a text. -/
def isBlank (c : Char) : Bool := [' ', '\t', '\n', '\r'].contains c

/-- What follows the blanks. -/
def skipBlanks (text : List Char) : List Char := text.dropWhile isBlank

/-- A value that holds no others, and what follows it. -/
def scalar? : List Char → Option (Json × List Char)
  | 'n' :: 'u' :: 'l' :: 'l' :: rest => some (.null, rest)
  | '"' :: rest => (chars? rest).map fun (chars, rest) => (.string (String.ofList chars), rest)
  | text => (integer? text).map fun (n, rest) => (.int n, rest)

/-- The key of a member, and what follows its colon. -/
def key? (text : List Char) : Option (String × List Char) :=
  match skipBlanks text with
  | '"' :: rest => do
    let (chars, rest) ← chars? rest
    match skipBlanks rest with
    | ':' :: rest => some (String.ofList chars, rest)
    | _ => none
  | _ => none

/-- To skip blanks may take up nothing. -/
theorem length_skipBlanks_le (text : List Char) : (skipBlanks text).length ≤ text.length :=
  (List.dropWhile_sublist _).length_le

/-- A number without sign has a digit. -/
theorem length_natural_lt {text rest : List Char} {n : Nat} (h : natural? text = some (n, rest)) :
    rest.length < text.length := by
  unfold natural? at h
  dsimp only at h
  split at h
  · cases h
  next hdigits =>
    split at h
    · cases h
    · cases h
      -- what is passed are the digits, and there is at least one
      have hsplit := congrArg List.length (List.takeWhile_append_dropWhile (p := Char.isDigit)
        (l := text))
      have hpos := List.length_pos_of_ne_nil (not_or.mp hdigits).1
      rw [List.length_append] at hsplit
      omega

/-- So has a number with a sign. -/
theorem length_integer_lt {text rest : List Char} {n : Int} (h : integer? text = some (n, rest)) :
    rest.length < text.length := by
  unfold integer? at h
  split at h
  all_goals
    obtain ⟨⟨_, _⟩, hnatural, heq⟩ := Option.map_eq_some_iff.mp h
    cases heq
    have := length_natural_lt hnatural
    simp only [List.length_cons] at *
    omega

/-- Every value without parts takes up some of the text. -/
theorem length_scalar_lt {text rest : List Char} {v : Json} (h : scalar? text = some (v, rest)) :
    rest.length < text.length := by
  unfold scalar? at h
  split at h
  · cases h
    simp only [List.length_cons]
    omega
  · obtain ⟨⟨_, _⟩, hchars, heq⟩ := Option.map_eq_some_iff.mp h
    cases heq
    have := length_chars_lt hchars
    simp only [List.length_cons]
    omega
  · obtain ⟨⟨_, _⟩, hinteger, heq⟩ := Option.map_eq_some_iff.mp h
    cases heq
    exact length_integer_lt hinteger

/-- The name of a member takes up its quotes and the colon. -/
theorem length_key_lt {text rest : List Char} {key : String} (h : key? text = some (key, rest)) :
    rest.length < text.length := by
  unfold key? at h
  have hle := length_skipBlanks_le text
  split at h
  next rest₁ hquote =>
    obtain ⟨⟨chars, rest₂⟩, hchars, h⟩ := Option.bind_eq_some_iff.mp h
    have hlt := length_chars_lt hchars
    -- blanks may stand on both sides of the name, and take up nothing or more
    have hle' := length_skipBlanks_le rest₂
    dsimp only at h
    split at h
    next hcolon =>
      cases h
      simp only [hquote, hcolon, List.length_cons] at *
      omega
    · cases h
  · cases h

/-- To pass a character behind blanks takes up some of the text. -/
theorem length_lt_of_skipBlanks {text rest : List Char} {c : Char}
    (h : skipBlanks text = c :: rest) : rest.length < text.length := by
  have hle := length_skipBlanks_le text
  rw [h, List.length_cons] at hle
  exact hle

/-- An array or an object that is being read. -/
inductive Container
  | array (items : List Json)
  /-- The value of the key comes next. -/
  | object (members : List (String × Json)) (key : String)

mutual

/-- Reads on where a value of the innermost container starts. -/
def valueIn (nest : List Container) (text : List Char) : Option Json :=
  match h : skipBlanks text with
  | '[' :: rest =>
    have : rest.length < text.length := length_lt_of_skipBlanks h
    match h' : skipBlanks rest with
    | ']' :: rest' =>
      have : rest'.length < rest.length := length_lt_of_skipBlanks h'
      valueBehind nest (.array []) rest'
    | _ => valueIn (.array [] :: nest) rest
  | '{' :: rest =>
    have : rest.length < text.length := length_lt_of_skipBlanks h
    match h' : skipBlanks rest with
    | '}' :: rest' =>
      have : rest'.length < rest.length := length_lt_of_skipBlanks h'
      valueBehind nest (.object []) rest'
    | _ =>
      match h'' : key? rest with
      | some (key, rest') =>
        have : rest'.length < rest.length := length_key_lt h''
        valueIn (.object [] key :: nest) rest'
      | none => none
  | _ =>
    match h' : scalar? (skipBlanks text) with
    | some (v, rest) =>
      have : rest.length < text.length :=
        Nat.lt_of_lt_of_le (length_scalar_lt h') (length_skipBlanks_le text)
      valueBehind nest v rest
    | none => none
termination_by text.length

/-- Reads on behind a value of the innermost container. -/
def valueBehind (nest : List Container) (v : Json) (text : List Char) : Option Json :=
  match nest with
  | [] => if skipBlanks text = [] then some v else none
  | .array items :: outer =>
    match h : skipBlanks text with
    | ',' :: rest =>
      have : rest.length < text.length := length_lt_of_skipBlanks h
      valueIn (.array (items ++ [v]) :: outer) rest
    | ']' :: rest =>
      have : rest.length < text.length := length_lt_of_skipBlanks h
      valueBehind outer (.array (items ++ [v])) rest
    | _ => none
  | .object members key :: outer =>
    match h : skipBlanks text with
    | ',' :: rest =>
      match h' : key? rest with
      | some (next, rest') =>
        have : rest'.length < text.length :=
          Nat.lt_trans (length_key_lt h') (length_lt_of_skipBlanks h)
        valueIn (.object (members ++ [(key, v)]) next :: outer) rest'
      | none => none
    | '}' :: rest =>
      have : rest.length < text.length := length_lt_of_skipBlanks h
      valueBehind outer (.object (members ++ [(key, v)])) rest
    | _ => none
termination_by text.length

end

/-- The value that a text denotes, around which nothing but blanks may stand. -/
def ofText? (text : String) : Option Json := valueIn [] text.toList

/-! ### One step of the reader -/

section Steps

variable {nest : List Container} {v : Json} {text rest rest' : List Char} {key key' : String}
  {items : List Json} {members : List (String × Json)}

theorem skipBlanks_append {blanks : List Char} (hblanks : ∀ c ∈ blanks, isBlank c = true)
    (text : List Char) : skipBlanks (blanks ++ text) = skipBlanks text := by
  rw [skipBlanks, List.dropWhile_append_of_pos hblanks, skipBlanks]

theorem skipBlanks_cons {c : Char} (hc : isBlank c = false) :
    skipBlanks (c :: rest) = c :: rest := by
  rw [skipBlanks, List.dropWhile_cons_of_neg (by rw [hc]; decide)]

/-- An empty array is a value at once. -/
theorem valueIn_array_nil (h : skipBlanks text = '[' :: rest)
    (h' : skipBlanks rest = ']' :: rest') :
    valueIn nest text = valueBehind nest (.array []) rest' := by
  rw [valueIn]
  split
  · next h₁ =>
    cases h.symm.trans h₁
    split
    · next h₂ => cases h'.symm.trans h₂; rfl
    · next hne => exact absurd h' (hne _)
  · next h₁ => cases h.symm.trans h₁
  · next hne _ => exact absurd h (hne _)

/-- Any other array is entered, and its first item is read inside of it. -/
theorem valueIn_array (h : skipBlanks text = '[' :: rest)
    (h' : (skipBlanks rest).head? ≠ some ']') :
    valueIn nest text = valueIn (.array [] :: nest) rest := by
  rw [valueIn]
  split
  · next h₁ =>
    cases h.symm.trans h₁
    split
    · next h₂ => exact absurd (congrArg List.head? h₂) h'
    · rfl
  · next h₁ => cases h.symm.trans h₁
  · next hne _ => exact absurd h (hne _)

/-- An empty object is a value at once. -/
theorem valueIn_object_nil (h : skipBlanks text = '{' :: rest)
    (h' : skipBlanks rest = '}' :: rest') :
    valueIn nest text = valueBehind nest (.object []) rest' := by
  rw [valueIn]
  split
  · next h₁ => cases h.symm.trans h₁
  · next h₁ =>
    cases h.symm.trans h₁
    split
    · next h₂ => cases h'.symm.trans h₂; rfl
    · next hne => exact absurd h' (hne _)
  · next hne => exact absurd h (hne _)

/-- Any other object is entered with the name of its first member. -/
theorem valueIn_object (h : skipBlanks text = '{' :: rest) (hkey : key? rest = some (key, rest')) :
    valueIn nest text = valueIn (.object [] key :: nest) rest' := by
  -- the branches for an array, an object without members and a missing name are excluded
  rw [valueIn]
  split
  · next h₁ => cases h.symm.trans h₁
  · next h₁ =>
    cases h.symm.trans h₁
    split
    · next h₂ =>
      rw [key?, h₂] at hkey
      cases hkey
    · split
      · next h₂ => cases hkey.symm.trans h₂; rfl
      · next h₂ => cases hkey.symm.trans h₂
  · next hne => exact absurd h (hne _)

/-- A value without parts is read where it stands. -/
theorem valueIn_scalar (h : scalar? (skipBlanks text) = some (v, rest)) :
    valueIn nest text = valueBehind nest v rest := by
  have hnone {c : Char} {text : List Char} (hc : c = '[' ∨ c = '{') :
      scalar? (c :: text) = none := by
    obtain rfl | rfl := hc <;> rfl
  rw [valueIn]
  split
  · next h₁ => rw [h₁, hnone (.inl rfl)] at h; cases h
  · next h₁ => rw [h₁, hnone (.inr rfl)] at h; cases h
  · split
    · next h₂ => cases h.symm.trans h₂; rfl
    · next h₂ => cases h.symm.trans h₂

/-- A value with nothing around or behind it is the value of the text. -/
theorem valueBehind_end : valueBehind [] v [] = some v := by
  rw [valueBehind]
  rfl

/-- A comma behind an item leads to the next one. -/
theorem valueBehind_array_next (h : skipBlanks text = ',' :: rest) :
    valueBehind (.array items :: nest) v text = valueIn (.array (items ++ [v]) :: nest) rest := by
  rw [valueBehind]
  split
  · next h₁ => cases h.symm.trans h₁; rfl
  · next h₁ => cases h.symm.trans h₁
  · next hne _ => exact absurd h (hne _)

/-- A bracket behind an item ends the array, which is then a value of what is around it. -/
theorem valueBehind_array_end (h : skipBlanks text = ']' :: rest) :
    valueBehind (.array items :: nest) v text =
      valueBehind nest (.array (items ++ [v])) rest := by
  rw [valueBehind]
  split
  · next h₁ => cases h.symm.trans h₁
  · next h₁ => cases h.symm.trans h₁; rfl
  · next hne => exact absurd h (hne _)

/-- A comma behind a member leads to the name of the next one. -/
theorem valueBehind_object_next (h : skipBlanks text = ',' :: rest)
    (hkey : key? rest = some (key', rest')) :
    valueBehind (.object members key :: nest) v text =
      valueIn (.object (members ++ [(key, v)]) key' :: nest) rest' := by
  rw [valueBehind]
  split
  · next h₁ =>
    cases h.symm.trans h₁
    split
    · next h₂ => cases hkey.symm.trans h₂; rfl
    · next h₂ => cases hkey.symm.trans h₂
  · next h₁ => cases h.symm.trans h₁
  · next hne _ => exact absurd h (hne _)

/-- A brace behind a member ends the object. -/
theorem valueBehind_object_end (h : skipBlanks text = '}' :: rest) :
    valueBehind (.object members key :: nest) v text =
      valueBehind nest (.object (members ++ [(key, v)])) rest := by
  rw [valueBehind]
  split
  · next h₁ => cases h.symm.trans h₁
  · next h₁ => cases h.symm.trans h₁; rfl
  · next hne => exact absurd h (hne _)

end Steps

/-! ### Strings read back -/

section Strings

variable {c : Char} {rest rest' : List Char}

/-- A string ends at the first quote that is not escaped. -/
theorem chars_quote : chars? ('"' :: rest) = some ([], rest) := by
  rw [chars?]
  rfl

/-- A backslash stands for a character together with what follows it. -/
theorem chars_escaped (h : escaped? rest = some (c, rest')) :
    chars? ('\\' :: rest) = (chars? rest').map fun (chars, rest) => (c :: chars, rest) := by
  rw [chars?, if_neg (by decide), if_pos rfl]
  split
  · next h₁ => cases h.symm.trans h₁; rfl
  · next h₁ => cases h.symm.trans h₁

/-- Any other character but a control character stands for itself. -/
theorem chars_plain (hquote : c ≠ '"') (hbackslash : c ≠ '\\') (hplain : 0x20 ≤ c.toNat) :
    chars? (c :: rest) = (chars? rest).map fun (chars, rest) => (c :: chars, rest) := by
  rw [chars?, if_neg hquote, if_neg hbackslash, if_neg (Nat.not_lt.mpr hplain)]

/-- Some characters have a letter of their own behind the backslash. -/
theorem escaped_short (letter : Char) (hu : letter ≠ 'u')
    (h : shortEscapes.lookup letter = some c) :
    escaped? (letter :: rest) = some (c, rest) := by
  rw [escaped?, if_neg hu, h]
  rfl

theorem hexDigit_digitChar : ∀ n < 16, hexDigit? (Nat.digitChar n) = some n := by decide

/-- The number of a control character, as it is escaped. -/
theorem codeUnit_control {n : Nat} (hn : n < 0x20) :
    codeUnit? ('0' :: '0' :: Nat.digitChar (n / 16) :: Nat.digitChar (n % 16) :: rest) =
      some (n, rest) := by
  have hzero : hexDigit? '0' = some 0 := rfl
  have hhigh := hexDigit_digitChar (n / 16) (by omega)
  have hlow := hexDigit_digitChar (n % 16) (by omega)
  have hsum : 0x1000 * 0 + 0x100 * 0 + 0x10 * (n / 16) + n % 16 = n := by omega
  simp only [codeUnit?, hzero, hhigh, hlow, Option.bind_eq_bind, Option.bind_some, Option.pure_def,
    hsum]

/-- The control characters without such a letter are written as four digits, the first two of which
    are zero. -/
theorem escaped_control (hc : c.toNat < 0x20) :
    escaped? ('u' :: '0' :: '0' :: Nat.digitChar (c.toNat / 16) :: Nat.digitChar (c.toNat % 16) ::
      rest) = some (c, rest) := by
  rw [escaped?, if_pos rfl, codePoint?, codeUnit_control hc]
  dsimp only
  rw [if_neg (by omega), if_neg (by omega), Char.ofNat_toNat]

/-- A character is read back from the way it is written. -/
theorem chars_escape (c : Char) (rest : List Char) :
    chars? (escape c ++ rest) = (chars? rest).map fun (chars, rest) => (c :: chars, rest) := by
  -- six characters have a letter of their own, and those below the blank are written as numbers
  have hshort (letter : Char) (hu : letter ≠ 'u') (h : shortEscapes.lookup letter = some c) :
      chars? (['\\', letter] ++ rest) =
        (chars? rest).map fun (chars, rest) => (c :: chars, rest) :=
    chars_escaped (escaped_short letter hu h)
  unfold escape
  split
  next h => exact hshort c (by rintro rfl; simp at h) (by obtain rfl | rfl := h <;> rfl)
  next hplain =>
  split
  next h => exact hshort 'n' (by decide) (by rw [h]; rfl)
  split
  next h => exact hshort 'r' (by decide) (by rw [h]; rfl)
  split
  next h => exact hshort 't' (by decide) (by rw [h]; rfl)
  split
  next h => exact hshort 'b' (by decide) (by rw [h]; rfl)
  split
  next h => exact hshort 'f' (by decide) (by rw [h]; rfl)
  split
  next hcontrol => exact chars_escaped (escaped_control hcontrol)
  next hcontrol =>
    obtain ⟨hquote, hbackslash⟩ := not_or.mp hplain
    exact chars_plain hquote hbackslash (Nat.not_lt.mp hcontrol)

/-- So is a string. -/
theorem chars_flatMap_escape (chars rest : List Char) :
    chars? (chars.flatMap escape ++ '"' :: rest) = some (chars, rest) := by
  induction chars with
  | nil => exact chars_quote
  | cons c chars ih =>
    rw [List.flatMap_cons, List.append_assoc, chars_escape, ih]
    rfl

/-- A quoted text is its characters, each of them escaped, between two quotes. -/
theorem toList_quote (text : String) :
    (quote text).toList = '"' :: (text.toList.flatMap escape ++ ['"']) := by
  simp [quote]

/-- A quoted text is read back, whatever stands behind it. -/
theorem scalar_quote (text : String) (rest : List Char) :
    scalar? ((quote text).toList ++ rest) = some (.string text, rest) := by
  rw [toList_quote, List.cons_append, List.append_assoc]
  show (chars? _).map _ = _
  rw [List.singleton_append, chars_flatMap_escape, Option.map_some]
  dsimp only
  rw [String.ofList_toList]

/-- So is one with a colon behind it, as the name of a member. -/
theorem key_quote {blanks : List Char} (hblanks : ∀ c ∈ blanks, isBlank c = true) (text : String)
    (rest : List Char) :
    key? (blanks ++ ((quote text).toList ++ ':' :: rest)) = some (text, rest) := by
  rw [key?, skipBlanks_append hblanks, toList_quote, List.cons_append, skipBlanks_cons (by decide),
    List.append_assoc, List.singleton_append]
  show (chars? _).bind _ = _
  rw [chars_flatMap_escape, Option.bind_some]
  dsimp only
  rw [skipBlanks_cons (by decide)]
  show some (String.ofList text.toList, rest) = _
  rw [String.ofList_toList]

end Strings

/-! ### Numbers read back -/

/-- A number is over where these characters start. -/
def EndsNumber (rest : List Char) : Prop :=
  ∀ c ∈ rest.head?, c.isDigit = false ∧ ['.', 'e', 'E'].contains c = false

/-- A number is written without needless zeros. -/
theorem head_digits_ne {n : Nat} (hn : n ≠ 0) : (Nat.toDigits 10 n).head? ≠ some '0' := by
  induction n using Nat.strongRecOn with
  | ind n ih =>
    by_cases hsmall : n < 10
    · have hdigit : ∀ k < 10, k ≠ 0 → some (Nat.digitChar k) ≠ some '0' := by decide
      rw [Nat.toDigits_of_lt_base hsmall]
      exact hdigit n hsmall hn
    · have hhead := ih (n / 10) (by omega) (by omega)
      rw [Nat.toDigits_of_base_le (by decide) (by omega),
        List.head?_append_of_ne_nil _ Nat.toDigits_ne_nil]
      exact hhead

/-- The digits of a number are read back if no further digit follows them. -/
theorem natural_digits {rest : List Char} (hrest : EndsNumber rest) (n : Nat) :
    natural? (Nat.toDigits 10 n ++ rest) = some (n, rest) := by
  have htake : (Nat.toDigits 10 n ++ rest).takeWhile Char.isDigit = Nat.toDigits 10 n :=
    takeWhile_append_eq isDigit_of_mem_digits fun c hc => (hrest c hc).1
  have hdrop : (Nat.toDigits 10 n ++ rest).dropWhile Char.isDigit = rest := by
    have hsplit := List.takeWhile_append_dropWhile (p := Char.isDigit)
      (l := Nat.toDigits 10 n ++ rest)
    rw [htake] at hsplit
    exact List.append_cancel_left hsplit
  -- a numeral that is written has no zero in front, but for that of zero itself
  have hzeros : ¬ (Nat.toDigits 10 n = [] ∨
      (Nat.toDigits 10 n).head? = some '0' ∧ Nat.toDigits 10 n ≠ ['0']) := by
    rintro (hnil | ⟨hhead, hne⟩)
    · exact Nat.toDigits_ne_nil hnil
    · by_cases hn : n = 0
      · exact hne (by rw [hn]; rfl)
      · exact head_digits_ne hn hhead
  have hfollow : ¬ rest.head?.any ['.', 'e', 'E'].contains = true := by
    rw [Option.any_eq_true]
    rintro ⟨c, hc, hcontains⟩
    exact absurd hcontains (by rw [(hrest c hc).2]; decide)
  unfold natural?
  dsimp only
  rw [htake, hdrop, if_neg hzeros, if_neg hfollow, Nat.ofDigitChars_ten_toDigits]

/-- A number with its sign is read back if nothing follows that could belong to it. -/
theorem integer_toString {rest : List Char} (hrest : EndsNumber rest) (n : Int) :
    integer? ((toString n).toList ++ rest) = some (n, rest) := by
  cases n with
  | ofNat n =>
    rw [toList_toString_ofNat]
    obtain ⟨d, ds, hdigits⟩ := List.exists_cons_of_ne_nil (Nat.toDigits_ne_nil (b := 10) (n := n))
    -- a digit is no sign, so the reader takes the branch without one
    have hne : d ≠ '-' := by
      rintro rfl
      exact absurd (isDigit_of_mem_digits '-' (hdigits ▸ List.mem_cons_self)) (by decide)
    unfold integer?
    split
    · next h =>
      rw [hdigits] at h
      exact absurd (List.cons.inj h).1 hne
    · rw [natural_digits hrest]
      rfl
  | negSucc n =>
    rw [toList_toString_negSucc, List.cons_append]
    show (natural? _).map _ = _
    rw [natural_digits hrest]
    rfl

/-- The first character of an integer. -/
theorem exists_cons_toString (n : Int) :
    ∃ c cs, (toString n).toList = c :: cs ∧ isNumeralChar c = true := by
  rcases hchars : (toString n).toList with _ | ⟨c, cs⟩
  · cases n with
    | ofNat n =>
      rw [toList_toString_ofNat] at hchars
      exact absurd hchars Nat.toDigits_ne_nil
    | negSucc n =>
      rw [toList_toString_negSucc] at hchars
      cases hchars
  · exact ⟨c, cs, rfl, isNumeralChar_of_mem n c (hchars ▸ List.mem_cons_self)⟩

/-- An integer is read back where nothing follows that a number could go on with. -/
theorem scalar_toString {rest : List Char} (hrest : EndsNumber rest) (n : Int) :
    scalar? ((toString n).toList ++ rest) = some (.int n, rest) := by
  obtain ⟨c, cs, hchars, hc⟩ := exists_cons_toString n
  have hinteger := integer_toString hrest n
  rw [hchars] at hinteger ⊢
  unfold scalar?
  split
  · next h => obtain rfl := (List.cons.inj h).1; exact absurd hc (by decide)
  · next h => obtain rfl := (List.cons.inj h).1; exact absurd hc (by decide)
  · rw [hinteger]
    rfl

/-! ### Layouts -/

/-- The value of a member is smaller than the object, as the induction over values needs it. -/
theorem sizeOf_member_lt {member : String × Json} {members : List (String × Json)}
    (h : member ∈ members) : sizeOf member.2 < sizeOf members := by
  have hlt := List.sizeOf_lt_of_mem h
  have heq : sizeOf member = 1 + sizeOf member.1 + sizeOf member.2 := rfl
  omega

/-- What is shown of values is shown of arrays and objects from their members. -/
theorem inductionOn {motive : Json → Prop} (v : Json) (null : motive .null)
    (int : ∀ n, motive (.int n)) (string : ∀ text, motive (.string text))
    (array : ∀ items : List Json, (∀ item ∈ items, motive item) → motive (.array items))
    (object : ∀ members : List (String × Json), (∀ member ∈ members, motive member.2) →
      motive (.object members)) : motive v :=
  match v with
  | .null => null
  | .int n => int n
  | .string text => string text
  | .array items => array items fun item _ => inductionOn item null int string array object
  | .object members =>
    object members fun member h =>
      have : sizeOf member.2 < 1 + sizeOf members := Nat.lt_add_left 1 (sizeOf_member_lt h)
      inductionOn member.2 null int string array object

/-- Items are written one by one, all at the same level. -/
theorem renderItems_eq_map (layout : Layout) (level : Nat) (items : List Json) :
    renderItems layout level items = items.map (render layout level) := by
  induction items with
  | nil => rfl
  | cons item items ih => rw [renderItems, ih, List.map_cons]

/-- The text of a member of an object. -/
def renderMember (layout : Layout) (level : Nat) (member : String × Json) : String :=
  quote member.1 ++ ": " ++ render layout level member.2

/-- Members are written one by one, too. -/
theorem renderMembers_eq_map (layout : Layout) (level : Nat) (members : List (String × Json)) :
    renderMembers layout level members = members.map (renderMember layout level) := by
  induction members with
  | nil => rfl
  | cons member members ih => rw [renderMembers, ih, List.map_cons, renderMember]

theorem isBlank_of_mem_singleton : ∀ c ∈ [' '], isBlank c = true :=
  List.forall_mem_singleton.mpr rfl

/-- A reader skips the line break and the indentation in front of an item, if there are any. -/
theorem isBlank_of_mem_lineBreak (layout : Layout) (level : Nat) :
    ∀ c ∈ (layout.lineBreak level).toList, isBlank c = true := by
  cases layout with
  | inline => simp [Layout.lineBreak]
  | indented width =>
    intro c hc
    have hc : c = '\n' ∨ c ∈ List.replicate (width * level) ' ' := by
      simpa [Layout.lineBreak] using hc
    obtain rfl | hc := hc
    · rfl
    · rw [List.eq_of_mem_replicate hc]
      rfl

/-- A separator is a comma and blanks. -/
theorem exists_toList_separator (layout : Layout) (level : Nat) :
    ∃ gap, (layout.separator level).toList = ',' :: gap ∧ ∀ c ∈ gap, isBlank c = true := by
  cases layout with
  | inline => exact ⟨[' '], by simp [Layout.separator], isBlank_of_mem_singleton⟩
  | indented width =>
    refine ⟨_, ?_, isBlank_of_mem_lineBreak (.indented width) level⟩
    rw [Layout.separator, String.toList_append]
    rfl

/-- Items between brackets are the first one behind the opening line break, the others behind
    separators, and the closing line break. -/
theorem toList_enclose_cons (layout : Layout) (level : Nat) (opening closing item : String)
    (items : List String) :
    (layout.enclose level opening closing (item :: items)).toList =
      opening.toList ++ ((layout.lineBreak (level + 1)).toList ++ (item.toList ++
        (items.flatMap (fun item => (layout.separator (level + 1)).toList ++ item.toList) ++
          ((layout.lineBreak level).toList ++ closing.toList)))) := by
  rw [Layout.enclose]
  · simp only [String.toList_append, String.toList_intercalate, List.map_cons,
      intercalate_cons_eq_flatMap, List.flatMap_map, List.append_assoc]
  · exact List.cons_ne_nil _ _

theorem toList_renderMember (layout : Layout) (level : Nat) (key : String) (v : Json) :
    (renderMember layout level (key, v)).toList =
      (quote key).toList ++ ':' :: ([' '] ++ (render layout level v).toList) := by
  simp [renderMember]

/-- Blanks are in no number, and a number ends at one. -/
theorem blank_facts {c : Char} (h : isBlank c = true) :
    isNumeralChar c = false ∧ c.isDigit = false ∧ ['.', 'e', 'E'].contains c = false := by
  have hmem : c ∈ [' ', '\t', '\n', '\r'] := List.contains_iff_mem.mp h
  simp only [List.mem_cons, List.not_mem_nil, or_false] at hmem
  obtain rfl | rfl | rfl | rfl := hmem <;> decide

/-- No number goes on behind blanks, if it does not go on behind what follows them. -/
theorem endsNumber_of_blanks {blanks rest : List Char} (hblanks : ∀ c ∈ blanks, isBlank c = true)
    (hrest : EndsNumber rest) : EndsNumber (blanks ++ rest) := by
  cases blanks with
  | nil => exact hrest
  | cons c blanks =>
    rintro _ ⟨⟩
    exact (blank_facts (hblanks c List.mem_cons_self)).2

/-- What a value starts with; it is neither a blank nor the end of an array. -/
theorem exists_cons_render (layout : Layout) (level : Nat) (v : Json) :
    ∃ c cs, (render layout level v).toList = c :: cs ∧ isBlank c = false ∧ c ≠ ']' := by
  -- an array or an object starts with its bracket, whether it has members or not
  have henclose (opening closing : String) (c : Char) (hc : opening.toList = [c])
      (items : List String) :
      ∃ cs, (layout.enclose level opening closing items).toList = c :: cs := by
    cases items with
    | nil => exact ⟨closing.toList, by rw [Layout.enclose, String.toList_append, hc]; rfl⟩
    | cons item items => exact ⟨_, by rw [toList_enclose_cons, hc]; rfl⟩
  cases v with
  | null => exact ⟨'n', ['u', 'l', 'l'], by simp [render], by decide⟩
  | int n =>
    obtain ⟨c, cs, hchars, hc⟩ := exists_cons_toString n
    refine ⟨c, cs, hchars, ?_, by rintro rfl; exact absurd hc (by decide)⟩
    -- a numeral holds no blanks
    by_contra hblank
    rw [(blank_facts (Bool.not_eq_false _ ▸ hblank)).1] at hc
    cases hc
  | string text => exact ⟨'"', _, toList_quote text, by decide⟩
  | array items =>
    obtain ⟨cs, hchars⟩ := henclose "[" "]" '[' rfl (renderItems layout (level + 1) items)
    exact ⟨'[', cs, hchars, by decide⟩
  | object members =>
    obtain ⟨cs, hchars⟩ :=
      henclose "\x7b" "\x7d" '{' rfl (renderMembers layout (level + 1) members)
    exact ⟨'{', cs, hchars, by decide⟩

/-! ### Values read back -/

/-- The text of `v` is read as `v`, wherever it stands. -/
def ReadsBack (layout : Layout) (v : Json) : Prop :=
  ∀ (level : Nat) (nest : List Container) (blanks rest : List Char),
    (∀ c ∈ blanks, isBlank c = true) → EndsNumber rest →
      valueIn nest (blanks ++ ((render layout level v).toList ++ rest)) = valueBehind nest v rest

section Values

variable {layout : Layout} {nest : List Container} {blanks rest : List Char}

/-- Nor does one go on in front of a separator. -/
theorem endsNumber_separator (layout : Layout) (level : Nat) (rest : List Char) :
    EndsNumber ((layout.separator level).toList ++ rest) := by
  obtain ⟨gap, hgap, -⟩ := exists_toList_separator layout level
  rw [hgap]
  rintro _ ⟨⟩
  decide

/-- Nothing that stands in a list behind one of its members goes on a number. -/
theorem endsNumber_flatMap {α : Type} (layout : Layout) (level : Nat) (f : α → List Char)
    (parts : List α) (hrest : EndsNumber rest) :
    EndsNumber (parts.flatMap (fun part => (layout.separator level).toList ++ f part) ++ rest) := by
  cases parts with
  | nil => exact hrest
  | cons part parts =>
    rw [List.flatMap_cons, List.append_assoc, List.append_assoc]
    exact endsNumber_separator layout level _

/-- The other items of an array. -/
theorem valueBehind_items (level : Nat) (before : List Json) (v : Json) (items : List Json)
    (hitems : ∀ item ∈ items, ReadsBack layout item) (hblanks : ∀ c ∈ blanks, isBlank c = true) :
    valueBehind (.array before :: nest) v
        (items.flatMap (fun item => (layout.separator level).toList ++
          (render layout level item).toList) ++ (blanks ++ ']' :: rest)) =
      valueBehind nest (.array (before ++ v :: items)) rest := by
  have hclosing : EndsNumber (blanks ++ ']' :: rest) :=
    endsNumber_of_blanks hblanks (by rintro _ ⟨⟩; decide)
  induction items generalizing before v with
  | nil =>
    have hblank : skipBlanks (blanks ++ ']' :: rest) = ']' :: rest := by
      rw [skipBlanks_append hblanks, skipBlanks_cons (by decide)]
    exact valueBehind_array_end hblank
  | cons item items ih =>
    obtain ⟨gap, hgap, hgapBlank⟩ := exists_toList_separator layout level
    obtain ⟨hitem, hitems⟩ := List.forall_mem_cons.mp hitems
    -- the comma, the item behind its blanks, and then the others, with one item more read
    rw [List.flatMap_cons, List.append_assoc, List.append_assoc, hgap, List.cons_append,
      valueBehind_array_next (skipBlanks_cons (by decide)), ← hgap,
      hitem level _ gap _ hgapBlank (endsNumber_flatMap layout level _ items hclosing),
      ih (before ++ [v]) item hitems, List.append_assoc, List.singleton_append]

/-- The other members of an object. -/
theorem valueBehind_members (level : Nat) (before : List (String × Json)) (key : String) (v : Json)
    (members : List (String × Json)) (hmembers : ∀ member ∈ members, ReadsBack layout member.2)
    (hblanks : ∀ c ∈ blanks, isBlank c = true) :
    valueBehind (.object before key :: nest) v
        (members.flatMap (fun member => (layout.separator level).toList ++
          (renderMember layout level member).toList) ++ (blanks ++ '}' :: rest)) =
      valueBehind nest (.object (before ++ (key, v) :: members)) rest := by
  have hclosing : EndsNumber (blanks ++ '}' :: rest) :=
    endsNumber_of_blanks hblanks (by rintro _ ⟨⟩; decide)
  induction members generalizing before key v with
  | nil =>
    have hblank : skipBlanks (blanks ++ '}' :: rest) = '}' :: rest := by
      rw [skipBlanks_append hblanks, skipBlanks_cons (by decide)]
    exact valueBehind_object_end hblank
  | cons member members ih =>
    obtain ⟨key', v'⟩ := member
    obtain ⟨gap, hgap, hgapBlank⟩ := exists_toList_separator layout level
    obtain ⟨hmember, hmembers⟩ := List.forall_mem_cons.mp hmembers
    -- the comma, the key, the value behind a blank, and then the other members
    rw [List.flatMap_cons, List.append_assoc, List.append_assoc, hgap, List.cons_append,
      toList_renderMember, List.append_assoc, List.cons_append, List.append_assoc,
      valueBehind_object_next (skipBlanks_cons (by decide)) (key_quote hgapBlank key' _), ← hgap,
      hmember level _ [' '] _ isBlank_of_mem_singleton
        (endsNumber_flatMap layout level _ members hclosing),
      ih (before ++ [(key, v)]) key' v' hmembers, List.append_assoc, List.singleton_append]

/-- A value is read back if it is where no blanks stand in front of it. -/
theorem readsBack_of_scalar {v : Json} (h : ∀ level rest, EndsNumber rest →
    scalar? ((render layout level v).toList ++ rest) = some (v, rest)) : ReadsBack layout v := by
  intro level nest blanks rest hblanks hrest
  obtain ⟨c, cs, hchars, hc, -⟩ := exists_cons_render layout level v
  apply valueIn_scalar
  rw [skipBlanks_append hblanks, hchars, List.cons_append, skipBlanks_cons hc, ← List.cons_append,
    ← hchars]
  exact h level rest hrest

theorem skipBlanks_opening (hblanks : ∀ c ∈ blanks, isBlank c = true) {c : Char}
    (hc : isBlank c = false) (text : List Char) : skipBlanks (blanks ++ c :: text) = c :: text := by
  rw [skipBlanks_append hblanks, skipBlanks_cons hc]

/-- An array is read back if its items are. -/
theorem readsBack_array {items : List Json} (hitems : ∀ item ∈ items, ReadsBack layout item) :
    ReadsBack layout (.array items) := by
  intro level nest blanks rest hblanks hrest
  -- an array without items is a case of its own, since no line break stands in it
  cases items with
  | nil =>
    have hchars : (render layout level (.array [])).toList = ['[', ']'] := by
      rw [render, renderItems, Layout.enclose, String.toList_append]
      rfl
    rw [hchars]
    exact valueIn_array_nil (skipBlanks_opening hblanks (by decide) _) (skipBlanks_cons (by decide))
  | cons item items =>
    obtain ⟨hitem, hitems⟩ := List.forall_mem_cons.mp hitems
    have hbreak := isBlank_of_mem_lineBreak layout
    -- what follows the first item, and what follows the bracket
    let others : List Char :=
      items.flatMap (fun item => (layout.separator (level + 1)).toList ++
        (render layout (level + 1) item).toList) ++
        ((layout.lineBreak level).toList ++ ']' :: rest)
    let inner : List Char :=
      (layout.lineBreak (level + 1)).toList ++ ((render layout (level + 1) item).toList ++ others)
    have hchars : (render layout level (.array (item :: items))).toList ++ rest = '[' :: inner := by
      rw [render, renderItems_eq_map, List.map_cons, toList_enclose_cons, List.flatMap_map]
      simp only [List.append_assoc]
      rfl
    have hothers : EndsNumber others :=
      endsNumber_flatMap layout (level + 1) _ items
        (endsNumber_of_blanks (hbreak level) (by rintro _ ⟨⟩; decide))
    -- an item does not start like the end of the array, so the reader looks for one
    have hinner : (skipBlanks inner).head? ≠ some ']' := by
      obtain ⟨c, cs, hitemChars, hc, hne⟩ := exists_cons_render layout (level + 1) item
      show (skipBlanks (_ ++ ((render layout (level + 1) item).toList ++ others))).head? ≠ _
      rw [hitemChars, List.cons_append, skipBlanks_opening (hbreak (level + 1)) hc]
      exact fun heq => hne (Option.some.inj heq)
    calc valueIn nest (blanks ++ ((render layout level (.array (item :: items))).toList ++ rest))
      _ = valueIn (.array [] :: nest) inner := by
        rw [hchars, valueIn_array (skipBlanks_opening hblanks (by decide) inner) hinner]
      _ = valueBehind (.array [] :: nest) item others :=
        hitem (level + 1) _ _ others (hbreak (level + 1)) hothers
      _ = valueBehind nest (.array (item :: items)) rest :=
        valueBehind_items (level + 1) [] item items hitems (hbreak level)

/-- An object is read back if the values of its members are, each behind its name. -/
theorem readsBack_object {members : List (String × Json)}
    (hmembers : ∀ member ∈ members, ReadsBack layout member.2) :
    ReadsBack layout (.object members) := by
  intro level nest blanks rest hblanks hrest
  -- as for arrays, an object without members is written without line breaks
  cases members with
  | nil =>
    have hchars : (render layout level (.object [])).toList = ['{', '}'] := by
      rw [render, renderMembers, Layout.enclose, String.toList_append]
      rfl
    rw [hchars]
    exact valueIn_object_nil (skipBlanks_opening hblanks (by decide) _)
      (skipBlanks_cons (by decide))
  | cons member members =>
    obtain ⟨key, v⟩ := member
    obtain ⟨hmember, hmembers⟩ := List.forall_mem_cons.mp hmembers
    have hbreak := isBlank_of_mem_lineBreak layout
    -- what follows the first value, and what follows the brace
    let others : List Char :=
      members.flatMap (fun member => (layout.separator (level + 1)).toList ++
        (renderMember layout (level + 1) member).toList) ++
        ((layout.lineBreak level).toList ++ '}' :: rest)
    let inner : List Char :=
      (layout.lineBreak (level + 1)).toList ++ ((quote key).toList ++
        ':' :: ([' '] ++ ((render layout (level + 1) v).toList ++ others)))
    have hchars :
        (render layout level (.object ((key, v) :: members))).toList ++ rest = '{' :: inner := by
      rw [render, renderMembers_eq_map, List.map_cons, toList_enclose_cons, List.flatMap_map,
        toList_renderMember]
      simp only [List.append_assoc, List.cons_append]
      rfl
    have hothers : EndsNumber others :=
      endsNumber_flatMap layout (level + 1) _ members
        (endsNumber_of_blanks (hbreak level) (by rintro _ ⟨⟩; decide))
    calc valueIn nest
          (blanks ++ ((render layout level (.object ((key, v) :: members))).toList ++ rest))
      _ = valueIn (.object [] key :: nest)
            ([' '] ++ ((render layout (level + 1) v).toList ++ others)) := by
        rw [hchars, valueIn_object (skipBlanks_opening hblanks (by decide) inner)
          (key_quote (hbreak (level + 1)) key _)]
      _ = valueBehind (.object [] key :: nest) v others :=
        hmember (level + 1) _ _ others isBlank_of_mem_singleton hothers
      _ = valueBehind nest (.object ((key, v) :: members)) rest :=
        valueBehind_members (level + 1) [] key v members hmembers (hbreak level)

/-- **The text of a value is read as that value, wherever it stands.** -/
theorem valueIn_render (layout : Layout) (v : Json) : ReadsBack layout v := by
  induction v using inductionOn with
  | null =>
    refine readsBack_of_scalar fun level rest _ => ?_
    have hchars : (render layout level .null).toList = ['n', 'u', 'l', 'l'] := by simp [render]
    rw [hchars]
    rfl
  | int n => exact readsBack_of_scalar fun level rest hrest => scalar_toString hrest n
  | string text => exact readsBack_of_scalar fun level rest _ => scalar_quote text rest
  | array items hitems => exact readsBack_array hitems
  | object members hmembers => exact readsBack_object hmembers

end Values

/-- **The text of a value denotes that value, however it is laid out.** -/
theorem ofText_text (layout : Layout) (v : Json) : ofText? (v.text layout) = some v := by
  have hread := valueIn_render layout v 0 [] [] [] (List.forall_mem_nil _) (by rintro _ ⟨⟩)
  rw [List.nil_append, List.append_nil] at hread
  exact hread.trans valueBehind_end

end ScopedQuery.Json
