import Mathlib.Algebra.Group.Nat.Defs
import ScopedQuery.Query.Node

namespace ScopedQuery

open Text

/-!
# Quoted strings show where they end

A quoted string ends at the first mark that is not escaped, and what stands in front of it tells
the characters of the string one by one.  Which characters are printable does not matter.

* `EndsItself` — a text shows where it ends.
* `escapeBy`, `quoteBy` — quoting for any table of printable characters.
* `IsEscape` — how a character is written between marks; `IsEscape.unique` reads it back.
* `endsItself_quoteBy` — quoted strings show where they end.
-/

/-! ### Texts that show where they end -/

/-- The text of `a` shows where it ends: no text that goes on like it belongs to a value of which
    `key` keeps something else. -/
def EndsItself {α β : Type} (text : α → String) (key : α → β) (a : α) : Prop :=
  ∀ b x y, (text a).toList ++ x = (text b).toList ++ y → key a = key b ∧ x = y

/-- What follows the same text shows where it ends as well. -/
theorem EndsItself.behind {α β : Type} {text : α → String} {key : α → β} {a b : α}
    {u x y : List Char} (h : EndsItself text key a)
    (hsame : u ++ ((text a).toList ++ x) = u ++ ((text b).toList ++ y)) : key a = key b ∧ x = y :=
  h b x y (List.append_cancel_left hsame)

/-! ### Quoted strings -/

/-- How `c` is written between two quote marks if `printable` tells which characters have a visible
    form. -/
def escapeBy (printable : Char → Bool) (mark c : Char) : List Char :=
  if c = mark ∨ c = '\\' then ['\\', c]
  else if c = '\n' then ['\\', 'n']
  else if c = '\r' then ['\\', 'r']
  else if c = '\t' then ['\\', 't']
  else if printable c then [c]
  else if c.toNat < 0x100 then '\\' :: 'x' :: hexDigits 2 c.toNat
  else if c.toNat < 0x10000 then '\\' :: 'u' :: hexDigits 4 c.toNat
  else '\\' :: 'U' :: hexDigits 8 c.toNat

/-- `text` between quote marks if `printable` tells which characters have a visible form. -/
def quoteBy (printable : Char → Bool) (text : String) : String :=
  let mark := quoteMark text.toList
  String.ofList (mark :: text.toList.flatMap (escapeBy printable mark) ++ [mark])

/-- With the table that is in use, this is the quoting that is in use. -/
theorem quoteBy_isPrintable : quoteBy isPrintable = quote := rfl

/-- A number below a power of sixteen is known by so many of its digits. -/
theorem hexDigits_inj {width m n : Nat} (hm : m < 16 ^ width) (hn : n < 16 ^ width)
    (h : hexDigits width m = hexDigits width n) : m = n := by
  induction width generalizing m n with
  | zero => omega
  | succ width ih =>
    rw [hexDigits, hexDigits] at h
    obtain ⟨hinit, hlast⟩ := List.append_inj' h rfl
    -- the last digits are those of the remainders, and the others those of the quotients
    have hdigit : ∀ a < 16, ∀ b < 16, Nat.digitChar a = Nat.digitChar b → a = b := by decide
    have hmod : m % 16 = n % 16 :=
      hdigit _ (Nat.mod_lt _ (by decide)) _ (Nat.mod_lt _ (by decide)) (List.singleton_inj.mp hlast)
    have hdiv : m / 16 = n / 16 := by
      rw [Nat.pow_succ] at hm hn
      exact ih (by omega) (by omega) hinit
    omega

/-- The number of digits behind a letter that stands behind a backslash. -/
def escapeWidth (letter : Char) : Nat :=
  if letter = 'x' then 2 else if letter = 'u' then 4 else if letter = 'U' then 8 else 0

/-- The character that a letter without digits stands for. -/
def escapeMeaning (letter : Char) : Char :=
  if letter = 'n' then '\n' else if letter = 'r' then '\r' else if letter = 't' then '\t'
  else letter

/-- The ways in which a character is written between quote marks. -/
inductive IsEscape (mark c : Char) : List Char → Prop
  | plain : c ≠ mark → c ≠ '\\' → IsEscape mark c [c]
  | letter {l : Char} : escapeWidth l = 0 → escapeMeaning l = c → IsEscape mark c ['\\', l]
  | number {l : Char} : 0 < escapeWidth l → c.toNat < 16 ^ escapeWidth l →
    IsEscape mark c ('\\' :: l :: hexDigits (escapeWidth l) c.toNat)

/-- Eight digits are enough for every character. -/
theorem toNat_lt (c : Char) : c.toNat < 0x110000 := by
  have hvalid : c.val.toNat.isValidChar := c.valid
  rw [Nat.isValidChar] at hvalid
  show c.val.toNat < 0x110000
  omega

section Quoted

variable {printable : Char → Bool} {mark c d : Char} {e e' x y : List Char}

/-- A character is always escaped in one of the ways that can be told apart. -/
theorem isEscape_escapeBy (hmark : mark = '\'' ∨ mark = '"') :
    IsEscape mark c (escapeBy printable mark c) := by
  unfold escapeBy
  split
  case isTrue h =>
    -- the mark is escaped by itself, so its letter is not that of another escape
    have hc : c = '\'' ∨ c = '"' ∨ c = '\\' := by
      rcases h with rfl | rfl
      · rcases hmark with rfl | rfl <;> simp
      · simp
    rcases hc with rfl | rfl | rfl <;> exact .letter (by decide) (by decide)
  case isFalse h =>
  rw [not_or] at h
  split
  case isTrue hc => exact .letter (by decide) hc.symm
  split
  case isTrue hc => exact .letter (by decide) hc.symm
  split
  case isTrue hc => exact .letter (by decide) hc.symm
  split
  case isTrue => exact .plain h.1 h.2
  split
  case isTrue hlt => exact .number (l := 'x') (by decide) hlt
  split
  case isTrue hlt => exact .number (l := 'u') (by decide) hlt
  · exact .number (l := 'U') (by decide) (Nat.lt_of_lt_of_le (toNat_lt c) (by decide))

/-- What stands between the marks shows which character it stands for, and where it ends. -/
theorem IsEscape.unique (h : IsEscape mark c e) (h' : IsEscape mark d e')
    (hsame : e ++ x = e' ++ y) : c = d ∧ x = y := by
  -- a plain character is no backslash, and the letter behind a backslash tells how many digits
  -- follow
  cases h with
  | plain hmark hc =>
    cases h' with
    | plain hmark' hd => simpa using hsame
    | letter => exact absurd (List.cons.inj hsame).1 hc
    | number => exact absurd (List.cons.inj hsame).1 hc
  | @letter l hwidth hl =>
    cases h' with
    | plain hmark' hd => exact absurd (List.cons.inj hsame).1.symm hd
    | @letter l' hwidth' hl' =>
      obtain ⟨rfl, htail⟩ : l = l' ∧ x = y := by simpa using hsame
      exact ⟨hl.symm.trans hl', htail⟩
    | @number l' hwidth' hd =>
      obtain ⟨rfl, -⟩ := List.cons.inj (List.cons.inj hsame).2
      omega
  | @number l hwidth hc =>
    cases h' with
    | plain hmark' hd => exact absurd (List.cons.inj hsame).1.symm hd
    | @letter l' hwidth' hl' =>
      obtain ⟨rfl, -⟩ := List.cons.inj (List.cons.inj hsame).2
      omega
    | @number l' hwidth' hd =>
      obtain ⟨rfl, htail⟩ := List.cons.inj (List.cons.inj hsame).2
      obtain ⟨hdigits, hrest⟩ := List.append_inj htail (by rw [length_hexDigits, length_hexDigits])
      exact ⟨Char.toNat_inj.mp (hexDigits_inj hc hd hdigits), hrest⟩

/-- A text stands between apostrophes or double quotes. -/
theorem quoteMark_eq (text : List Char) : quoteMark text = '\'' ∨ quoteMark text = '"' := by
  unfold quoteMark
  split
  · exact .inr rfl
  · exact .inl rfl

/-- Between two marks only the second one is not escaped. -/
theorem flatMap_escapeBy_unique (hmark : mark = '\'' ∨ mark = '"') {s t : List Char}
    (hsame : s.flatMap (escapeBy printable mark) ++ mark :: x
      = t.flatMap (escapeBy printable mark) ++ mark :: y) : s = t ∧ x = y := by
  have hescape (c : Char) : IsEscape mark c (escapeBy printable mark c) := isEscape_escapeBy hmark
  -- the closing mark does not start like a character, so both strings end at once
  have hne {c : Char} {e z z' : List Char} (h : IsEscape mark c e) : mark :: z ≠ e ++ z' := by
    have hback : mark ≠ '\\' := by rcases hmark with rfl | rfl <;> decide
    intro hsame
    cases h with
    | plain hc _ => exact hc (List.cons.inj hsame).1.symm
    | letter => exact hback (List.cons.inj hsame).1
    | number => exact hback (List.cons.inj hsame).1
  induction s generalizing t with
  | nil =>
    cases t with
    | nil => simpa using hsame
    | cons d t =>
      rw [List.flatMap_cons, List.append_assoc] at hsame
      exact absurd hsame (hne (hescape d))
  | cons c s ih =>
    cases t with
    | nil =>
      rw [List.flatMap_cons, List.append_assoc] at hsame
      exact absurd hsame.symm (hne (hescape c))
    | cons d t =>
      rw [List.flatMap_cons, List.flatMap_cons, List.append_assoc, List.append_assoc] at hsame
      obtain ⟨rfl, htail⟩ := (hescape c).unique (hescape d) hsame
      obtain ⟨rfl, hrest⟩ := ih htail
      exact ⟨rfl, hrest⟩

/-- A quoted string shows where it ends. -/
theorem endsItself_quoteBy (printable : Char → Bool) (s : String) :
    EndsItself (quoteBy printable) id s := by
  intro t x y hsame
  simp only [quoteBy, String.toList_ofList, List.append_assoc, List.cons_append,
    List.nil_append] at hsame
  obtain ⟨hmarks, hsame⟩ := List.cons.inj hsame
  rw [← hmarks] at hsame
  obtain ⟨hchars, hrest⟩ := flatMap_escapeBy_unique (quoteMark_eq s.toList) hsame
  exact ⟨String.toList_inj.mp hchars, hrest⟩

end Quoted

end ScopedQuery
