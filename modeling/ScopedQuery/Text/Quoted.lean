import ScopedQuery.Text.UnprintableRanges

namespace ScopedQuery.Text

/-!
# Quoted texts

A text is shown to a person between quote marks, so that blanks at its ends, line breaks and
characters without a visible form can be seen.

* `quoteMark` — an apostrophe, unless the text holds one and no double quote.
* `escape` — a character as it is written between the marks.
* `quote` — the quoted text.
-/

/-- `c` has a visible form, the blank included. -/
def isPrintable (c : Char) : Bool :=
  if c.toNat < 128 then 32 ≤ c.toNat && c.toNat < 127 else !unprintableRanges.contains c.toNat

/-- The last `width` hexadecimal digits of `n`, in lower case. -/
def hexDigits : Nat → Nat → List Char
  | 0, _ => []
  | width + 1, n => hexDigits width (n / 16) ++ [Nat.digitChar (n % 16)]

theorem length_hexDigits (width n : Nat) : (hexDigits width n).length = width := by
  induction width generalizing n with
  | zero => rfl
  | succ width ih => simp [hexDigits, ih]

/-- The quote mark for a text: an apostrophe, unless the text holds one and no double quote. -/
def quoteMark (text : List Char) : Char :=
  if text.contains '\'' && !text.contains '"' then '"' else '\''

/-- How `c` is written between two quote marks `mark`: the mark and the backslash behind a
    backslash, the three common control characters by letter, and any other character without a
    visible form by its number in two, four or eight hexadecimal digits. -/
def escape (mark c : Char) : List Char :=
  if c = mark ∨ c = '\\' then ['\\', c]
  else if c = '\n' then ['\\', 'n']
  else if c = '\r' then ['\\', 'r']
  else if c = '\t' then ['\\', 't']
  else if isPrintable c then [c]
  else if c.toNat < 0x100 then '\\' :: 'x' :: hexDigits 2 c.toNat
  else if c.toNat < 0x10000 then '\\' :: 'u' :: hexDigits 4 c.toNat
  else '\\' :: 'U' :: hexDigits 8 c.toNat

/-- The characters of `text` between quote marks. -/
def quoteChars (text : List Char) : List Char :=
  let mark := quoteMark text
  mark :: text.flatMap (escape mark) ++ [mark]

/-- `text` between quote marks. -/
def quote (text : String) : String :=
  String.ofList (quoteChars text.toList)

end ScopedQuery.Text
