import ScopedQuery.Text.CodeRanges

namespace ScopedQuery.Text

/-!
# Integer numerals

An integer in a command line may stand between blanks, carry a sign, and have its digits grouped by
single underscores.  The decimal digits of every script count.

* `decimalValue?` — the value of a decimal digit.
* `isNumeralBlank` — the blanks that may surround a numeral.
* `integer?` — the value of a numeral, if the text is one.
-/

/-- The zeros of the decimal digit series above ASCII; nine digits in ascending order follow each
    (Unicode 14.0). -/
def digitZeros : List Nat :=
  [0x660, 0x6F0, 0x7C0, 0x966, 0x9E6, 0xA66, 0xAE6, 0xB66, 0xBE6, 0xC66, 0xCE6, 0xD66, 0xDE6,
   0xE50, 0xED0, 0xF20, 0x1040, 0x1090, 0x17E0, 0x1810, 0x1946, 0x19D0, 0x1A80, 0x1A90, 0x1B50,
   0x1BB0, 0x1C40, 0x1C50, 0xA620, 0xA8D0, 0xA900, 0xA9D0, 0xA9F0, 0xAA50, 0xABF0, 0xFF10,
   0x104A0, 0x10D30, 0x11066, 0x110F0, 0x11136, 0x111D0, 0x112F0, 0x11450, 0x114D0, 0x11650,
   0x116C0, 0x11730, 0x118E0, 0x11950, 0x11C50, 0x11D50, 0x11DA0, 0x16A60, 0x16AC0, 0x16B50,
   0x1D7CE, 0x1D7D8, 0x1D7E2, 0x1D7EC, 0x1D7F6, 0x1E140, 0x1E2F0, 0x1E950, 0x1FBF0]

/-- The value of a decimal digit. -/
def decimalValue? (c : Char) : Option Nat :=
  if c.isDigit then some (c.toNat - '0'.toNat)
  else
    (digitZeros.find? fun first => first ≤ c.toNat && c.toNat ≤ first + 9).map (c.toNat - ·)

/-- The blanks above ASCII. -/
def blankRanges : CodeRanges := ⟨
  [(0x85, 0x85), (0xA0, 0xA0), (0x1680, 0x1680), (0x2000, 0x200A), (0x2028, 0x2029),
   (0x202F, 0x202F), (0x205F, 0x205F), (0x3000, 0x3000)]⟩

/-- A blank or a line break, which may surround a numeral. -/
def isNumeralBlank (c : Char) : Bool :=
  if c.toNat < 128 then c == ' ' || (9 ≤ c.toNat && c.toNat ≤ 13) else blankRanges.contains c.toNat

/-- A numeral has at most so many digits. -/
def maxDigits : Nat := 4300

/-- The digits of a numeral, whose groups are divided by single underscores. -/
def digits? : List Char → Option (List Nat)
  | [] => none
  | [c] => (decimalValue? c).map ([·])
  | c :: '_' :: rest =>
    match decimalValue? c, digits? rest with
    | some digit, some later => some (digit :: later)
    | _, _ => none
  | c :: rest =>
    match decimalValue? c, digits? rest with
    | some digit, some later => some (digit :: later)
    | _, _ => none

/-- The value of a numeral without a sign. -/
def natural? (text : List Char) : Option Nat :=
  match digits? text with
  | some digits =>
    if digits.length ≤ maxDigits then some (digits.foldl (fun n digit => 10 * n + digit) 0)
    else none
  | none => none

/-- The value of a numeral with an optional sign, between blanks. -/
def integer? (text : String) : Option Int :=
  let trimmed := text.toList.dropWhile isNumeralBlank
  let trimmed := (trimmed.reverse.dropWhile isNumeralBlank).reverse
  match trimmed with
  | '-' :: rest => (natural? rest).map fun n => -(n : Int)
  | '+' :: rest => (natural? rest).map Int.ofNat
  | rest => (natural? rest).map Int.ofNat

end ScopedQuery.Text
