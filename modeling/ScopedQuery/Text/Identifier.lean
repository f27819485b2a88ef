import ScopedQuery.Text.NameStartRanges
import ScopedQuery.Text.NameContinueRanges

namespace ScopedQuery.Text

/-!
# Identifiers

* `NameTable` — what may open and what may extend the name of a verb or of an argument.  What
  divides tokens is part of no name; nothing else is asked of a table.
* `unicodeNames` — the table that is in use.  A name opens with a letter of any script; an
  underscore only extends it.
* `isIdentifier` — the general notion of an identifier, where an underscore opens one as well.
* `isName` — the names that a query can hold.
* `startsIdentifier`, `continuesIdentifier` — the same questions asked of a text of any length.
-/

/-- The characters that no name holds: blanks, line breaks, what opens a string or a comment, and
    punctuation. -/
def dividers : List Char :=
  [' ', '\t', '\r', '\n', '"', '/', '@', '(', ')', ',', '=', '{', '}', ';']

/-- What names are made of. -/
class NameTable where
  /-- `c` may be the first character of a name. -/
  isNameStart (c : Char) : Bool
  /-- `c` may follow the first character of a name. -/
  isNameContinue (c : Char) : Bool
  /-- What may open a name may also extend one. -/
  isNameContinue_of_isNameStart {c : Char} : isNameStart c = true → isNameContinue c = true
  isNameContinue_of_divider {c : Char} : c ∈ dividers → isNameContinue c = false
  /-- A name behind a slash does not make a comment of it. -/
  isNameStart_star : isNameStart '*' = false

export NameTable (isNameStart isNameContinue isNameContinue_of_isNameStart
  isNameContinue_of_divider isNameStart_star)

/-- No name opens with a divider, since none goes on with it. -/
theorem isNameStart_of_divider [NameTable] {c : Char} (h : c ∈ dividers) :
    isNameStart c = false := by
  rw [Bool.eq_false_iff]
  intro hstart
  have hcontinue : isNameContinue c = true := isNameContinue_of_isNameStart hstart
  rw [isNameContinue_of_divider h] at hcontinue
  cases hcontinue

/-! ### The table of Unicode -/

/-- The letters of all scripts. -/
def isUnicodeNameStart (c : Char) : Bool :=
  if c.toNat < 128 then c.isAlpha else nameStartRanges.contains c.toNat

/-- The letters of all scripts, digits, marks and connecting punctuation. -/
def isUnicodeNameContinue (c : Char) : Bool :=
  if c.toNat < 128 then c.isAlphanum || c == '_'
  else nameStartRanges.contains c.toNat || nameContinueRanges.contains c.toNat

instance unicodeNames : NameTable where
  isNameStart := isUnicodeNameStart
  isNameContinue := isUnicodeNameContinue
  isNameContinue_of_isNameStart {c} h := by
    unfold isUnicodeNameStart at h
    unfold isUnicodeNameContinue
    split at h
    case isTrue hc => simp [hc, Char.isAlphanum, h]
    case isFalse hc => simp [hc, h]
  isNameContinue_of_divider {c} h := by
    have hall : dividers.all (fun divider => !isUnicodeNameContinue divider) = true := by decide
    simpa using List.all_eq_true.mp hall c h
  isNameStart_star := by decide

/-! ### Names -/

section Names

variable [NameTable]

/-- A name start or an underscore, followed by characters that continue a name. -/
def isIdentifier : List Char → Bool
  | [] => false
  | c :: rest => (isNameStart c || c == '_') && rest.all isNameContinue

/-- A name start followed by characters that continue a name. -/
def isName : List Char → Bool
  | [] => false
  | c :: rest => isNameStart c && rest.all isNameContinue

end Names

/-- The text is an identifier, and more than a lone underscore. -/
def startsIdentifier (text : String) : Bool :=
  text != "_" && isIdentifier text.toList

/-- The text is not empty, and an identifier stays one when the text is put behind it. -/
def continuesIdentifier (text : String) : Bool :=
  text != "" && isIdentifier ('a' :: text.toList)

end ScopedQuery.Text
