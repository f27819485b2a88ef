namespace ScopedQuery.Text

/-!
# Line breaks

A line ends with a line feed, with a carriage return, or with the two in that order, which count
as one break.

* `endsLine` — whether a character completes a line break, given what follows it.
* `lines` — the lines of a text, without their breaks.
* `unifyLineBreaks` — the text with every break written as a line feed.
-/

/-- A line ends with `c` when `rest` follows: a carriage return right before a line feed leaves
    the end of the line to that line feed. -/
def endsLine (c : Char) (rest : List Char) : Bool :=
  c == '\n' || (c == '\r' && rest.head? != some '\n')

/-- The lines of a text, without their breaks; a break at the end is followed by an empty line. -/
def lines : List Char → List (List Char)
  | [] => [[]]
  | '\r' :: '\n' :: rest => [] :: lines rest
  | '\r' :: rest => [] :: lines rest
  | '\n' :: rest => [] :: lines rest
  | c :: rest =>
    match lines rest with
    | [] => [[c]]
    | line :: later => (c :: line) :: later

/-- The text with every line break written as one line feed. -/
def unifyLineBreaks : List Char → List Char
  | [] => []
  | '\r' :: '\n' :: rest => '\n' :: unifyLineBreaks rest
  | '\r' :: rest => '\n' :: unifyLineBreaks rest
  | c :: rest => c :: unifyLineBreaks rest

/-- Unifying the line breaks leaves no carriage return. -/
theorem not_mem_unifyLineBreaks (text : List Char) : '\r' ∉ unifyLineBreaks text := by
  fun_induction unifyLineBreaks text with
  | case1 => simp
  | case2 rest ih => simp [ih]
  | case3 rest _ ih => simp [ih]
  | case4 c rest _ hc ih =>
    have : c ≠ '\r' := fun h => hc h
    simp [ih, Ne.symm this]

end ScopedQuery.Text
