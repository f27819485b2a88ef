import ScopedQuery.Location
import ScopedQuery.Text.LineBreak

namespace ScopedQuery

open Text

/-!
# A cursor in a text

A cursor stands between two characters of a text, or behind its end, and knows the line and the
column of the character that comes next.

* `Cursor.rest` — the characters not yet passed; `rest_eq` ties it to the offset.
* `Cursor.bump`, `Cursor.skip` — pass one or several characters.
* `Cursor.peek`, `Cursor.startsWith`, `Cursor.atEnd` — look ahead and move nothing.
-/

/-- A place in `source` together with the characters that follow it. -/
structure Cursor where
  source : List Char
  rest : List Char
  offset : Nat
  line : Int
  col : Int
  rest_eq : rest = source.drop offset := by simp

namespace Cursor

/-- The cursor at an offset of a text, which counts lines and columns from the given ones. -/
def place (source : String) (offset : Nat) (line col : Int) : Cursor :=
  { source := source.toList, rest := source.toList.drop offset, offset, line, col }

/-- The cursor before the first character of a text. -/
def ofText (source : String) : Cursor :=
  { source := source.toList, rest := source.toList, offset := 0, line := 1, col := 1 }

instance : Inhabited Cursor := ⟨ofText ""⟩

/-- Where the cursor stands. -/
def location (c : Cursor) : Location := ⟨c.offset, c.line, c.col⟩

/-- The whole text. -/
def text (c : Cursor) : String := String.ofList c.source

/-- Passes one character, if there is one: a completed line break leads to the first column of the
    next line, a carriage return inside of a break keeps the column, any other character moves to
    the next column. -/
def bump (c : Cursor) : Cursor :=
  match h : c.rest with
  | [] => c
  | char :: rest =>
    have step : rest = c.source.drop (c.offset + 1) := by
      rw [← List.drop_drop, ← c.rest_eq, h, List.drop_one, List.tail_cons]
    if endsLine char rest then ⟨c.source, rest, c.offset + 1, c.line + 1, 1, step⟩
    else if char = '\r' then ⟨c.source, rest, c.offset + 1, c.line, c.col, step⟩
    else ⟨c.source, rest, c.offset + 1, c.line, c.col + 1, step⟩

/-- Passes `n` characters, or all that are left. -/
def skip : Nat → Cursor → Cursor
  | 0, c => c
  | n + 1, c => skip n c.bump

/-- Every character has been passed. -/
def atEnd (c : Cursor) : Bool := c.rest.isEmpty

/-- The character at a distance from the cursor, before or behind it; none outside of the text. -/
def peek (c : Cursor) (distance : Int) : Option Char :=
  let index := c.offset + distance
  if index < 0 then none
  -- what has been passed is found in the source only
  else if distance < 0 then c.source[index.toNat]?
  else c.rest[distance.toNat]?

/-- The text goes on with `expected`; behind its end it does not even go on with nothing. -/
def startsWith (c : Cursor) (expected : List Char) : Bool :=
  expected.isPrefixOf c.rest && (!expected.isEmpty || c.offset ≤ c.source.length)

/-! ### What is left behind a step -/

/-- A fresh cursor has the whole text before it. -/
@[simp] theorem rest_ofText (source : String) : (ofText source).rest = source.toList := rfl

/-- The text that is read never changes. -/
@[simp] theorem source_bump (c : Cursor) : c.bump.source = c.source := by
  unfold bump
  split
  · rfl
  · split
    · rfl
    · split <;> rfl

/-- One character is passed, if there is one left. -/
@[simp] theorem rest_bump (c : Cursor) : c.bump.rest = c.rest.tail := by
  unfold bump
  split
  case h_1 h => simp [h]
  case h_2 char rest h =>
    split
    · simp [h]
    · split <;> simp [h]

/-- Nor does it change when several characters are passed. -/
@[simp] theorem source_skip (n : Nat) (c : Cursor) : (c.skip n).source = c.source := by
  induction n generalizing c with
  | zero => rfl
  | succ n ih => simp [skip, ih]

/-- As many characters are passed as are asked for, if they are there. -/
@[simp] theorem rest_skip (n : Nat) (c : Cursor) : (c.skip n).rest = c.rest.drop n := by
  induction n generalizing c with
  | zero => rfl
  | succ n ih => simp [skip, ih]

/-! ### Cursors further on -/

/-- To pass some characters and then others is to pass them all. -/
theorem skip_add (m n : Nat) (c : Cursor) : c.skip (m + n) = (c.skip m).skip n := by
  induction m generalizing c with
  | zero => simp [skip]
  | succ m ih => rw [Nat.succ_add]; exact ih c.bump

/-- `d` is `c` moved on by some number of characters. -/
def Reaches (c d : Cursor) : Prop := ∃ n, d = c.skip n

namespace Reaches

theorem refl (c : Cursor) : c.Reaches c := ⟨0, rfl⟩

theorem bump (c : Cursor) : c.Reaches c.bump := ⟨1, rfl⟩

theorem skip (n : Nat) (c : Cursor) : c.Reaches (c.skip n) := ⟨n, rfl⟩

theorem trans {c d e : Cursor} (hd : c.Reaches d) (he : d.Reaches e) : c.Reaches e := by
  obtain ⟨m, rfl⟩ := hd
  obtain ⟨n, rfl⟩ := he
  exact ⟨m + n, (skip_add m n c).symm⟩

/-- Wherever a cursor goes, it stays in its text. -/
theorem source_eq {c d : Cursor} (h : c.Reaches d) : d.source = c.source := by
  obtain ⟨n, rfl⟩ := h
  exact source_skip n c

/-- No cursor goes back. -/
theorem length_rest_le {c d : Cursor} (h : c.Reaches d) : d.rest.length ≤ c.rest.length := by
  obtain ⟨n, rfl⟩ := h
  simp

end Reaches

end Cursor

end ScopedQuery
