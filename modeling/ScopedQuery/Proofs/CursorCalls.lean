import ScopedQuery.Proofs.Eager
import ScopedQuery.Proofs.Places

namespace ScopedQuery

open Text

/-!
# Calls of a cursor

A cursor can be used step by step, in any order, and also behind a step that failed.  Whatever is
called, its line and its column stay those of its offset, so that every place which is told later
is the place of a character.

* `Text.column` — the column of an offset, which the text alone decides.
* `Cursor.location_skip_column` — a cursor counts lines and columns as the text has them.
* `Cursor.Call`, `Cursor.Answer` — what the user of a cursor can call, and what a call gives.
* `Cursor.reaches_call`, `Cursor.reaches_after` — one call and any number of them only move the
  cursor on.
* `Cursor.located_after` — where it stands behind all calls.
-/

/-! ### Columns of a text -/

namespace Text

/-- The column of an offset: the characters between the last line break that ends before it and the
    offset itself, counted from one.  A carriage return in front of a line feed is not counted. -/
def column (chars : List Char) (k : Nat) : Nat :=
  1 + (List.range k).countP fun i =>
    lineStart chars k ≤ i ∧ ¬ (chars[i]? = some '\r' ∧ chars[i + 1]? = some '\n')

/-- One character further is the first column of the next line, the same column or the next one. -/
theorem column_succ {chars rest : List Char} {first : Char} {n : Nat}
    (h : chars.drop n = first :: rest) :
    column chars (n + 1) =
      if endsLine first rest then 1
      else if first = '\r' then column chars n
      else column chars n + 1 := by
  rw [column, lineStart_succ h]
  -- a break starts a new line; otherwise the start stays and one character more may count
  by_cases hends : endsLine first rest = true
  · -- no character stands behind the break yet
    have hnone : ∀ i ∈ List.range (n + 1), ¬ n + 1 ≤ i := by
      intro i hi
      rw [List.mem_range] at hi
      omega
    rw [if_pos hends, if_pos hends, List.countP_eq_zero.mpr]
    intro i hi
    simp [hnone i hi]
  · have hle : lineStart chars n ≤ n := lineStart_le chars n
    have hfirst : chars[n]? = some first := by
      rw [← List.head?_drop, h]
      rfl
    have hnext : chars[n + 1]? = rest.head? := by
      rw [← List.head?_drop, ← List.drop_drop, h]
      rfl
    rw [if_neg hends, if_neg hends, List.range_succ, List.countP_append, column]
    by_cases hreturn : first = '\r'
    · -- a carriage return that ends no line has its line feed behind it
      have hhead : rest.head? = some '\n' := by simpa [endsLine, hreturn] using hends
      simp [hfirst, hnext, hreturn, hhead]
    · simp [hfirst, hreturn, hle]
      omega

end Text

namespace Cursor

/-- Behind any number of characters of a text, a cursor counts the breaks that have ended and the
    column of its offset. -/
theorem location_skip_column {source : String} {n : Nat} (hle : n ≤ source.toList.length) :
    ((ofText source).skip n).location =
      ⟨n, 1 + (breaksUpTo source.toList n).length, column source.toList n⟩ := by
  induction n with
  | zero => simp [skip, location, ofText, column]
  | succ n ih =>
    obtain ⟨first, rest, hdrop⟩ : ∃ first rest, source.toList.drop n = first :: rest :=
      ⟨_, _, List.drop_eq_getElem_cons (by omega)⟩
    rw [location_skip_succ hdrop, ih (by omega), column_succ hdrop, breaksUpTo_succ hdrop]
    by_cases hends : endsLine first rest = true
    · simp [hends, Int.add_assoc]
    · rw [if_neg hends, if_neg hends, if_neg hends, List.append_nil]
      by_cases hreturn : first = '\r'
      · rw [if_pos hreturn, if_pos hreturn]
        rfl
      · rw [if_neg hreturn, if_neg hreturn]
        rfl

/-! ### Calls -/

/-- What the user of a cursor can call, with any arguments and at any time. -/
inductive Call
  | next
  | peek (distance : Int)
  | startsWith (expected : List Char)
  | atEnd
  | location
  | skipTrivia
  | skipComment
  | scanName
  | scanStringBody
  | nextToken
  | tokens

/-- What a call gives. -/
inductive Answer
  | nothing
  | character (c : Option Char)
  | truth (b : Bool)
  | location (l : Location)
  | text (s : String)
  | token (t : Token)
  | tokens (ts : List Token)

/-- The call only looks at the text. -/
def Call.Looks : Call → Prop
  | .peek _ | .startsWith _ | .atEnd | .location => True
  | _ => False

/-- What a step gives, told as an answer. -/
def Scanned.map {α β : Type} (f : α → β) (x : Scanned α) : Scanned β := (x.1.map f, x.2)

/-- Makes a call. -/
def call (c : Cursor) : Call → Scanned Answer
  | .next => c.next.map fun char => .character (some char)
  | .peek distance => (.ok (.character (c.peek distance)), c)
  | .startsWith expected => (.ok (.truth (c.startsWith expected)), c)
  | .atEnd => (.ok (.truth c.atEnd), c)
  | .location => (.ok (.location c.location), c)
  | .skipTrivia => c.skipTrivia.map fun _ => .nothing
  | .skipComment => c.skipComment.map fun _ => .nothing
  | .scanName => c.scanName.map .text
  | .scanStringBody => c.scanStringBody.map .text
  | .nextToken => c.nextToken.map .token
  | .tokens => c.tokens.map .tokens

/-- The cursor behind several calls, each of which may have failed. -/
def after (c : Cursor) (calls : List Call) : Cursor :=
  calls.foldl (fun c call => (c.call call).2) c

/-- To read all tokens is to go forward. -/
theorem reaches_tokensFrom (read : Array Token) (c : Cursor) :
    c.Reaches (c.tokensFrom read).2 := by
  fun_induction tokensFrom read c with
  | case1 read c fault d h => exact .of_nextToken h
  | case2 read c t d h _ => exact .of_nextToken h
  | case3 read c t d h _ _ ih => exact (Reaches.of_nextToken h).trans ih

/-- Every call goes forward. -/
theorem reaches_call (c : Cursor) (call : Call) : c.Reaches (c.call call).2 := by
  cases call with
  | next => exact reaches_next c
  | peek distance => exact .refl c
  | startsWith expected => exact .refl c
  | atEnd => exact .refl c
  | location => exact .refl c
  | skipTrivia => exact reaches_skipTrivia c
  | skipComment => exact reaches_skipComment c
  | scanName => exact reaches_scanName c
  | scanStringBody => exact reaches_scanStringBody c
  | nextToken => exact reaches_nextToken c
  | tokens => exact reaches_tokensFrom #[] c

theorem reaches_after (c : Cursor) (calls : List Call) : c.Reaches (c.after calls) := by
  induction calls generalizing c with
  | nil => exact .refl c
  | cons call calls ih => exact (reaches_call c call).trans (ih (c.call call).2)

/-- To look at the text moves nothing. -/
theorem call_of_looks (c : Cursor) {call : Call} (h : call.Looks) : (c.call call).2 = c := by
  cases call <;> first | rfl | cases h

/-- Behind the last character no call moves a cursor. -/
theorem call_of_nil {c : Cursor} (hc : c.rest = []) (call : Call) : (c.call call).2 = c := by
  obtain ⟨n, hn⟩ := c.reaches_call call
  rw [hn, skip_of_nil hc]

/-- A character is missing just behind the last one. -/
theorem next_error_iff (c : Cursor) : (∃ fault, c.next.1 = .error fault) ↔ c.rest = [] := by
  unfold next
  split
  next hc => simp [hc]
  next hc => simp [hc]

/-- **A cursor stands at the place of its offset, whatever was called.**  Behind any calls of a
    cursor in any order, also those that failed, it is in its text, its line counts the line breaks
    that end before it, and its column the characters behind the last of them, but for a carriage
    return that has its line feed behind it.  No further call leads back.  One that looks at the
    text moves nothing, and behind the last character, which is where the next one is missing, no
    call moves anything. -/
theorem located_after (source : String) (calls : List Call) :
    let c := (ofText source).after calls
    c.source = source.toList ∧ c.offset ≤ source.length ∧
    c.line = 1 + (breaksUpTo source.toList c.offset).length ∧
    c.col = column source.toList c.offset ∧
    (∀ call, c.offset ≤ (c.call call).2.offset) ∧
    (∀ call : Call, call.Looks → (c.call call).2 = c) ∧
    ((∃ fault, c.next.1 = .error fault) ↔ c.offset = source.length) ∧
    (c.offset = source.length → ∀ call, (c.call call).2 = c) := by
  intro c
  have hreaches : (ofText source).Reaches c := reaches_after _ calls
  -- whatever was called, some number of characters has been passed, which is the offset
  obtain ⟨n, hle, hc⟩ := hreaches.exists_le
  have hle' : n ≤ source.toList.length := hle
  have hsource : c.source = source.toList := hreaches.source_eq
  have hoffset : c.offset = n := by rw [hc, offset_skip_ofText hle']
  have hlocation := location_skip_column hle'
  rw [← hc, ← hoffset] at hlocation
  have hend : c.rest = [] ↔ c.offset = source.length := by
    rw [c.rest_eq, hsource, List.drop_eq_nil_iff, ← String.length_toList]
    omega
  refine ⟨hsource, ?_, congrArg Location.line hlocation, congrArg Location.col hlocation,
    fun call => (c.reaches_call call).offset_le, fun call => c.call_of_looks, ?_, ?_⟩
  · rw [hoffset, ← String.length_toList]
    exact hle'
  · rw [next_error_iff, hend]
  · intro hlast call
    exact call_of_nil (hend.mpr hlast) call

/-- A comment without an end is passed up to the end of the text, behind one line break, and there
    neither a look back nor asking for one character more changes anything. -/
theorem located_after_of_comment :
    let c := (ofText "/*\r\n").after [.peek 1, .skipComment, .next]
    c.line = 2 ∧ c.col = 1 ∧ (c.call (.peek (-1))).2 = c ∧ (c.call .next).2 = c := by
  intro c
  obtain ⟨-, -, hline, hcol, -, hlooks, -, hend⟩ :=
    located_after "/*\r\n" [.peek 1, .skipComment, .next]
  have hlast : c.offset = "/*\r\n".length := by decide +kernel
  refine ⟨?_, ?_, hlooks (.peek (-1)) trivial, hend hlast .next⟩
  · rw [show c.line = _ from hline]
    decide +kernel
  · rw [show c.col = _ from hcol]
    decide +kernel

end Cursor

end ScopedQuery
