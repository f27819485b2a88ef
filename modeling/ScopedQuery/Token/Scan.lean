import ScopedQuery.Cursor
import ScopedQuery.Problem
import ScopedQuery.Text.Identifier
import ScopedQuery.Token.Basic

namespace ScopedQuery

open Text

/-!
# The tokens of a text

A cursor moves over the text and gives one token at a time.  Blanks and comments between tokens are
passed over; line breaks are tokens, since they end statements.

* `ScanFault` — why no token could be read.  A cursor moves on even where reading fails, so every
  step gives the cursor behind what it has passed as well.
* `Cursor.skipTrivia`, `Cursor.scanName`, `Cursor.scanStringBody` — the parts of a token.
* `Cursor.nextToken` — the next token.  `length_rest_nextToken_lt` says that a token other than the
  end of the input takes up some of the text.
* `Cursor.tokens` — all tokens, up to and with the end of the input.
-/

/-- Why nothing could be read from a text. -/
inductive ScanFault
  /-- A character was asked for behind the end of the text. -/
  | pastEnd (location : Location)
  /-- The text is not spelled as a query is. -/
  | misspelled (diagnostic : Diagnostic)

/-- The wording of a fault. -/
def ScanFault.message : ScanFault → String
  | pastEnd location =>
    "CharacterStreamError: Attempted to read past end of source at " ++
      s!"position=<{location.offset}>, line=<{location.line}>"
  | misspelled diagnostic => diagnostic.message

namespace Cursor

/-- What a step over a text gives, and the cursor behind all that it has passed. -/
abbrev Scanned (α : Type) := Except ScanFault α × Cursor

/-- The blanks that may stand between tokens. -/
def blanks : List Char := [' ', '\t']

/-- A blank between tokens. -/
def isBlank (c : Char) : Bool := blanks.contains c

/-- What opens a comment. -/
def commentOpen : List Char := ['/', '*']

/-- What closes a comment; the first one does, so comments do not nest. -/
def commentClose : List Char := ['*', '/']

/-- The length of a text up to and with the first closing of a comment. -/
def commentLength? : List Char → Option Nat
  | [] => none
  | c :: rest => if commentClose.isPrefixOf (c :: rest) then some 2
    else (commentLength? rest).map (· + 1)

/-- Refuses the text for `problem`, found at `location`. -/
def refuse {α : Type} (c : Cursor) (problem : Problem) (location : Location) (found : String) :
    Scanned α :=
  (.error (.misspelled (problem.report location found c.text)), c)

/-- The next character. -/
def next (c : Cursor) : Scanned Char :=
  match c.rest with
  | [] => (.error (.pastEnd c.location), c)
  | char :: _ => (.ok char, c.bump)

/-- Passes a comment; its opening, which is two characters long, is taken for granted. -/
def skipComment (c : Cursor) : Scanned Unit :=
  match c.next with
  -- the two characters of the opening
  | (.error fault, c₁) => (.error fault, c₁)
  | (.ok _, c₁) =>
    match c₁.next with
    | (.error fault, c₂) => (.error fault, c₂)
    | (.ok _, c₂) =>
      match commentLength? c₂.rest with
      | some n => (.ok (), c₂.skip n)
      | none => (c₂.skip c₂.rest.length).refuse .openComment c.location "end of input"

/-- A character that is read is no longer before the cursor. -/
theorem length_rest_next_lt {c d : Cursor} {char : Char} (h : c.next = (.ok char, d)) :
    d.rest.length < c.rest.length := by
  unfold next at h
  split at h
  · simp at h
  case h_2 first rest hrest =>
    simp only [Prod.mk.injEq] at h
    rw [← h.2, rest_bump, hrest]
    simp

/-- A comment that is passed takes up its opening at least. -/
theorem length_rest_skipComment_lt {c d : Cursor} (h : c.skipComment = (.ok (), d)) :
    d.rest.length < c.rest.length := by
  unfold skipComment refuse at h
  split at h
  · simp at h
  case h_2 c₁ h₁ =>
    split at h
    · simp at h
    case h_2 c₂ h₂ =>
      have := length_rest_next_lt h₁
      have := length_rest_next_lt h₂
      split at h
      · simp only [Prod.mk.injEq, true_and] at h
        rw [← h, rest_skip, List.length_drop]
        omega
      · simp at h

/-- Passes blanks and comments, up to the next token or line break. -/
def skipTrivia (c : Cursor) : Scanned Unit :=
  match hc : c.rest with
  | [] => (.ok (), c)
  | char :: _ =>
    if isBlank char then
      have : c.bump.rest.length < c.rest.length := by simp [hc]
      skipTrivia c.bump
    else if c.startsWith commentOpen then
      match h : c.skipComment with
      | (.error fault, d) => (.error fault, d)
      | (.ok (), d) =>
        have : d.rest.length < c.rest.length := length_rest_skipComment_lt h
        skipTrivia d
    else (.ok (), c)
termination_by c.rest.length

/-- Reads a name as long as it goes. -/
def scanName [NameTable] (c : Cursor) : Scanned String :=
  match c.rest with
  | [] => c.refuse .noIdentifier c.location "end of input"
  | first :: rest =>
    if isNameStart first then
      let name := first :: rest.takeWhile isNameContinue
      (.ok (String.ofList name), c.skip name.length)
    else c.refuse .noIdentifier c.location (quote (String.ofList [first]))

/-- Reads up to the next double quote, which is not passed. -/
def scanStringBody (c : Cursor) : Scanned String :=
  if c.rest.contains '"' then
    let body := c.rest.takeWhile (· != '"')
    (.ok (String.ofList body), c.skip body.length)
  else c.refuse .openString c.location "end of input"

/-- The token of a line break, whose value is the break itself. -/
def scanLineBreak (c : Cursor) : Token × Cursor :=
  let value := if ['\r', '\n'].isPrefixOf c.rest then ['\r', '\n'] else c.rest.take 1
  (⟨.newline, String.ofList value, c.location⟩, c.skip value.length)

/-- The token that starts at the cursor, where `first` stands and opens neither blanks nor a
    comment.  An unclosed string is reported at its opening quote. -/
def scanToken [NameTable] (c : Cursor) (first : Char) : Scanned Token :=
  if first = '\r' ∨ first = '\n' then
    let (token, d) := c.scanLineBreak
    (.ok token, d)
  else if isNameStart first then
    match c.scanName with
    | (.ok name, d) => (.ok ⟨.identifier, name, c.location⟩, d)
    | (.error fault, d) => (.error fault, d)
  else if first = '"' then
    match c.bump.scanStringBody with
    | (.ok body, d) => (.ok ⟨.string, body, c.location⟩, d.bump)
    -- the body starts behind the quote that has to be reported
    | (.error _, d) => d.refuse .openString c.location "end of input"
  else
    let kind := (TokenKind.ofPunctuation? first).getD .stray
    (.ok ⟨kind, String.ofList [first], c.location⟩, c.bump)

/-- Reads the next token; at the end of the text, the end of the input as often as it is asked. -/
def nextToken [NameTable] (c : Cursor) : Scanned Token :=
  match c.skipTrivia with
  | (.error fault, d) => (.error fault, d)
  | (.ok (), d) =>
    match d.rest with
    | [] => (.ok ⟨.endOfInput, "EOF", d.location⟩, d)
    | first :: _ => d.scanToken first

/-! ### Where the steps lead -/

/-- To read a character is to go on, or to stay at the end. -/
theorem reaches_next (c : Cursor) : c.Reaches c.next.2 := by
  unfold next
  split
  · exact .refl c
  · exact .bump c

/-- A comment is passed by going on, whether it has an end or not. -/
theorem reaches_skipComment (c : Cursor) : c.Reaches c.skipComment.2 := by
  unfold skipComment refuse
  have h₁ := reaches_next c
  split
  case h_1 fault c₁ hc₁ => rwa [hc₁] at h₁
  case h_2 char c₁ hc₁ =>
    rw [hc₁] at h₁
    have h₂ := reaches_next c₁
    split
    case h_1 fault c₂ hc₂ =>
      rw [hc₂] at h₂
      exact h₁.trans h₂
    case h_2 char c₂ hc₂ =>
      rw [hc₂] at h₂
      split
      · exact (h₁.trans h₂).trans (.skip _ c₂)
      · exact (h₁.trans h₂).trans (.skip _ c₂)

/-- So are blanks and comments, one behind the other. -/
theorem reaches_skipTrivia (c : Cursor) : c.Reaches c.skipTrivia.2 := by
  fun_induction skipTrivia c with
  | case1 c _ => exact .refl c
  | case2 c char rest _ _ _ ih => exact (Reaches.bump c).trans ih
  | case3 c char rest _ _ _ fault d hd =>
    have h := reaches_skipComment c
    rwa [hd] at h
  | case4 c char rest _ _ _ d hd _ ih =>
    have h := reaches_skipComment c
    rw [hd] at h
    exact h.trans ih
  | case5 c => exact .refl c

theorem reaches_scanName [NameTable] (c : Cursor) : c.Reaches c.scanName.2 := by
  unfold scanName refuse
  split
  · exact .refl c
  · split
    · exact .skip _ c
    · exact .refl c

theorem reaches_scanStringBody (c : Cursor) : c.Reaches c.scanStringBody.2 := by
  unfold scanStringBody refuse
  split
  · exact .skip _ c
  · exact .refl c

/-- A token is read by going on, and so is what turns out to be none. -/
theorem reaches_scanToken [NameTable] (c : Cursor) (first : Char) :
    c.Reaches (c.scanToken first).2 := by
  unfold scanToken refuse
  split
  · exact .skip _ c
  split
  · have h := reaches_scanName c
    split <;> rename_i hd <;> rwa [hd] at h
  split
  · have h := (Reaches.bump c).trans (reaches_scanStringBody c.bump)
    split <;> rename_i d hd <;> rw [hd] at h
    · exact h.trans (.bump d)
    · exact h
  · exact .bump c

/-- So whatever is found, the cursor has not gone back. -/
theorem reaches_nextToken [NameTable] (c : Cursor) : c.Reaches c.nextToken.2 := by
  unfold nextToken
  have h := reaches_skipTrivia c
  split
  case h_1 fault d hd => rwa [hd] at h
  case h_2 d hd =>
    rw [hd] at h
    split
    · exact h
    case h_2 first rest _ => exact h.trans (reaches_scanToken d first)

/-! ### Progress -/

/-- A token takes up some of the text. -/
theorem length_rest_scanToken_lt [NameTable] {c d : Cursor} {first : Char} {rest : List Char}
    {token : Token} (hc : c.rest = first :: rest) (h : c.scanToken first = (.ok token, d)) :
    d.rest.length < c.rest.length := by
  unfold scanToken refuse at h
  split at h
  · simp only [scanLineBreak, Prod.mk.injEq] at h
    rw [← h.2, rest_skip, List.length_drop, hc]
    split
    · simp only [List.length_cons, List.length_nil]
      omega
    · simp only [List.take_succ_cons, List.take_zero, List.length_cons, List.length_nil]
      omega
  split at h
  case isTrue hstart =>
    simp only [scanName, hc, hstart, if_true, Prod.mk.injEq] at h
    rw [← h.2, rest_skip, List.length_drop, hc]
    simp only [List.length_cons]
    omega
  split at h
  · split at h
    case h_1 body e he =>
      have hle := (reaches_scanStringBody c.bump).length_rest_le
      simp only [Prod.mk.injEq] at h
      rw [he] at hle
      rw [← h.2, rest_bump]
      simp [hc] at hle ⊢
      omega
    · simp at h
  · simp only [Prod.mk.injEq] at h
    rw [← h.2, rest_bump, hc]
    simp

/-- A token other than the end of the input takes up some of the text. -/
theorem length_rest_nextToken_lt [NameTable] {c d : Cursor} {token : Token}
    (h : c.nextToken = (.ok token, d)) (hkind : token.kind ≠ .endOfInput) :
    d.rest.length < c.rest.length := by
  unfold nextToken at h
  have hle := (reaches_skipTrivia c).length_rest_le
  split at h
  · simp at h
  case h_2 e he =>
    rw [he] at hle
    split at h
    · simp only [Prod.mk.injEq, Except.ok.injEq] at h
      rw [← h.1] at hkind
      exact absurd rfl hkind
    case h_2 first rest hrest =>
      have := length_rest_scanToken_lt hrest h
      exact Nat.lt_of_lt_of_le this hle

/-! ### All tokens -/

/-- The tokens behind those of `read`, up to and with the end of the input. -/
def tokensFrom [NameTable] (read : Array Token) (c : Cursor) : Scanned (List Token) :=
  match h : c.nextToken with
  | (.error fault, d) => (.error fault, d)
  | (.ok token, d) =>
    if hkind : token.kind = .endOfInput then (.ok (read.push token).toList, d)
    else
      have : d.rest.length < c.rest.length := length_rest_nextToken_lt h hkind
      tokensFrom (read.push token) d
termination_by c.rest.length

/-- All tokens of the text from the cursor on; the last one is the end of the input. -/
def tokens [NameTable] (c : Cursor) : Scanned (List Token) :=
  c.tokensFrom #[]

end Cursor

end ScopedQuery
