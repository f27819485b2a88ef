import ScopedQuery.Proofs.Lexeme

namespace ScopedQuery

open Text

/-!
# Scanning character by character

A scanner that passes every single character by asking for it with `Cursor.next`, and so fails where
it asks for one behind the end of the text.  It never does: it finds the same tokens as
`Cursor.nextToken`, and a text without a next token is one that is misspelled.

* `Scanned.andThen` — one step over a text behind another one.
* `Cursor.passWhile` — a loop that passes a character each time; `passWhile_eq` says where it ends.
* `Cursor.stepComment`, `Cursor.stepTrivia`, `Cursor.stepName`, `Cursor.stepStringBody`,
  `Cursor.stepToken`, `Cursor.stepNext` — the parts of the scanner.
* `Cursor.stepNext_eq` — it is `Cursor.nextToken`.
-/

namespace Cursor

/-! ### Loops over characters -/

/-- Goes on behind a step over a text, unless that has failed. -/
def Scanned.andThen {α β : Type} (x : Scanned α) (f : α → Cursor → Scanned β) : Scanned β :=
  match x with
  | (.error fault, d) => (.error fault, d)
  | (.ok a, d) => f a d

@[simp] theorem andThen_ok {α β : Type} (a : α) (d : Cursor) (f : α → Cursor → Scanned β) :
    Scanned.andThen (.ok a, d) f = f a d := rfl

/-- Passes characters as long as the cursor goes on, one by one, and gives them. -/
def passWhile (goes : Cursor → Bool) (c : Cursor) : Scanned (List Char) :=
  if goes c then
    match h : c.next with
    | (.error fault, d) => (.error fault, d)
    | (.ok char, d) =>
      have : d.rest.length < c.rest.length := length_rest_next_lt h
      Scanned.andThen (passWhile goes d) fun chars e => (.ok (char :: chars), e)
  else (.ok [], c)
termination_by c.rest.length

variable {c : Cursor} {first : Char} {rest : List Char}

theorem next_of_cons (hc : c.rest = first :: rest) : c.next = (.ok first, c.bump) := by
  rw [next, hc]

theorem peek_zero (c : Cursor) : c.peek 0 = c.rest.head? := by
  have hindex : ¬ ((c.offset : Int) + 0 < 0) := by omega
  simp only [peek, if_neg hindex, Int.lt_irrefl, if_false, Int.toNat_zero]
  exact List.head?_eq_getElem?.symm

section PassWhile

variable {goes : Cursor → Bool}

/-- A loop that goes on passes a character and is then the same loop. -/
theorem passWhile_of_goes (hgoes : goes c = true) (hc : c.rest = first :: rest) :
    c.passWhile goes
      = (c.bump.passWhile goes).andThen fun chars e => (.ok (first :: chars), e) := by
  rw [passWhile, if_pos hgoes]
  split
  case h_1 hnext => cases (next_of_cons hc).symm.trans hnext
  case h_2 hnext =>
    cases (next_of_cons hc).symm.trans hnext
    rfl

/-- A loop that stops passes nothing. -/
theorem passWhile_of_stop (hstop : goes c = false) : c.passWhile goes = (.ok [], c) := by
  rw [passWhile, if_neg (by simp [hstop])]

/-- A loop that goes on over some characters and no further passes just these. -/
theorem passWhile_eq {n : Nat} (hgoes : ∀ k < n, goes (c.skip k) = true)
    (hle : n ≤ c.rest.length) (hstop : goes (c.skip n) = false) :
    c.passWhile goes = (.ok (c.rest.take n), c.skip n) := by
  induction n generalizing c with
  | zero => exact passWhile_of_stop hstop
  | succ n ih =>
    obtain ⟨first, rest, hc⟩ := List.exists_cons_of_length_pos (show 0 < c.rest.length by omega)
    have hrest : c.bump.rest = rest := by rw [rest_bump, hc, List.tail_cons]
    have hle' : n ≤ c.bump.rest.length := by
      rw [hrest]
      rw [hc, List.length_cons] at hle
      omega
    have hhere : goes c = true := hgoes 0 (Nat.succ_pos n)
    -- the first character is passed, and the loop goes on for one less behind it
    rw [passWhile_of_goes hhere hc, ih (fun k hk => hgoes (k + 1) (by omega)) hle' hstop,
      andThen_ok, hrest, hc, List.take_succ_cons]
    rfl

/-- A loop that looks at the next character passes those up to the first one that stops it. -/
theorem passWhile_next (p : Char → Bool) (c : Cursor) :
    c.passWhile (fun d => (d.peek 0).any p)
      = (.ok (c.rest.takeWhile p), c.skip (c.rest.takeWhile p).length) := by
  generalize hchars : c.rest = chars
  induction chars generalizing c with
  | nil => exact passWhile_of_stop (by simp [peek_zero, hchars])
  | cons first rest ih =>
    have hrest : c.bump.rest = rest := by rw [rest_bump, hchars, List.tail_cons]
    by_cases hfirst : p first = true
    · have hgoes : (c.peek 0).any p = true := by simpa [peek_zero, hchars] using hfirst
      rw [passWhile_of_goes hgoes hchars, ih c.bump hrest, andThen_ok,
        List.takeWhile_cons_of_pos hfirst]
      rfl
    · have hstop : (c.peek 0).any p = false := by simpa [peek_zero, hchars] using hfirst
      rw [passWhile_of_stop hstop, List.takeWhile_cons_of_neg hfirst]
      rfl

end PassWhile

/-! ### The parts of the scanner -/

/-- Passes a comment from its opening on, up to and with the first closing. -/
def stepComment (c : Cursor) : Scanned Unit :=
  c.next.andThen fun _ c₁ => c₁.next.andThen fun _ c₂ =>
    (c₂.passWhile fun d => !d.atEnd && !d.startsWith commentClose).andThen fun _ d =>
      if d.atEnd then d.refuse .openComment c.location "end of input"
      else d.next.andThen fun _ d₁ => d₁.next.andThen fun _ d₂ => (.ok (), d₂)

/-- Reads a name as long as it goes. -/
def stepName (c : Cursor) : Scanned String :=
  match c.peek 0 with
  | none => c.refuse .noIdentifier c.location "end of input"
  | some first =>
    if isNameStart first then
      c.next.andThen fun first d =>
        (d.passWhile fun e => (e.peek 0).any isNameContinue).andThen fun more e =>
          (.ok (String.ofList (first :: more)), e)
    else c.refuse .noIdentifier c.location (quote (String.ofList [first]))

/-- Reads up to the next double quote: where it stands is known before a character is passed. -/
def stepStringBody (c : Cursor) : Scanned String :=
  if c.rest.contains '"' then
    let body := c.rest.takeWhile (· != '"')
    (c.passWhile fun d => decide (d.offset < c.offset + body.length)).andThen fun _ d =>
      (.ok (String.ofList body), d)
  else c.refuse .openString c.location "end of input"

/-- The token that starts at the cursor.  Of the faults in the body of a string only that of the
    spelling is told again. -/
def stepToken (c : Cursor) (first : Char) : Scanned Token :=
  if first = '\r' ∨ first = '\n' then
    c.next.andThen fun value d =>
      if value = '\r' ∧ d.peek 0 = some '\n' then
        d.next.andThen fun value' e =>
          (.ok ⟨.newline, String.ofList [value, value'], c.location⟩, e)
      else (.ok ⟨.newline, String.ofList [value], c.location⟩, d)
  else if isNameStart first then
    c.stepName.andThen fun name d => (.ok ⟨.identifier, name, c.location⟩, d)
  else if first = '"' then
    c.next.andThen fun _ d =>
      match d.stepStringBody with
      | (.ok body, e) => e.next.andThen fun _ e' => (.ok ⟨.string, body, c.location⟩, e')
      | (.error (.misspelled _), e) => e.refuse .openString c.location "end of input"
      | (.error (.pastEnd location), e) => (.error (.pastEnd location), e)
  else
    let kind := (TokenKind.ofPunctuation? first).getD .stray
    c.next.andThen fun value d => (.ok ⟨kind, String.ofList [value], c.location⟩, d)

/-! ### It is the same scanner -/

/-- In front of the first closing none starts. -/
theorem not_closing_drop {body : List Char} (h : ¬ commentClose <:+: body) (rest : List Char)
    {k : Nat} (hk : k < body.length) :
    ¬ commentClose <+: (body ++ (commentClose ++ rest)).drop k := by
  have hinner : ¬ commentClose <:+: body.drop k := fun hinside =>
    h (hinside.trans (List.drop_suffix k body).isInfix)
  rw [List.drop_append_of_le_length (by omega)]
  rw [List.drop_eq_getElem_cons hk] at hinner ⊢
  exact not_closing_append (fun hopens => hinner hopens.isInfix) rest

/-- The inside of a comment is passed up to the first closing, or up to the end of the text. -/
theorem passWhile_comment (c : Cursor) :
    c.passWhile (fun d => !d.atEnd && !d.startsWith commentClose)
      = match commentLength? c.rest with
        | some n => (.ok (c.rest.take (n - 2)), c.skip (n - 2))
        | none => (.ok c.rest, c.skip c.rest.length) := by
  -- the loop looks at the end and at the closing, before every character
  have hgoes {d : Cursor} (hne : d.rest ≠ []) (hopen : ¬ commentClose <+: d.rest) :
      (!d.atEnd && !d.startsWith commentClose) = true := by
    have hstarts : d.startsWith commentClose = false :=
      Bool.eq_false_iff.mpr (mt (startsWith_iff (by decide)).mp hopen)
    simp [atEnd, hne, hstarts]
  by_cases hclose : commentClose <:+: c.rest
  · obtain ⟨body, rest, hc, hbody⟩ := exists_first_closing hclose
    -- no closing starts before the first one, so nothing stops the loop there
    have hinside : ∀ k < body.length,
        (!(c.skip k).atEnd && !(c.skip k).startsWith commentClose) = true := by
      intro k hk
      refine hgoes ?_ ?_
      · rw [rest_skip, hc, ne_eq, List.drop_eq_nil_iff, List.length_append]
        omega
      · rw [rest_skip, hc]
        exact not_closing_drop hbody rest hk
    have hstop : (!(c.skip body.length).atEnd && !(c.skip body.length).startsWith commentClose)
        = false := by
      have hstarts : (c.skip body.length).startsWith commentClose = true := by
        rw [startsWith_iff (by decide), rest_skip, hc, List.drop_left]
        exact List.prefix_append _ _
      simp [hstarts]
    have hle : body.length ≤ c.rest.length := by simp [hc]
    have hlength : commentLength? c.rest = some (body.length + 2) := by
      rw [hc]
      exact commentLength_append hbody rest
    rw [hlength, passWhile_eq hinside hle hstop]
    rfl
  · have hinside : ∀ k < c.rest.length,
        (!(c.skip k).atEnd && !(c.skip k).startsWith commentClose) = true := by
      intro k hk
      refine hgoes ?_ ?_
      · rw [rest_skip, ne_eq, List.drop_eq_nil_iff]
        omega
      · rw [rest_skip]
        exact fun hopens =>
          hclose (List.IsInfix.trans hopens.isInfix (List.drop_suffix k c.rest).isInfix)
    have hstop : (!(c.skip c.rest.length).atEnd && !(c.skip c.rest.length).startsWith commentClose)
        = false := by simp [atEnd]
    rw [commentLength_eq_none hclose, passWhile_eq hinside (Nat.le_refl _) hstop, List.take_length]

/-- To pass a comment character by character, looking for its closing at each of them, is to jump to
    the first closing. -/
theorem stepComment_eq (c : Cursor) : c.stepComment = c.skipComment := by
  unfold stepComment skipComment
  rcases c.next with ⟨fault | char, c₁⟩
  · rfl
  rw [andThen_ok]
  dsimp only
  rcases c₁.next with ⟨fault | char', c₂⟩
  · rfl
  rw [andThen_ok, passWhile_comment]
  dsimp only
  by_cases hclose : commentClose <:+: c₂.rest
  · obtain ⟨body, rest, hc, hbody⟩ := exists_first_closing hclose
    have hlength : commentLength? c₂.rest = some (body.length + 2) := by
      rw [hc]
      exact commentLength_append hbody rest
    -- the loop stops in front of the two characters of the closing
    have hrest : (c₂.skip body.length).rest = '*' :: '/' :: rest := by
      rw [rest_skip, hc, List.drop_left]
      rfl
    have hbump : (c₂.skip body.length).bump.rest = '/' :: rest := by rw [rest_bump, hrest]; rfl
    rw [hlength]
    dsimp only
    have hend : ¬ (c₂.skip body.length).atEnd = true := by
      rw [atEnd, hrest]
      simp
    rw [Nat.add_sub_cancel, andThen_ok, if_neg hend, next_of_cons hrest, andThen_ok,
      next_of_cons hbump, andThen_ok, skip_add]
    rfl
  · rw [commentLength_eq_none hclose]
    dsimp only
    rw [andThen_ok, if_pos (by simp [atEnd])]

/-- A name that is read character by character is the longest one. -/
theorem stepName_eq (c : Cursor) : c.stepName = c.scanName := by
  unfold stepName scanName
  rw [peek_zero]
  cases hc : c.rest with
  | nil => rfl
  | cons first rest =>
    have hrest : c.bump.rest = rest := by rw [rest_bump, hc, List.tail_cons]
    rw [List.head?_cons]
    dsimp only
    rw [next_of_cons hc, andThen_ok, passWhile_next, andThen_ok, hrest]
    rfl

/-- A string that is read character by character ends at the first quote, or is refused where the
    text ends. -/
theorem stepStringBody_eq (c : Cursor) : c.stepStringBody = c.scanStringBody := by
  unfold stepStringBody scanStringBody
  split
  · next hquote =>
    have hle : (c.rest.takeWhile (· != '"')).length ≤ c.rest.length :=
      (List.takeWhile_prefix _).length_le
    -- the loop goes by offsets, which count the characters that it has passed
    have hoffset {k : Nat} (hk : k ≤ (c.rest.takeWhile (· != '"')).length) :
        (c.skip k).offset = c.offset + k := offset_skip (by omega)
    have hpassed : ∀ k < (c.rest.takeWhile (· != '"')).length,
        decide ((c.skip k).offset < c.offset + (c.rest.takeWhile (· != '"')).length) = true := by
      intro k hk
      rw [hoffset (Nat.le_of_lt hk), decide_eq_true_eq]
      omega
    have hstop : decide ((c.skip (c.rest.takeWhile (· != '"')).length).offset
        < c.offset + (c.rest.takeWhile (· != '"')).length) = false := by
      rw [hoffset (Nat.le_refl _), decide_eq_false_iff_not]
      omega
    have hloop : c.passWhile
          (fun d => decide (d.offset < c.offset + (c.rest.takeWhile (· != '"')).length))
        = (.ok _, c.skip (c.rest.takeWhile (· != '"')).length) :=
      passWhile_eq hpassed hle hstop
    dsimp only
    rw [hloop, andThen_ok]
  · rfl

/-- Where the body of a string ends, the closing quote stands. -/
theorem scanStringBody_of_mem (h : '"' ∈ c.rest) :
    ∃ body d tail, c.scanStringBody = (.ok body, d) ∧ d.rest = '"' :: tail := by
  obtain ⟨body, tail, hc, hbody⟩ := List.eq_append_cons_of_mem h
  have htake : c.rest.takeWhile (· != '"') = body := by
    rw [hc]
    apply takeWhile_append_eq
    · intro ch hch
      have hne : ch ≠ '"' := fun heq => hbody (heq ▸ hch)
      simpa using hne
    · simp
  have hcontains : c.rest.contains '"' = true := by simpa using h
  refine ⟨String.ofList body, c.skip body.length, tail, ?_, ?_⟩
  · simp only [scanStringBody, hcontains, if_true, htake]
  · rw [rest_skip, hc, List.drop_left]

/-- So a token is the same whether it is read by characters or as a whole. -/
theorem stepToken_eq (hc : c.rest = first :: rest) : c.stepToken first = c.scanToken first := by
  have hrest : c.bump.rest = rest := by rw [rest_bump, hc, List.tail_cons]
  unfold stepToken scanToken
  rw [next_of_cons hc, stepName_eq]
  simp only [andThen_ok, stepStringBody_eq]
  split
  · next hbreak =>
    -- the two readings differ in how they look for the line feed behind a return
    unfold scanLineBreak
    rw [peek_zero, hrest, hc]
    by_cases hboth : first = '\r' ∧ rest.head? = some '\n'
    · obtain ⟨rfl, hhead⟩ := hboth
      obtain ⟨tail, rfl⟩ := List.head?_eq_some_iff.mp hhead
      rw [if_pos ⟨rfl, hhead⟩, next_of_cons hrest, andThen_ok]
      rfl
    · have hlone : ['\r', '\n'].isPrefixOf (first :: rest) = false := by
        rw [Bool.eq_false_iff, ne_eq, List.isPrefixOf_iff_prefix]
        rintro ⟨tail, htail⟩
        obtain ⟨rfl, rfl⟩ := List.cons.inj htail
        exact hboth ⟨rfl, rfl⟩
      rw [if_neg hboth, hlone]
      rfl
  split
  · rcases c.scanName with ⟨fault | name, d⟩ <;> rfl
  split
  · by_cases hquote : '"' ∈ c.bump.rest
    · obtain ⟨body, d, tail, hbody, hd⟩ := scanStringBody_of_mem hquote
      rw [hbody]
      dsimp only
      rw [next_of_cons hd, andThen_ok]
    · have hcontains : c.bump.rest.contains '"' = false := by simpa using hquote
      simp only [scanStringBody, hcontains, Bool.false_eq_true, if_false, refuse]
  · rfl

/-- Passes blanks and comments, up to the next token or line break. -/
def stepTrivia (c : Cursor) : Scanned Unit :=
  if c.atEnd then (.ok (), c)
  else if (c.peek 0).any isBlank then
    match h : c.next with
    | (.error fault, d) => (.error fault, d)
    | (.ok _, d) =>
      have : d.rest.length < c.rest.length := length_rest_next_lt h
      stepTrivia d
  else if c.startsWith commentOpen then
    match h : c.stepComment with
    | (.error fault, d) => (.error fault, d)
    | (.ok (), d) =>
      have : d.rest.length < c.rest.length := length_rest_skipComment_lt (stepComment_eq c ▸ h)
      stepTrivia d
  else (.ok (), c)
termination_by c.rest.length

/-- By induction on what is left, so are the blanks and comments before it. -/
theorem stepTrivia_eq (c : Cursor) : c.stepTrivia = c.skipTrivia := by
  -- each branch of one loop is the same branch of the other, by the tests that lead into it
  fun_induction skipTrivia c with
  | case1 c hc => rw [stepTrivia, if_pos (by simp [atEnd, hc])]
  | case2 c char rest hc hblank _ ih =>
    rw [stepTrivia, if_neg (by simp [atEnd, hc]), if_pos (by simpa [peek_zero, hc] using hblank)]
    split
    case h_1 hnext => cases (next_of_cons hc).symm.trans hnext
    case h_2 hnext =>
      cases (next_of_cons hc).symm.trans hnext
      exact ih
  | case3 c char rest hc hblank hopen fault d hd =>
    rw [stepTrivia, if_neg (by simp [atEnd, hc]), if_neg (by simpa [peek_zero, hc] using hblank),
      if_pos hopen]
    rw [← stepComment_eq] at hd
    split
    case h_1 hcomment =>
      cases hd.symm.trans hcomment
      rfl
    case h_2 hcomment => cases hd.symm.trans hcomment
  | case4 c char rest hc hblank hopen d hd _ ih =>
    rw [stepTrivia, if_neg (by simp [atEnd, hc]), if_neg (by simpa [peek_zero, hc] using hblank),
      if_pos hopen]
    rw [← stepComment_eq] at hd
    split
    case h_1 hcomment => cases hd.symm.trans hcomment
    case h_2 hcomment =>
      cases hd.symm.trans hcomment
      exact ih
  | case5 c char rest hc hblank hopen =>
    rw [stepTrivia, if_neg (by simp [atEnd, hc]), if_neg (by simpa [peek_zero, hc] using hblank),
      if_neg hopen]

/-- Reads the next token, passing every character with `Cursor.next`. -/
def stepNext (c : Cursor) : Scanned Token :=
  c.stepTrivia.andThen fun _ d =>
    match d.rest with
    | [] => (.ok ⟨.endOfInput, "EOF", d.location⟩, d)
    | first :: _ => d.stepToken first

/-- The scanner that passes characters one by one finds what the other one finds. -/
theorem stepNext_eq (c : Cursor) : c.stepNext = c.nextToken := by
  unfold stepNext nextToken
  rw [stepTrivia_eq]
  rcases c.skipTrivia with ⟨fault | _, d⟩
  · rfl
  rw [andThen_ok]
  dsimp only
  cases hrest : d.rest with
  | nil => rfl
  | cons first rest => exact stepToken_eq hrest

end Cursor

end ScopedQuery
