import ScopedQuery.CommandLine.Run
import ScopedQuery.Proofs.Carry
import ScopedQuery.Proofs.Grammar
import ScopedQuery.Proofs.Lexeme

namespace ScopedQuery

open Text CommandLine

/-!
# Blanks and comments make no difference

Wherever the items of a text meet, blanks and closed comments can be put in: the text means what it
meant before, or is refused for the same reason, and only the places behind them move.

* `Cursor.Edge` — where the items of a text start and end.
* `Text.inserted`, `movedOffset` — a text with characters put in, and where an offset moves.
* `Cursor.Behind`, `Cursor.Before` — cursors in both texts that stand at the same place.
* `Cursor.carries_aligned` — from there on they find the same tokens.
* `ofText_inserted` — what becomes of the outcome.
-/

/-! ### Where items meet -/

namespace Cursor

variable {c d e : Cursor} {t : Token}

/-- The cursor `d` stands where an item of the text starts or ends: passing single blanks, whole
    comments and tokens one comes there from `c`.  No item that has a fault is passed. -/
inductive Edge : Cursor → Cursor → Prop
  | here {c : Cursor} : Edge c c
  | blank {c d : Cursor} {first : Char} {rest : List Char} :
    c.rest = first :: rest → isBlank first = true → Edge c.bump d → Edge c d
  | comment {c d e : Cursor} :
    c.startsWith commentOpen = true → c.skipComment = (.ok (), e) → Edge e d → Edge c d
  | token {c d e : Cursor} {t : Token} : c.nextToken = (.ok t, e) → Edge e d → Edge c d

/-- Edges may be reached in several steps. -/
theorem Edge.trans (h : Edge c e) (h' : Edge e d) : Edge c d := by
  induction h with
  | here => exact h'
  | blank hc hblank _ ih => exact .blank hc hblank (ih h')
  | comment hopen hskip _ ih => exact .comment hopen hskip (ih h')
  | token hnext _ ih => exact .token hnext (ih h')

/-- An edge is further on in the text. -/
theorem Edge.reaches (h : Edge c d) : c.Reaches d := by
  induction h with
  | here => exact .refl _
  | blank _ _ _ ih => exact (Reaches.bump _).trans ih
  | @comment c d e _ hskip _ ih =>
    have hreaches := reaches_skipComment c
    rw [hskip] at hreaches
    exact hreaches.trans ih
  | token hnext _ ih => exact (Reaches.of_nextToken hnext).trans ih

/-- A comment that is passed is closed. -/
theorem exists_of_skipComment (hopen : c.startsWith commentOpen = true)
    (h : c.skipComment = (.ok (), e)) :
    ∃ body, ¬ commentClose <:+: body ∧
      c.rest = commentOpen ++ (body ++ (commentClose ++ e.rest)) ∧
      e = c.skip (body.length + 4) := by
  rw [startsWith_iff (by decide)] at hopen
  obtain ⟨tail, hc⟩ := hopen
  rw [skipComment_of_open hc.symm] at h
  by_cases hclose : commentClose <:+: tail
  · obtain ⟨body, rest, rfl, hbody⟩ := exists_first_closing hclose
    obtain ⟨-, -, hrest⟩ := skipComment_of_closed hbody hc.symm
    rw [commentLength_append hbody] at h
    obtain rfl : c.skip (body.length + 4) = e := by simpa using h
    exact ⟨body, hbody, by rw [hrest, hc], rfl⟩
  · rw [commentLength_eq_none hclose] at h
    cases h

/-- In front of an edge there are only blanks and comments, or a token that ends before it. -/
theorem Edge.trivia_or_token (h : Edge c d) :
    (∃ z, IsTrivia z ∧ c.rest = z ++ d.rest ∧ d = c.skip z.length) ∨
      ∃ t e, c.nextToken = (.ok t, e) ∧ t.kind ≠ .endOfInput ∧ Edge e d := by
  -- the way to the edge is a row of blanks and comments, up to the first token if there is one
  induction h with
  | here => exact .inl ⟨[], .nil, rfl, rfl⟩
  | @blank c d first rest hc hblank _ ih =>
    have hbump : c.bump.rest = rest := by rw [rest_bump, hc]; rfl
    rcases ih with ⟨z, hz, hrest, rfl⟩ | ⟨t, e, hnext, hkind, hedge⟩
    · refine .inl ⟨first :: z, .blank hblank hz, ?_, rfl⟩
      rw [hc, ← hbump, hrest]
      rfl
    · refine .inr ⟨t, e, ?_, hkind, hedge⟩
      have hblanks : IsTrivia [first] := .blank hblank .nil
      rw [nextToken_of_trivia hblanks hc]
      exact hnext
  | @comment c d e hopen hskip _ ih =>
    obtain ⟨body, hbody, hc, he⟩ := exists_of_skipComment hopen hskip
    rcases ih with ⟨z, hz, hrest, rfl⟩ | ⟨t, f, hnext, hkind, hedge⟩
    · refine .inl ⟨_, .comment hbody hz, ?_, ?_⟩
      · rw [hc, hrest]
        simp
      · rw [length_comment, skip_add, ← he]
    · refine .inr ⟨t, f, ?_, hkind, hedge⟩
      have hcomment : IsTrivia (commentOpen ++ (body ++ (commentClose ++ []))) :=
        .comment hbody .nil
      have hrest : c.rest = (commentOpen ++ (body ++ (commentClose ++ []))) ++ e.rest := by
        rw [hc]
        simp
      rw [nextToken_of_trivia hcomment hrest, length_comment, skip_add, ← he]
      exact hnext
  | @token c d e t hnext hedge ih =>
    by_cases hkind : t.kind = .endOfInput
    · -- nothing follows the end of the text
      obtain ⟨g, hg, -, he, hc, hlexeme | ⟨-, -, hnil⟩⟩ := nextToken_eq_ok hnext
      · exact absurd hkind hlexeme.kind_ne
      · have hwritten : t.written = [] := by simp [Token.written, hkind]
        obtain ⟨n, hd⟩ := hedge.reaches
        rw [skip_of_nil hnil] at hd
        rw [hwritten] at he hc
        exact .inl ⟨g, hg, by rw [hd]; exact hc, by rw [hd]; exact he⟩
    · exact .inr ⟨t, e, hnext, hkind, hedge⟩

/-- Behind blanks and comments there is an edge. -/
theorem Edge.of_trivia {g rest : List Char} (hg : IsTrivia g) (hc : c.rest = g ++ rest) :
    Edge c (c.skip g.length) := by
  induction hg generalizing c with
  | nil => exact .here
  | @blank first g hblank _ ih =>
    have hbump : c.bump.rest = g ++ rest := by rw [rest_bump, hc]; rfl
    exact .blank hc hblank (ih hbump)
  | @comment body g hbody _ ih =>
    have hc' : c.rest = commentOpen ++ (body ++ (commentClose ++ (g ++ rest))) := by simpa using hc
    obtain ⟨hopen, hskip, hbehind⟩ := skipComment_of_closed hbody hc'
    rw [length_comment, skip_add]
    exact .comment hopen hskip (ih hbehind)

/-- Every token that is found starts and ends at an edge. -/
theorem Edge.of_token (h : Edge c d) (hnext : d.nextToken = (.ok t, e)) :
    ∃ b, Edge c b ∧ b.location = t.location ∧ Edge c e := by
  obtain ⟨g, hg, hlocation, -, hd, -⟩ := nextToken_eq_ok hnext
  exact ⟨d.skip g.length, h.trans (.of_trivia hg hd), hlocation.symm, h.trans (.token hnext .here)⟩

end Cursor

/-! ### Texts with something put in -/

/-- The text `source` with the characters of `u` put in at an offset. -/
def Text.inserted (source : String) (i : Nat) (u : String) : String :=
  String.ofList (source.toList.take i ++ (u.toList ++ source.toList.drop i))

/-- Where an offset moves if `n` characters are put in at `i`. -/
def movedOffset (i n : Nat) (offset : Int) : Int := if offset < i then offset else offset + n

/-- The tokens of a text told again by `text`, which has `n` more characters at `i`. -/
def Carrier.moving (text : String) (i n : Nat) : Carrier where
  text := id
  place l :=
    { ((Cursor.ofText text).skip (movedOffset i n l.offset).toNat).location with
      offset := movedOffset i n l.offset }

/-- A token does not go on with blanks and comments. -/
theorem Token.Lexeme.of_trivia {t : Token} {rest u : List Char} (h : t.Lexeme rest)
    (hu : IsTrivia u) : t.Lexeme (u ++ rest) := by
  -- no token goes on with a blank or a slash, so it ends in front of either
  have hfirst {first : Char} {tail : List Char} (hne : first ≠ '\n' ∧ first ≠ '*')
      (hname : isNameContinue first = false) : t.Lexeme (first :: tail) := by
    refine ⟨h.spelled, h.kind_ne, ?_⟩
    unfold EndsBefore
    split
    · exact endsName_cons hname
    · exact fun _ => by simpa using hne.1
    · exact fun _ => by simpa using hne.2
    · trivial
  cases hu with
  | nil => exact h
  | @blank first tail hblank _ =>
    have hcases : first = ' ' ∨ first = '\t' := by
      simpa [Cursor.isBlank, Cursor.blanks] using hblank
    rcases hcases with rfl | rfl
    · exact hfirst (by decide) (by decide +kernel)
    · exact hfirst (by decide) (by decide +kernel)
  | comment _ _ => exact hfirst (by decide) (by decide +kernel)

namespace Cursor

/-- The cursor stands where a cursor stands that has passed as many characters of `text`. -/
def StandsIn (text : String) (c : Cursor) : Prop := c = (ofText text).skip c.offset

/-- A cursor that goes on still stands in the text. -/
theorem StandsIn.skip {text : String} {c : Cursor} {n : Nat} (h : c.StandsIn text)
    (hle : n ≤ c.rest.length) : (c.skip n).StandsIn text := by
  rw [StandsIn, offset_skip hle, skip_add, ← h]

/-- A cursor at the moved offset stands at the moved place. -/
theorem StandsIn.location {text : String} {c c' : Cursor} {i n : Nat} (h : c'.StandsIn text)
    (hoffset : (c'.offset : Int) = movedOffset i n c.offset) :
    c'.location = (Carrier.moving text i n).place c.location := by
  have hline := congrArg Cursor.line h
  have hcol := congrArg Cursor.col h
  simp only [Cursor.location, Carrier.moving, ← hoffset, Int.toNat_natCast, ← hline, ← hcol]

section Insertion

variable (text : String) (d : Cursor) (u : List Char)

/-- The cursors stand behind the edge `d` and in front of the same characters: `c'` in `text`, where
    the characters of `u` have been put in. -/
structure Behind (c c' : Cursor) : Prop where
  rest : c'.rest = c.rest
  le : d.offset ≤ c.offset
  offset : c'.offset = c.offset + u.length
  stands : c'.StandsIn text

/-- The cursors stand in front of the edge `d`, and of the same characters up to there. -/
structure Before (c c' : Cursor) : Prop where
  edge : c.Edge d
  rest : ∃ w, c.rest = w ++ d.rest ∧ c'.rest = w ++ (u ++ d.rest)
  offset : c'.offset = c.offset
  stands : c'.StandsIn text

variable {text d u} {c c' e : Cursor} {t : Token}

/-- Two cursors behind an insertion stay as far apart as they are. -/
theorem Behind.skip {n : Nat} (h : Behind text d u c c') (hle : n ≤ c.rest.length) :
    Behind text d u (c.skip n) (c'.skip n) := by
  have hle' : n ≤ c'.rest.length := by rwa [h.rest]
  have hoffset := offset_skip hle
  have hoffset' := offset_skip hle'
  refine ⟨by rw [rest_skip, rest_skip, h.rest], ?_, ?_, h.stands.skip hle'⟩
  · have := h.le
    omega
  · have := h.offset
    omega

/-- So their places differ by what was inserted. -/
theorem Behind.location (h : Behind text d u c c') :
    c'.location = (Carrier.moving text d.offset u.length).place c.location := by
  apply h.stands.location
  have hle := h.le
  rw [movedOffset, if_neg (by omega), h.offset]
  rfl

/-- Behind the edge the tokens are the same. -/
theorem Behind.token (h : Behind text d u c c') (hnext : c.nextToken = (.ok t, e)) :
    ∃ e', c'.nextToken = (.ok (t.carry (.moving text d.offset u.length)), e') ∧
      Behind text d u e e' := by
  obtain ⟨g, hg, hlocation, he, hc, hfound⟩ := nextToken_eq_ok hnext
  have hfront : Behind text d u (c.skip g.length) (c'.skip g.length) := h.skip (by simp [hc])
  have hrest : c'.rest = g ++ (t.written ++ e.rest) := by rw [h.rest, hc]
  refine ⟨(c'.skip g.length).skip t.written.length, ?_, ?_⟩
  · rw [nextToken_of_found hg hrest hfound, Token.carry_of_text rfl, hlocation, hfront.location]
  · rw [he]
    exact hfront.skip (by simp [hc])

/-- What has no end is told again at the place that has moved. -/
def MovesTo (text : String) (i n : Nat) (fault fault' : ScanFault) : Prop :=
  ∃ (problem : Problem) (l : Location) (source : String),
    fault = .misspelled (problem.report l "end of input" source) ∧
    fault' = .misspelled
      (problem.report ((Carrier.moving text i n).place l) "end of input" text)

/-- Behind the edge the faults are the same. -/
theorem Behind.fault {fault : ScanFault} (h : Behind text d u c c')
    (hnext : c.nextToken = (.error fault, e)) :
    ∃ fault' e', c'.nextToken = (.error fault', e') ∧
      MovesTo text d.offset u.length fault fault' := by
  obtain ⟨g, chars, problem, hg, hc, hunclosed, rfl⟩ := nextToken_eq_error hnext
  have hfront : Behind text d u (c.skip g.length) (c'.skip g.length) := h.skip (by simp [hc])
  have hrest : c'.rest = g ++ chars := by rw [h.rest, hc]
  have hbehind : (c'.skip g.length).rest = chars := by simp [hrest]
  obtain ⟨e', he'⟩ := nextToken_of_unclosed (hbehind.symm ▸ hunclosed)
  have htext : (c'.skip g.length).text = text := by
    rw [Cursor.text, hfront.stands, source_skip]
    exact String.ofList_toList
  rw [htext, hfront.location, ← nextToken_of_trivia hg hrest] at he'
  exact ⟨_, e', he', problem, _, _, rfl, rfl⟩

/-- Where the trivia that is put in starts before the next token, behind it the cursors find the
    same. -/
theorem Before.behind {z : List Char} (hu : IsTrivia u) (h : Before text d u c c')
    (hz : IsTrivia z) (hc : c.rest = z ++ d.rest) (hd : d = c.skip z.length) :
    ∃ f', Behind text d u d f' ∧ c.nextToken = d.nextToken ∧ c'.nextToken = f'.nextToken := by
  obtain ⟨w, hw, hw'⟩ := h.rest
  obtain rfl : w = z := List.append_cancel_right (hw.symm.trans hc)
  -- what is put in stands behind the blanks that lead to the edge
  have hc' : c'.rest = (w ++ u) ++ d.rest := by rw [hw', List.append_assoc]
  have hle : (w ++ u).length ≤ c'.rest.length := by simp [hc']
  have hoffset : d.offset = c.offset + w.length := by
    rw [hd]
    exact offset_skip (by simp [hc])
  have hoffset' : (c'.skip (w ++ u).length).offset = d.offset + u.length := by
    rw [offset_skip hle, h.offset, List.length_append, hoffset]
    omega
  have hrest : (c'.skip (w ++ u).length).rest = d.rest := by simp [hc']
  refine ⟨c'.skip (w ++ u).length, ⟨hrest, Nat.le_refl _, hoffset', h.stands.skip hle⟩, ?_, ?_⟩
  · rw [hd]
    exact nextToken_of_trivia hz hc
  · exact nextToken_of_trivia (hz.append hu) hc'

/-- A token that ends in front of the edge stays one. -/
theorem Before.token (hu : IsTrivia u) (h : Before text d u c c')
    (hnext : c.nextToken = (.ok t, e)) (hkind : t.kind ≠ .endOfInput) (hedge : e.Edge d) :
    ∃ e', c'.nextToken = (.ok (t.carry (.moving text d.offset u.length)), e') ∧
      Before text d u e e' := by
  obtain ⟨g, hg, hlocation, he, hc, hlexeme | ⟨hend, -, -⟩⟩ := nextToken_eq_ok hnext
  case inr => exact absurd hend hkind
  obtain ⟨w, hw, hw'⟩ := h.rest
  -- what follows the token up to the edge
  obtain ⟨n, hn⟩ := hedge.reaches
  have hbehind : e.rest = e.rest.take n ++ d.rest := by
    rw [hn, rest_skip, List.take_append_drop]
  have hsplit : w = g ++ (t.written ++ e.rest.take n) := by
    have hboth : w ++ d.rest = (g ++ (t.written ++ e.rest.take n)) ++ d.rest := by
      rw [← hw, hc, List.append_assoc, List.append_assoc, ← hbehind]
    exact List.append_cancel_right hboth
  have hc' : c'.rest = g ++ (t.written ++ (e.rest.take n ++ (u ++ d.rest))) := by
    rw [hw', hsplit]
    simp
  have hlexeme' : t.Lexeme (e.rest.take n ++ (u ++ d.rest)) := by
    rcases hnil : e.rest.take n with _ | ⟨first, tail⟩
    · rw [hnil] at hbehind
      exact (hbehind ▸ hlexeme).of_trivia hu
    · refine hlexeme.congr ?_
      rw [hbehind, hnil]
      rfl
  -- the token starts in front of the edge
  have hdoffset : d.offset = c.offset + w.length := by
    rw [h.edge.reaches.eq_skip hw]
    exact offset_skip (by simp [hw])
  have hpositive : 0 < t.written.length :=
    List.length_pos_iff.mpr (written_ne_nil hlexeme)
  have hlength : w.length = g.length + (t.written.length + (e.rest.take n).length) := by
    simp only [hsplit, List.length_append]
  have hle : g.length ≤ c.rest.length := by simp [hc]
  have hle' : g.length ≤ c'.rest.length := by simp [hc']
  have hfront : (c'.skip g.length).location
      = (Carrier.moving text d.offset u.length).place (c.skip g.length).location := by
    apply (h.stands.skip hle').location
    rw [offset_skip hle, offset_skip hle', h.offset, movedOffset, if_pos (by omega)]
  have hpassed : g.length + t.written.length ≤ c.rest.length := by simp [hc]
  have hpassed' : g.length + t.written.length ≤ c'.rest.length := by simp [hc']
  refine ⟨(c'.skip g.length).skip t.written.length, ?_, hedge, ⟨e.rest.take n, hbehind, ?_⟩, ?_, ?_⟩
  · rw [nextToken_of_found hg hc' (.inl hlexeme'), Token.carry_of_text rfl, hlocation, hfront]
  · simp [hc']
  · rw [he, ← skip_add, ← skip_add, offset_skip hpassed, offset_skip hpassed', h.offset]
  · rw [← skip_add]
    exact h.stands.skip hpassed'

variable (text d u) in
/-- The cursors stand at the same place of their texts. -/
def Aligned (c c' : Cursor) : Prop := Before text d u c c' ∨ Behind text d u c c'

/-- The text with something put in is the text told again. -/
theorem carries_aligned (hu : IsTrivia u) :
    TokenFeed.Carries (.moving text d.offset u.length) (Aligned text d u)
      (MovesTo text d.offset u.length) where
  token := by
    rintro c e c' t (h | h) hnext
    · rcases h.edge.trivia_or_token with ⟨z, hz, hc, hd⟩ | ⟨t', e', hnext', hkind, hedge⟩
      · obtain ⟨f', hbehind, hsame, hsame'⟩ := h.behind hu hz hc hd
        obtain ⟨e', hnext', hrest⟩ := hbehind.token (hsame.symm.trans hnext)
        exact ⟨e', hsame'.trans hnext', fun _ => .inr hrest⟩
      · obtain ⟨rfl, rfl⟩ : t' = t ∧ e' = e := by simpa using hnext'.symm.trans hnext
        obtain ⟨e'', hfound, hrest⟩ := h.token hu hnext' hkind hedge
        exact ⟨e'', hfound, fun _ => .inl hrest⟩
    · obtain ⟨e', hnext', hrest⟩ := h.token hnext
      exact ⟨e', hnext', fun _ => .inr hrest⟩
  fault := by
    rintro c e c' fault (h | h) hnext
    · rcases h.edge.trivia_or_token with ⟨z, hz, hc, hd⟩ | ⟨t', e', hnext', -, -⟩
      · obtain ⟨f', hbehind, hsame, hsame'⟩ := h.behind hu hz hc hd
        obtain ⟨fault', e', hnext', hmoves⟩ := hbehind.fault (hsame.symm.trans hnext)
        exact ⟨fault', e', hsame'.trans hnext', hmoves⟩
      · cases hnext'.symm.trans hnext
    · exact h.fault hnext

/-- Both texts are aligned at their start. -/
theorem aligned_ofText {source u : String} (hedge : (ofText source).Edge d) :
    Aligned (inserted source d.offset u) d u.toList (ofText source)
      (ofText (inserted source d.offset u)) := by
  have hsource : d.source = source.toList := hedge.reaches.source_eq
  have hd : d.rest = source.toList.drop d.offset := by rw [d.rest_eq, hsource]
  refine .inl ⟨hedge, ⟨source.toList.take d.offset, ?_, ?_⟩, rfl, rfl⟩
  · rw [hd, List.take_append_drop]
    rfl
  · rw [hd]
    exact String.toList_ofList

end Insertion

end Cursor

/-- **Blanks and comments make no difference.**  Where items of a text meet, blanks and closed
    comments can be put in: a query is read exactly if one was, and agrees with it, or the error has
    the kind and the wording of what was looked for and found.  The offsets from there on move by
    the length of what was put in. -/
theorem ofText_inserted {source u : String} {d : Cursor} (hedge : (Cursor.ofText source).Edge d)
    (hu : IsTrivia u.toList) :
    let moved := movedOffset d.offset u.length
    let outcome := Query.ofText source
    let outcome' := Query.ofText (inserted source d.offset u)
    ((∃ q', outcome' = .ok q') ↔ ∃ q, outcome = .ok q) ∧
    (∀ q, outcome = .ok q → ∃ q' place, outcome' = .ok q' ∧ q'.agrees q = true ∧
      q' = q.carry ⟨id, place⟩ ∧ ∀ l, (place l).offset = moved l.offset) ∧
    ∀ failure, outcome = .error failure → ∃ failure' e e', outcome' = .error failure' ∧
      diagnosticOf? failure = some e ∧ diagnosticOf? failure' = some e' ∧
      e'.kind = e.kind ∧ e'.expected = e.expected ∧ e'.found = e.found ∧
      e'.location.offset = moved e.location.offset := by
  intro moved outcome outcome'
  obtain ⟨us, e, c, hcourse⟩ := exists_course .unread (Cursor.ofText source)
  obtain ⟨e', c', hcourse', hending⟩ :=
    hcourse.carry (Cursor.carries_aligned hu) (Cursor.aligned_ofText hedge)
  have hout : outcome = e.outcome source := Cursor.ofText_of_course hcourse
  have hout' : outcome' = e'.outcome (inserted source d.offset u) :=
    Cursor.ofText_of_course hcourse'
  rw [hout, hout']
  -- the endings are the same but for places, and a place moves by its offset only
  cases hending with
  | missing hmoves =>
    obtain ⟨problem, l, text, rfl, rfl⟩ := hmoves
    refine ⟨by simp, by simp, ?_⟩
    intro failure hfailure
    obtain rfl := Except.error.inj hfailure
    exact ⟨_, _, _, rfl, rfl, rfl, rfl, rfl, rfl, rfl⟩
  | @complete t q =>
    refine ⟨⟨fun _ => ⟨q, rfl⟩, fun _ => ⟨_, rfl⟩⟩, ?_, ?_⟩
    · intro q' hq
      obtain rfl := Except.ok.inj hq
      exact ⟨_, _, rfl, Query.agrees_carry rfl q, rfl, fun _ => rfl⟩
    · intro failure hfailure
      cases hfailure
  | @refused t problem =>
    refine ⟨by simp, by simp, ?_⟩
    intro failure hfailure
    obtain rfl := Except.error.inj hfailure
    refine ⟨_, _, _, rfl, rfl, rfl, ?_, ?_, ?_, rfl⟩
    · exact problem.kind_carry _ t
    · exact congrArg some (problem.expected_carry _ t)
    · exact congrArg some (Token.describe_carry rfl t)

/-- A comment that looks like the start of a string, between two strings. -/
theorem ofText_inserted_of_quote :
    ∃ q q', Query.ofText "\"a\"\"b\"" = .ok q ∧ Query.ofText "\"a\"/*\"*/\t\"b\"" = .ok q' ∧
      q'.agrees q = true := by
  have hlexeme : (⟨.string, "a", {}⟩ : Token).Lexeme "\"b\"".toList :=
    ⟨by simp [Token.IsSpelled], by decide, trivial⟩
  have hedge : (Cursor.ofText "\"a\"\"b\"").Edge ((Cursor.ofText "\"a\"\"b\"").skip 3) :=
    .token (Cursor.nextToken_of_lexeme hlexeme rfl) .here
  have hquote : ¬ Cursor.commentClose <:+: ['"'] := by decide
  have htrivia : IsTrivia "/*\"*/\t".toList := .comment hquote (.blank (by decide) .nil)
  obtain ⟨-, hread, -⟩ := ofText_inserted hedge htrivia
  obtain ⟨q, hq⟩ : ∃ q, Query.ofText "\"a\"\"b\"" = .ok q := exists_of_isOk (by decide +kernel)
  obtain ⟨q', -, hq', hagrees, -⟩ := hread q hq
  exact ⟨q, q', hq, hq', hagrees⟩

end ScopedQuery
