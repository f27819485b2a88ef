import ScopedQuery.Proofs.Lexeme
import ScopedQuery.Proofs.ValidPrefix

namespace ScopedQuery

/-!
# Tokens on demand

A reader asks for a token only when it has to look at it.  Finding all tokens of the text first
makes no difference, and what stands behind the token at which a query is refused makes none
either.

* `Cursor.eager` — the tokens of a text up to its first fault.
* `Course.replay` — a text is read as the list of these tokens is, until a token is missing.
* `Cursor.AgreesFor` — two cursors with the same characters before them for some length.
* `Cursor.AgreesFor.course` — what is refused within that length is refused at the other cursor too.
* `run_eq_replay` — both facts for whole texts.
-/

namespace Cursor

/-- The tokens of a text up to its end or to its first fault. -/
def eager (c : Cursor) : List Token × Option ScanFault :=
  match h : c.nextToken with
  | (.error fault, _) => ([], some fault)
  | (.ok t, d) =>
    if hkind : t.kind = .endOfInput then ([t], none)
    else
      have : d.rest.length < c.rest.length := length_rest_nextToken_lt h hkind
      let (ts, fault) := d.eager
      (t :: ts, fault)
termination_by c.rest.length

section Equations

variable {c d : Cursor} {t : Token}

/-- Reading ahead stops at the first fault. -/
theorem eager_of_error {fault : ScanFault} (h : c.nextToken = (.error fault, d)) :
    c.eager = ([], some fault) := by
  rw [eager]
  split <;> rename_i h' <;> cases h.symm.trans h'
  rfl

/-- It stops at the end of the input as well. -/
theorem eager_of_end (h : c.nextToken = (.ok t, d)) (hkind : t.kind = .endOfInput) :
    c.eager = ([t], none) := by
  rw [eager]
  split <;> rename_i h' <;> cases h.symm.trans h'
  exact dif_pos hkind

/-- It goes on behind any other token. -/
theorem eager_of_token (h : c.nextToken = (.ok t, d)) (hkind : t.kind ≠ .endOfInput) :
    c.eager = (t :: d.eager.1, d.eager.2) := by
  rw [eager]
  split <;> rename_i h' <;> cases h.symm.trans h'
  exact dif_neg hkind

end Equations

/-- The list of all tokens is given where no fault is found. -/
theorem tokens_eq_eager (c : Cursor) :
    c.tokens.1 = match c.eager.2 with
      | none => .ok c.eager.1
      | some fault => .error fault := by
  have hfrom (read : Array Token) (c : Cursor) : (c.tokensFrom read).1 = match c.eager.2 with
      | none => .ok (read.toList ++ c.eager.1)
      | some fault => .error fault := by
    fun_induction tokensFrom read c with
    | case1 read c fault d h => rw [eager_of_error h]
    | case2 read c t d h hkind => rw [eager_of_end h hkind, Array.toList_push]
    | case3 read c t d h hkind _ ih =>
      rw [ih, eager_of_token h hkind]
      simp
  exact hfrom #[] c

end Cursor

/-! ### Reading from the list of all tokens -/

/-- The ending, where a fault is found as a list without further tokens. -/
def Ending.exhausted {ε : Type} : Ending ε → Ending Exhausted
  | .missing _ => .missing .noMoreTokens
  | .complete last q => .complete last q
  | .refused last problem => .refused last problem

/-- A text is read as the list of its tokens is. -/
theorem Course.replay {c : Standing} {s s' : Cursor} {us : List Token} {e : Ending ScanFault}
    (h : Course c s us e s') (text : String) :
    (∃ rest, Course c (⟨s.eager.1, text⟩ : TokenList) us e.exhausted ⟨rest, text⟩) ∧
      ∀ fault, e = .missing fault → s.eager.2 = some fault := by
  -- the list is what the rest of the text gives, so each token moves both on
  induction h with
  | missing hnext =>
    rw [Cursor.eager_of_error hnext]
    refine ⟨⟨[], .missing rfl⟩, fun fault hfault => ?_⟩
    cases hfault
    rfl
  | @complete c s s' t q hnext hpush =>
    -- the list may end here, and otherwise goes on behind the query
    refine ⟨?_, by simp⟩
    by_cases hkind : t.kind = .endOfInput
    · rw [Cursor.eager_of_end hnext hkind]
      exact ⟨_, .complete rfl hpush⟩
    · rw [Cursor.eager_of_token hnext hkind]
      exact ⟨_, .complete rfl hpush⟩
  | @refused c s s' t problem hnext hpush =>
    refine ⟨?_, by simp⟩
    by_cases hkind : t.kind = .endOfInput
    · rw [Cursor.eager_of_end hnext hkind]
      exact ⟨_, .refused rfl hpush⟩
    · rw [Cursor.eager_of_token hnext hkind]
      exact ⟨_, .refused rfl hpush⟩
  | further hnext hpush _ ih =>
    obtain ⟨⟨rest, hcourse⟩, hfault⟩ := ih
    have hkind : _ ≠ TokenKind.endOfInput := fun hend => Standing.push_endOfInput hend hpush
    rw [Cursor.eager_of_token hnext hkind]
    exact ⟨⟨rest, .further rfl hpush hcourse⟩, hfault⟩

/-! ### The places of tokens and of faults -/

namespace Cursor

variable {c d : Cursor} {t : Token}

/-- A cursor that goes on has no smaller offset. -/
theorem Reaches.offset_le (h : c.Reaches d) : c.offset ≤ d.offset := by
  obtain ⟨n, hle, rfl⟩ := h.exists_le
  rw [offset_skip hle]
  omega

/-- A token stands between the cursors before and behind it. -/
theorem offset_of_nextToken (h : c.nextToken = (.ok t, d)) :
    ∃ k : Nat, t.location.offset = k ∧ c.offset ≤ k ∧ d.offset = k + t.written.length := by
  obtain ⟨g, -, hlocation, rfl, hc, -⟩ := nextToken_eq_ok h
  have hle : g.length ≤ c.rest.length := by
    rw [hc]
    simp
  have hle' : t.written.length ≤ (c.skip g.length).rest.length := by
    rw [rest_skip, hc]
    simp
  refine ⟨(c.skip g.length).offset, by rw [hlocation]; rfl, ?_, offset_skip hle'⟩
  rw [offset_skip hle]
  omega

/-- Every fault of a text is one of its spelling, and stands behind all tokens before it. -/
theorem offset_lt_of_eager {fault : ScanFault} (h : c.eager.2 = some fault) :
    ∃ lexical, fault = .misspelled lexical ∧ (c.offset : Int) ≤ lexical.location.offset ∧
      ∀ t ∈ c.eager.1, t.location.offset < lexical.location.offset := by
  fun_induction eager c with
  | case1 c fault' d hnext =>
    obtain rfl : fault' = fault := by simpa using h
    obtain ⟨g, chars, problem, -, hc, -, rfl⟩ := nextToken_eq_error hnext
    refine ⟨_, rfl, ?_, by simp⟩
    show (c.offset : Int) ≤ (c.skip g.length).offset
    have hle := (Reaches.skip g.length c).offset_le
    omega
  | case2 c t d hnext hkind => cases h
  | case3 c t d hnext hkind _ ts fault' heager ih =>
    rw [heager] at ih
    obtain ⟨lexical, rfl, hle, hlt⟩ := ih h
    -- the fault is behind the token, which has characters
    obtain ⟨k, hk, hck, hd⟩ := offset_of_nextToken hnext
    have hwritten : 0 < t.written.length := length_written_pos hnext hkind
    refine ⟨lexical, rfl, by omega, ?_⟩
    rw [List.forall_mem_cons]
    exact ⟨by omega, hlt⟩

/-! ### Two texts with a common beginning -/

/-- The cursors stand at the same place, and have the same `n` characters before them. -/
def AgreesFor (n : Nat) (c c' : Cursor) : Prop :=
  c'.location = c.location ∧
    ∃ x y y', x.length = n ∧ c.rest = x ++ y ∧ c'.rest = x ++ y'

/-- To pass a character the next one has to be looked at, and no other. -/
theorem AgreesFor.bump {n : Nat} {c c' : Cursor} (h : AgreesFor (n + 1) c c') (hn : 0 < n) :
    AgreesFor n c.bump c'.bump := by
  obtain ⟨hlocation, x, y, y', hx, hc, hc'⟩ := h
  obtain _ | ⟨first, x⟩ := x
  · simp at hx
  obtain _ | ⟨second, x⟩ := x
  · simp at hx
    omega
  refine ⟨?_, second :: x, y, y', by simpa using hx, by simp [hc], by simp [hc']⟩
  -- whether the line ends is decided by two characters, and both are common
  have hends : Text.endsLine first (second :: (x ++ y'))
      = Text.endsLine first (second :: (x ++ y)) := rfl
  have hcons : c.rest = first :: second :: (x ++ y) := hc
  have hcons' : c'.rest = first :: second :: (x ++ y') := hc'
  simp only [location, Location.mk.injEq] at hlocation
  rw [location_bump hcons, location_bump hcons', hends, hlocation.1, hlocation.2.1, hlocation.2.2]

/-- Two texts that agree for some characters agree for the rest of them behind the first ones. -/
theorem AgreesFor.skip {k n : Nat} {c c' : Cursor} (h : AgreesFor (k + n) c c') (hn : 0 < n) :
    AgreesFor n (c.skip k) (c'.skip k) := by
  induction k generalizing c c' with
  | zero =>
    rw [Nat.zero_add] at h
    exact h
  | succ k ih =>
    rw [Nat.succ_add] at h
    exact ih (h.bump (by omega))

/-- A token that ends within the common beginning is found at both cursors. -/
theorem AgreesFor.nextToken {n : Nat} {c c' d : Cursor} {t : Token} (h : AgreesFor n c c')
    (hnext : c.nextToken = (.ok t, d)) (hkind : t.kind ≠ .endOfInput)
    (hn : d.offset < c.offset + n) :
    ∃ d', c'.nextToken = (.ok t, d') ∧ AgreesFor (c.offset + n - d.offset) d d' := by
  obtain ⟨g, hg, hlocation, rfl, hc, hlexeme | ⟨hend, -⟩⟩ := nextToken_eq_ok hnext
  swap
  · exact absurd hend hkind
  let k := g.length + t.written.length
  have hd : (c.skip g.length).skip t.written.length = c.skip k := (skip_add _ _ c).symm
  rw [hd] at hc hlexeme hn ⊢
  have hle : k ≤ c.rest.length := by
    rw [hc]
    simp [k]
  rw [offset_skip hle] at hn ⊢
  obtain ⟨m, rfl⟩ : ∃ m, n = k + m := ⟨n - k, by omega⟩
  have hm : c.offset + (k + m) - (c.offset + k) = m := by omega
  rw [hm]
  have hbehind := h.skip (by omega)
  refine ⟨c'.skip k, ?_, hbehind⟩
  -- the blanks, the comments and the token are before the other cursor as well
  have hrest : c'.rest = g ++ (t.written ++ (c'.skip k).rest) := by
    obtain ⟨-, x, y, y', hx, hxy, hxy'⟩ := h
    have htake : c'.rest.take k = c.rest.take k := by
      rw [hxy, hxy', List.take_append_of_le_length (by omega),
        List.take_append_of_le_length (by omega)]
    have hwritten : c.rest.take k = g ++ t.written := by
      rw [hc, ← List.append_assoc, List.take_left' (by simp [k])]
    rw [rest_skip, ← List.append_assoc, ← hwritten, ← htake, List.take_append_drop]
  -- and the same character follows
  have hhead : (c'.skip k).rest.head? = (c.skip k).rest.head? := by
    obtain ⟨-, x, y, y', hx, hxy, hxy'⟩ := hbehind
    obtain _ | ⟨first, x⟩ := x
    · simp at hx
      omega
    · rw [hxy, hxy']
      rfl
  have hsame : (c'.skip g.length).location = (c.skip g.length).location := by
    have hsplit : k + m = g.length + (t.written.length + m) := by omega
    rw [hsplit] at h
    exact (h.skip (by omega)).1
  have hfront : (c'.skip g.length).rest = t.written ++ (c'.skip k).rest := by
    rw [rest_skip, hrest]
    simp
  rw [nextToken_of_trivia hg hrest, nextToken_of_lexeme (hlexeme.congr hhead) hfront, hsame,
    ← hlocation, ← skip_add]

/-- A reading ends right behind the last token. -/
theorem offset_of_course {k : Standing} {us : List Token} {e : Ending ScanFault}
    (h : Course k c us e d) (hlast : e.last? = some t) :
    (d.offset : Int) = t.location.offset + t.written.length := by
  have hstop {c d : Cursor} {u : Token} (hnext : TokenFeed.next c = (.ok u, d)) :
      (d.offset : Int) = u.location.offset + u.written.length := by
    obtain ⟨k, hk, -, hd⟩ := offset_of_nextToken hnext
    omega
  induction h with
  | missing => cases hlast
  | complete hnext _ =>
    cases hlast
    exact hstop hnext
  | refused hnext _ =>
    cases hlast
    exact hstop hnext
  | further _ _ _ ih => exact ih hlast

/-- A token that is refused within the common beginning is refused at both cursors. -/
theorem AgreesFor.course {n : Nat} {k : Standing} {us : List Token} {problem : Problem}
    {c' : Cursor} (h : AgreesFor n c c') (hcourse : Course k c us (.refused t problem) d)
    (hkind : t.kind ≠ .endOfInput) (hn : d.offset < c.offset + n) :
    ∃ d', Course k c' us (.refused t problem) d' := by
  generalize he : Ending.refused t problem = e at hcourse
  induction hcourse generalizing n c' with
  | missing hnext => cases he
  | complete hnext hpush => cases he
  | refused hnext hpush =>
    cases he
    obtain ⟨d', hnext', -⟩ := h.nextToken hnext hkind hn
    exact ⟨d', .refused hnext' hpush⟩
  | @further _ _ c c₁ d u us e hnext hpush hcourse ih =>
    have hend : u.kind ≠ .endOfInput := fun hend => Standing.push_endOfInput hend hpush
    -- the cursor goes on only, so the token ends before the refused one
    have hle : c₁.offset ≤ d.offset := (reaches_of_course hcourse).offset_le
    obtain ⟨c₁', hnext', hagrees⟩ := h.nextToken hnext hend (by omega)
    obtain ⟨d', hcourse'⟩ := ih hagrees (by omega) he
    exact ⟨d', .further hnext' hpush hcourse'⟩

end Cursor

/-! ### Whole texts -/

/-- A refusal depends on the text up to one character behind its token only. -/
theorem ofText_of_take_eq {source source' : String} {us : List Token} {t : Token}
    {problem : Problem} {d : Cursor}
    (hcourse : Course .unread (Cursor.ofText source) us (.refused t problem) d)
    (hkind : t.kind ≠ .endOfInput) (hlength : d.offset < source.length)
    (htake : source'.toList.take (d.offset + 1) = source.toList.take (d.offset + 1)) :
    Query.ofText source' =
      .error (.refused (problem.report t.location t.describe source')) := by
  -- both cursors start with the common part before them
  have hagrees : Cursor.AgreesFor (d.offset + 1) (Cursor.ofText source)
      (Cursor.ofText source') := by
    refine ⟨rfl, source.toList.take (d.offset + 1), source.toList.drop (d.offset + 1),
      source'.toList.drop (d.offset + 1), ?_, ?_, ?_⟩
    · rw [List.length_take, String.length_toList]
      omega
    · rw [List.take_append_drop]
      rfl
    · rw [← htake, List.take_append_drop]
      rfl
  have hoffset : (Cursor.ofText source).offset = 0 := rfl
  obtain ⟨d', hcourse'⟩ := hagrees.course hcourse hkind (by omega)
  exact Cursor.ofText_of_course hcourse'

/-- **Asking for tokens one by one is reading them off a list.**  Let the list hold the tokens of a
    text up to its first fault.  The fault is what comes of reading the text exactly if the list
    runs out while it is read; otherwise the text gives what the list gives, be it a query or a
    refusal.  A refusal is found at a token of the list, before the fault.  If that token is not the
    end of the input, then it is the last one that was asked for, and no text that is the same up to
    one character behind the token is read differently. -/
theorem run_eq_replay (source : String) :
    let eager := (Cursor.ofText source).eager
    let replay : Except (Failure Exhausted) Query × Reader TokenList :=
      Step.query { feed := { tokens := eager.1, text := source } }
    let run := Reader.run source
    ((∃ fault, run.1 = .error (.feed fault)) ↔ replay.1 = .error (.feed .noMoreTokens)) ∧
    (∀ fault, run.1 = .error (.feed fault) →
      eager.2 = some fault ∧ ∃ lexical, fault = .misspelled lexical) ∧
    (∀ q, run.1 = .ok q ↔ replay.1 = .ok q) ∧
    (∀ d, run.1 = .error (.refused d) ↔ replay.1 = .error (.refused d)) ∧
    run.1 ≠ .error .misplaced ∧
    ∀ d, run.1 = .error (.refused d) →
      ∃ t ∈ eager.1, d.location = t.location ∧ run.2.ahead = some t ∧
        (∀ lexical, eager.2 = some (.misspelled lexical) →
          d.location.offset < lexical.location.offset) ∧
        (t.kind ≠ .endOfInput → ∃ e : Nat, (e : Int) = t.location.offset + t.written.length ∧
          run.2.tokens.back? = some t ∧ run.2.feed.offset = e ∧
          ∀ source' : String, e < source.length →
            source'.toList.take (e + 1) = source.toList.take (e + 1) →
            Query.ofText source' = .error (.refused { d with source := source' })) := by
  intro eager replay run
  obtain ⟨us, e, s', hcourse⟩ := exists_course .unread (Cursor.ofText source)
  obtain ⟨⟨rest, hreplay⟩, hfault⟩ := hcourse.replay source
  obtain ⟨r, hr, hfeed, -, hahead⟩ := Step.query_of_course hcourse
  obtain ⟨r', hr', -⟩ := Step.query_of_course hreplay
  have htext : TokenFeed.text s' = source := Cursor.text_of_course hcourse
  have hrun : run = (e.outcome source, r) := by
    rw [← htext]
    exact hr
  have hreplayed : replay.1 = e.exhausted.outcome source := congrArg Prod.fst hr'
  rw [hrun, hreplayed]
  -- each clause is about one kind of ending and empty for the other two
  cases e with
  | missing fault =>
    obtain ⟨lexical, rfl, -⟩ := Cursor.offset_lt_of_eager (hfault fault rfl)
    refine ⟨by simp [Ending.exhausted], ?_, by simp [Ending.exhausted], by simp [Ending.exhausted],
      by simp, by simp⟩
    intro fault' hfault'
    obtain rfl := Failure.feed.inj (Except.error.inj hfault')
    exact ⟨hfault _ rfl, lexical, rfl⟩
  | complete t q =>
    exact ⟨by simp [Ending.exhausted], by simp, by simp [Ending.exhausted],
      by simp [Ending.exhausted], by simp, by simp⟩
  | refused t problem =>
    refine ⟨by simp [Ending.exhausted], by simp, by simp [Ending.exhausted],
      by simp [Ending.exhausted, Ending.outcome], by simp, ?_⟩
    intro d hd
    obtain rfl := Failure.refused.inj (Except.error.inj hd)
    have hmem : t ∈ eager.1 := by
      have htokens := congrArg TokenList.tokens hreplay.list_eq.1
      rw [show eager.1 = _ from htokens]
      simp [Ending.exhausted, Ending.last?]
    refine ⟨t, hmem, rfl, hahead, fun lexical hlexical => ?_, fun hkind => ?_⟩
    · obtain ⟨_, hsame, -, hlt⟩ := Cursor.offset_lt_of_eager hlexical
      obtain rfl := ScanFault.misspelled.inj hsame
      exact hlt t hmem
    · have hstop := Cursor.offset_of_course hcourse rfl
      refine ⟨s'.offset, hstop, ?_, congrArg Cursor.offset hfeed, ?_⟩
      · rw [Reader.tokens, hahead]
        exact Array.back?_push
      · intro source' hlength htake
        exact ofText_of_take_eq hcourse hkind hlength htake

/-- A parenthesis behind a verb and a blank is refused before the string without an end is found,
    and in the same way with a verb in the place of that string. -/
theorem run_eq_replay_of_paren : ∃ d, Query.ofText "@f ) \"x" = .error (.refused d) ∧
    Query.ofText "@f ) @g" = .error (.refused { d with source := "@f ) @g" }) := by
  obtain ⟨-, -, -, -, -, hrefused⟩ := run_eq_replay "@f ) \"x"
  obtain ⟨d, hd, -⟩ : ∃ d, Query.ofText "@f ) \"x" = .error (.refused d) ∧
      d.kind = .unexpectedTrailingInput := exists_of_refusal Diagnostic.kind (by decide +kernel)
  obtain ⟨t, -, -, hahead, -, hsame⟩ := hrefused d hd
  have hparen : (Reader.run "@f ) \"x").2.ahead.map Token.kind = some .rightParen := by
    decide +kernel
  have hplain : t.kind ≠ .endOfInput := by
    rw [hahead] at hparen
    simp [Option.some.inj hparen]
  obtain ⟨e, -, -, hstop, hall⟩ := hsame hplain
  obtain rfl : e = 4 := hstop.symm.trans (by decide +kernel)
  exact ⟨d, hd, hall "@f ) @g" (by decide +kernel) (by decide +kernel)⟩

end ScopedQuery
