import ScopedQuery.Proofs.Pending
import ScopedQuery.Proofs.Phrase

namespace ScopedQuery

open Text

/-!
# The tokens of a text are spelled

* `TokenKind.fixedText_of_punctuation` — a punctuation character is the text of its kind.
* `Cursor.not_blank_of_skipTrivia` — no blank is left in front of a token.
* `Cursor.isSpelled_scanToken`, `Cursor.isSpelled_nextToken` — a token has a text of its kind.
* `Feeds.isSpelled` — so have all tokens of a text.
-/

/-- A kind that was found for a character stands with it in the table. -/
theorem TokenKind.mem_punctuation {c : Char} {kind : TokenKind} (h : ofPunctuation? c = some kind) :
    (c, kind) ∈ punctuation := by
  obtain ⟨l₁, l₂, hsplit, -⟩ := List.lookup_eq_some_iff.mp h
  simp [hsplit]

/-- The one text of such a kind is the character. -/
theorem TokenKind.fixedText_of_punctuation {c : Char} {kind : TokenKind}
    (h : ofPunctuation? c = some kind) : kind.fixedText? = some (String.ofList [c]) := by
  have hall : ∀ entry ∈ punctuation, entry.2.fixedText? = some (String.ofList [entry.1]) := by
    simp [punctuation, fixedText?]
  exact hall (c, kind) (mem_punctuation h)

/-- A token whose kind has one text is spelled if it has that text. -/
theorem Token.isSpelled_of_fixedText [NameTable] {t : Token}
    (h : t.kind.fixedText? = some t.value) : t.IsSpelled := by
  obtain ⟨kind, value, location⟩ := t
  cases kind <;> first | exact h | cases h

/-- A spelled token has the text of its kind if the kind has one only. -/
theorem Token.IsSpelled.fixedText [NameTable] {t : Token} (h : t.IsSpelled)
    (hfixed : t.kind.fixedText?.isSome = true) : t.kind.fixedText? = some t.value := by
  obtain ⟨kind, value, location⟩ := t
  cases kind <;> first | exact h | cases hfixed

namespace Cursor

/-- Where the blanks and comments end, no blank stands. -/
theorem not_blank_of_skipTrivia {c d : Cursor} {first : Char} {rest : List Char}
    (h : c.skipTrivia = (.ok (), d)) (hd : d.rest = first :: rest) : isBlank first = false := by
  fun_induction skipTrivia c with
  | case1 c hc =>
    -- the text ends here
    simp only [Prod.mk.injEq, true_and] at h
    rw [← h, hc] at hd
    cases hd
  | case2 c char tail hc hblank _ ih => exact ih h
  | case3 c char tail hc hblank hopen fault e he => simp at h
  | case4 c char tail hc hblank hopen e he _ ih => exact ih h
  | case5 c char tail hc hblank hopen =>
    -- something else than a blank stands here
    simp only [Prod.mk.injEq, true_and] at h
    rw [← h, hc] at hd
    obtain ⟨rfl, rfl⟩ := List.cons.inj hd
    exact Bool.eq_false_iff.mpr hblank

section Spelled

variable [NameTable]

/-- A line break is taken as it is spelled. -/
theorem isSpelled_scanLineBreak {c : Cursor} {first : Char} {rest : List Char}
    (hc : c.rest = first :: rest) (hfirst : first = '\r' ∨ first = '\n') :
    c.scanLineBreak.1.IsSpelled := by
  show String.ofList _ ∈ ["\n", "\r", "\r\n"]
  split
  · decide
  · rw [hc]
    rcases hfirst with rfl | rfl <;> simp

/-- A token that starts where no blank stands has a text of its kind. -/
theorem isSpelled_scanToken {c d : Cursor} {first : Char} {rest : List Char} {t : Token}
    (hc : c.rest = first :: rest) (hblank : isBlank first = false)
    (h : c.scanToken first = (.ok t, d)) : t.IsSpelled := by
  unfold scanToken refuse at h
  split at h
  case isTrue hbreak =>
    -- a line break
    simp only [Prod.mk.injEq, Except.ok.injEq] at h
    rw [← h.1]
    exact isSpelled_scanLineBreak hc hbreak
  case isFalse hbreak =>
    split at h
    case isTrue hstart =>
      -- a name
      simp only [scanName, hc, hstart, if_true, Prod.mk.injEq, Except.ok.injEq] at h
      rw [← h.1]
      show isName (String.ofList _).toList = true
      simp [isName, hstart, List.all_takeWhile]
    case isFalse hstart =>
      split at h
      case isTrue hquote =>
        -- a string, which was read up to the first double quote
        split at h
        case h_1 body e hbody =>
          simp only [Prod.mk.injEq, Except.ok.injEq] at h
          rw [← h.1]
          show '"' ∉ body.toList
          unfold scanStringBody at hbody
          split at hbody
          · simp only [Prod.mk.injEq, Except.ok.injEq] at hbody
            rw [← hbody.1, String.toList_ofList]
            intro hmem
            have hother := List.all_eq_true.mp List.all_takeWhile '"' hmem
            simp at hother
          · simp [refuse] at hbody
        · simp at h
      case isFalse hquote =>
        simp only [Prod.mk.injEq, Except.ok.injEq] at h
        rw [← h.1]
        cases hkind : TokenKind.ofPunctuation? first with
        | some kind =>
          apply Token.isSpelled_of_fixedText
          exact TokenKind.fixedText_of_punctuation hkind
        | none =>
          -- none of the above
          rw [not_or] at hbreak
          exact ⟨first, rfl, hblank, hbreak.1, hbreak.2, hquote, Bool.eq_false_iff.mpr hstart,
            hkind⟩

/-- A token that is found has a text of its kind. -/
theorem isSpelled_nextToken {c d : Cursor} {t : Token} (h : c.nextToken = (.ok t, d)) :
    t.IsSpelled := by
  unfold nextToken at h
  split at h
  · simp at h
  case h_2 e he =>
    split at h
    · simp only [Prod.mk.injEq, Except.ok.injEq] at h
      rw [← h.1]
      exact Token.isSpelled_of_fixedText rfl
    case h_2 first rest hrest =>
      exact isSpelled_scanToken hrest (not_blank_of_skipTrivia he hrest) h

end Spelled

end Cursor

/-- The tokens that a text feeds are spelled. -/
theorem Feeds.isSpelled [NameTable] {c : Cursor} {ts : List Token} (h : Feeds c ts) :
    ∀ t ∈ ts, t.IsSpelled := by
  induction h with
  | last hnext _ =>
    intro t ht
    rw [List.mem_singleton.mp ht]
    exact Cursor.isSpelled_nextToken hnext
  | more hnext _ _ ih =>
    intro t ht
    rcases List.mem_cons.mp ht with rfl | ht
    · exact Cursor.isSpelled_nextToken hnext
    · exact ih t ht

end ScopedQuery
