import ScopedQuery.Proofs.Pending
import ScopedQuery.Proofs.Phrase

namespace ScopedQuery

/-!
# What the tokens before a reader are to the grammar

* `Reader.Shows` — the phrase that the tokens before a reader spell, once their line breaks are
  settled.
* `Reader.Shows.of_take`, `Reader.Shows.of_accept` and their like — a token that was taken stood
  in front of what the reader shows afterwards.
* `Reader.Leads` — the token that comes first is known, and what the tokens behind it spell.
* `Reader.Leads.accept_some`, `Reader.Leads.accept_none` and their like — what a step is going to do
  where that is known.
-/

/-! ### Settled line breaks -/

/-- Whether a token of a kind is followed by the inside of parentheses. -/
def TokenKind.insideAfter (inside : Bool) : TokenKind → Bool
  | leftParen => true
  | rightParen => false
  | _ => inside

/-- Only a parenthesis changes whether one is inside of parentheses. -/
theorem TokenKind.insideAfter_of_ne {inside : Bool} {kind : TokenKind} (hl : kind ≠ .leftParen)
    (hr : kind ≠ .rightParen) : kind.insideAfter inside = inside := by
  cases kind <;> first | rfl | contradiction

/-- Only an opening one leads inside. -/
theorem TokenKind.eq_leftParen_of_insideAfter {kind : TokenKind}
    (h : kind.insideAfter false = true) : kind = .leftParen := by
  cases kind <;> first | rfl | contradiction

/-- Whether tokens are followed by the inside of parentheses. -/
def insideAll (inside : Bool) (ts : List Token) : Bool :=
  ts.foldl (fun before t => t.kind.insideAfter before) inside

@[simp] theorem insideAll_nil (inside : Bool) : insideAll inside [] = inside := rfl

@[simp] theorem insideAll_cons (inside : Bool) (t : Token) (ts : List Token) :
    insideAll inside (t :: ts) = insideAll (t.kind.insideAfter inside) ts := rfl

@[simp] theorem insideAll_append (inside : Bool) (ts us : List Token) :
    insideAll inside (ts ++ us) = insideAll (insideAll inside ts) us :=
  List.foldl_append

/-- The last token decides, starting from where the tokens before it lead. -/
theorem insideAll_concat (inside : Bool) (us : List Token) (t : Token) :
    insideAll inside (us ++ [t]) = t.kind.insideAfter (insideAll inside us) := by
  rw [insideAll_append, insideAll_cons, insideAll_nil]

/-- A token that is no line break is kept, and tells where the rest is read from. -/
theorem eraseBreaks_cons {inside : Bool} {t : Token} {ts : List Token} (h : t.kind ≠ .newline) :
    eraseBreaks inside (t :: ts) = t :: eraseBreaks (t.kind.insideAfter inside) ts := by
  rw [eraseBreaks, if_neg h]
  by_cases hl : t.kind = .leftParen
  · rw [if_pos hl, hl]
    rfl
  by_cases hr : t.kind = .rightParen
  · rw [if_neg hl, if_pos hr, hr]
    rfl
  · rw [if_neg hl, if_neg hr, TokenKind.insideAfter_of_ne hl hr]

/-- A line break inside of parentheses that are closed is left out. -/
theorem eraseBreaks_newline_inside {t : Token} {ts : List Token} (h : t.kind = .newline)
    (hclosed : ∃ u ∈ ts, u.kind = .rightParen) :
    eraseBreaks true (t :: ts) = eraseBreaks true ts := by
  rw [eraseBreaks, if_pos h, if_pos ⟨rfl, hclosed⟩]

/-- A line break outside of parentheses is a semicolon to the grammar. -/
theorem map_terminal_eraseBreaks_newline {t : Token} {ts : List Token} (h : t.kind = .newline) :
    (eraseBreaks false (t :: ts)).map Token.terminal
      = TokenKind.semicolon.mark :: (eraseBreaks false ts).map Token.terminal := by
  rw [eraseBreaks, if_pos h, if_neg (by simp)]
  rfl

/-- Settling the line breaks adds no parenthesis. -/
theorem exists_rightParen_of_eraseBreaks {inside : Bool} {ts : List Token}
    (h : ∃ u ∈ (eraseBreaks inside ts).map Token.terminal, u.kind = .rightParen) :
    ∃ u ∈ ts, u.kind = .rightParen := by
  simp only [List.mem_map, exists_exists_and_eq_and, Token.kind_terminal] at h
  induction ts generalizing inside with
  | nil => exact h
  | cons t ts ih =>
    obtain ⟨u, hu, hparen⟩ := h
    by_cases hkind : t.kind = .newline
    · rw [eraseBreaks, if_pos hkind] at hu
      split at hu
      case isTrue hclosed =>
        -- a line break is left out only in front of a closing parenthesis
        obtain ⟨w, hw, hparen⟩ := hclosed.2
        exact ⟨w, List.mem_cons_of_mem t hw, hparen⟩
      case isFalse =>
        rcases List.mem_cons.mp hu with rfl | hu
        · -- the semicolon is no parenthesis
          simp at hparen
        · obtain ⟨w, hw, hparen⟩ := ih ⟨u, hu, hparen⟩
          exact ⟨w, List.mem_cons_of_mem t hw, hparen⟩
    · rw [eraseBreaks_cons hkind] at hu
      rcases List.mem_cons.mp hu with rfl | hu
      · exact ⟨u, List.mem_cons_self, hparen⟩
      · obtain ⟨w, hw, hparen⟩ := ih ⟨u, hu, hparen⟩
        exact ⟨w, List.mem_cons_of_mem t hw, hparen⟩

variable {σ ε : Type} [TokenFeed σ ε]

/-- The tokens before the reader, which stands inside or outside of parentheses, spell the phrase.
    Parentheses around the reader are closed further on. -/
def Reader.Shows (r : Reader σ) (inside : Bool) (phrase : List Token) : Prop :=
  ∃ ts, r.Offers ts ∧ (eraseBreaks inside ts).map Token.terminal = phrase ∧
    (inside = true → ∃ t ∈ ts, t.kind = .rightParen)

namespace Reader.Shows

open Step

variable {r r' : Reader σ} {t : Token} {inside : Bool} {phrase : List Token}
  {kinds : List TokenKind}

/-! ### Before a step that succeeded -/

/-- Only the token ahead and the feed matter; the depth and the trace do not. -/
theorem congr (hahead : r'.ahead = r.ahead) (hfeed : r'.feed = r.feed)
    (h : r'.Shows inside phrase) : r.Shows inside phrase := by
  obtain ⟨ts, hoffers, hts⟩ := h
  refine ⟨ts, ?_, hts⟩
  rwa [Reader.Offers, hahead, hfeed] at hoffers

theorem of_text {source : String} (h : (Step.text : Step σ ε String) r = (.ok source, r'))
    (hshows : r'.Shows inside phrase) : r.Shows inside phrase := by
  simp only [Step.text, Prod.mk.injEq] at h
  rwa [h.2]

theorem of_note {entry : TraceEntry} {u : Unit}
    (h : (Step.note entry : Step σ ε Unit) r = (.ok u, r')) (hshows : r'.Shows inside phrase) :
    r.Shows inside phrase := by
  simp only [Step.note, Prod.mk.injEq] at h
  rw [← h.2] at hshows
  exact hshows.congr rfl rfl

theorem of_changeDepth {change depth : Int}
    (h : (Step.changeDepth change : Step σ ε Int) r = (.ok depth, r'))
    (hshows : r'.Shows inside phrase) : r.Shows inside phrase := by
  simp only [Step.changeDepth, Prod.mk.injEq] at h
  rw [← h.2] at hshows
  exact hshows.congr rfl rfl

/-- A reader shows the same before and behind a look. -/
theorem of_peek (h : Step.peek r = (.ok t, r')) (hshows : r'.Shows inside phrase) :
    r.Shows inside phrase := by
  obtain ⟨ts, hoffers, hts⟩ := hshows
  exact ⟨ts, (offers_peek h).mp hoffers, hts⟩

/-- It does so where no token was accepted. -/
theorem of_accept_none (h : Step.accept kinds r = (.ok none, r'))
    (hshows : r'.Shows inside phrase) : r.Shows inside phrase := by
  obtain ⟨ts, hoffers, hts⟩ := hshows
  exact ⟨ts, (offers_accept_none h).mp hoffers, hts⟩

/-- A token in front of what is shown stands in front of the phrase. -/
theorem cons (h : ∀ ts, r'.Offers ts → r.Offers (t :: ts)) (hkind : t.kind ≠ .newline)
    (hshows : r'.Shows (t.kind.insideAfter inside) phrase) :
    r.Shows inside (t.terminal :: phrase) := by
  obtain ⟨ts, hoffers, hphrase, hclosed⟩ := hshows
  refine ⟨t :: ts, h ts hoffers, ?_, fun hinside => ?_⟩
  · rw [eraseBreaks_cons hkind, List.map_cons, hphrase]
  · by_cases hr : t.kind = .rightParen
    · exact ⟨t, List.mem_cons_self, hr⟩
    · -- the parentheses are still open behind the token
      have hafter : t.kind.insideAfter inside = true := by
        subst hinside
        cases hcase : t.kind <;> first | rfl | exact absurd hcase hr
      obtain ⟨u, hu, hukind⟩ := hclosed hafter
      exact ⟨u, List.mem_cons_of_mem t hu, hukind⟩

/-- Before a token that was taken it shows that token and what is behind it. -/
theorem of_take (h : Step.take r = (.ok t, r')) (hend : t.kind ≠ .endOfInput)
    (hkind : t.kind ≠ .newline) (hshows : r'.Shows (t.kind.insideAfter inside) phrase) :
    r.Shows inside (t.terminal :: phrase) :=
  cons (fun _ => (offers_take h hend).mp) hkind hshows

/-- The same holds for a token that was accepted by its kind. -/
theorem of_accept {kind : TokenKind} (h : Step.accept [kind] r = (.ok (some t), r'))
    (hend : kind ≠ .endOfInput) (hkind : kind ≠ .newline)
    (hshows : r'.Shows (kind.insideAfter inside) phrase) :
    t.kind = kind ∧ r.Shows inside (t.terminal :: phrase) := by
  obtain ⟨hmem, hoffers⟩ := offers_accept_some h (by simp [hend.symm])
  obtain rfl := List.mem_singleton.mp hmem
  exact ⟨rfl, cons (fun ts => (hoffers ts).mp) hkind hshows⟩

/-- Inside of parentheses a line break is not shown. -/
theorem of_newline (h : Step.accept [.newline] r = (.ok (some t), r'))
    (hshows : r'.Shows true phrase) : r.Shows true phrase := by
  obtain ⟨hmem, hoffers⟩ := offers_accept_some h (by decide)
  obtain ⟨ts, hts, hphrase, hclosed⟩ := hshows
  have hkind := List.mem_singleton.mp hmem
  obtain ⟨u, hu, hukind⟩ := hclosed rfl
  refine ⟨t :: ts, (hoffers ts).mp hts, ?_, fun _ => ⟨u, List.mem_cons_of_mem t hu, hukind⟩⟩
  rwa [eraseBreaks_newline_inside hkind (hclosed rfl)]

/-- Outside of parentheses every terminator is shown as a semicolon. -/
theorem of_terminator (h : Step.accept TokenKind.terminators r = (.ok (some t), r'))
    (hshows : r'.Shows false phrase) : r.Shows false (TokenKind.semicolon.mark :: phrase) := by
  obtain ⟨hmem, hoffers⟩ := offers_accept_some h (by decide)
  simp only [TokenKind.terminators, List.mem_cons, List.not_mem_nil, or_false] at hmem
  rcases hmem with hkind | hkind
  · -- a line break, which becomes a semicolon
    obtain ⟨ts, hts, hphrase, -⟩ := hshows
    refine ⟨t :: ts, (hoffers ts).mp hts, ?_, by simp⟩
    rw [map_terminal_eraseBreaks_newline hkind, hphrase]
  · -- a semicolon already
    have hterminal : t.terminal = TokenKind.semicolon.mark := by
      simp [Token.terminal, TokenKind.mark, hkind, TokenKind.fixedText?]
    rw [← hterminal]
    refine cons (fun ts => (hoffers ts).mp) (by simp [hkind]) ?_
    rw [hkind]
    exact hshows

end Reader.Shows

/-! ### Line breaks -/

/-- To skip line breaks is to accept one as often as there is one. -/
theorem Step.newlines_eq :
    (newlines : Step σ ε Unit) = (do
      match ← accept [.newline] with
      | some _ => newlines
      | none => return ()) := by
  funext r
  rw [bind_apply]
  show skipNewlines r = _
  rw [skipNewlines]
  split <;> rename_i h <;> simp only [h, pure_apply, newlines]

/-- Inside of parentheses line breaks are not shown. -/
theorem Reader.Shows.of_newlines {r r' : Reader σ} {phrase : List Token}
    (h : Step.newlines r = (.ok (), r')) (hshows : r'.Shows true phrase) : r.Shows true phrase := by
  unfold Step.newlines at h
  fun_induction Step.skipNewlines r with
  | case1 r failure r₁ haccept => simp at h
  | case2 r r₁ haccept =>
    simp only [Prod.mk.injEq, true_and] at h
    exact of_accept_none haccept (h ▸ hshows)
  | case3 r token r₁ haccept _ ih => exact of_newline haccept (ih h)

/-! ### Before a step that is going to succeed -/

/-- What the grammar sees of a token outside of parentheses: a line break passes for a semicolon. -/
def Token.StandsFor (t l : Token) : Prop :=
  if t.kind = .newline then l = TokenKind.semicolon.mark else t.terminal = l

namespace Token.StandsFor

variable {t l : Token}

/-- A line break stands for a semicolon and for nothing else. -/
theorem of_eq (hkind : t.kind = .newline) : t.StandsFor l ↔ l = TokenKind.semicolon.mark := by
  rw [Token.StandsFor, if_pos hkind]

/-- Any other token stands for its terminal. -/
theorem of_ne (hkind : t.kind ≠ .newline) : t.StandsFor l ↔ t.terminal = l := by
  rw [Token.StandsFor, if_neg hkind]

/-- No step outside of parentheses tells a line break from a semicolon. -/
theorem mem_iff {kinds : List TokenKind} (h : t.StandsFor l)
    (hkinds : .newline ∈ kinds ↔ .semicolon ∈ kinds) : t.kind ∈ kinds ↔ l.kind ∈ kinds := by
  by_cases hkind : t.kind = .newline
  · rw [of_eq hkind] at h
    rw [hkind, h, TokenKind.kind_mark, hkinds]
  · rw [of_ne hkind] at h
    rw [← h, Token.kind_terminal]

/-- So what stands for anything but a semicolon has it as its terminal. -/
theorem terminal_eq (h : t.StandsFor l) (hl : l.kind ≠ .semicolon) : t.terminal = l := by
  by_cases hkind : t.kind = .newline
  · rw [of_eq hkind] at h
    rw [h] at hl
    exact absurd rfl hl
  · exact (of_ne hkind).mp h

/-- In particular, it is of the same kind. -/
theorem kind_eq (h : t.StandsFor l) (hl : l.kind ≠ .semicolon) : t.kind = l.kind := by
  rw [← h.terminal_eq hl, Token.kind_terminal]

end Token.StandsFor

/-- Where a kind leaves a choice of texts, the terminal has the text of the token. -/
theorem Token.value_eq_of_terminal {t l : Token} (h : t.terminal = l)
    (hkind : l.kind.fixedText? = none) : t.value = l.value := by
  subst h
  rw [Token.kind_terminal] at hkind
  simp [Token.terminal, hkind]

/-- The token comes first, and those behind it spell the phrase. -/
def Reader.Leads (r : Reader σ) (inside : Bool) (t : Token) (phrase : List Token) : Prop :=
  ∃ ts, r.Offers (t :: ts) ∧ (eraseBreaks inside ts).map Token.terminal = phrase ∧
    (inside = true → ∃ u ∈ ts, u.kind = .rightParen)

namespace Reader.Shows

open Step

variable {r : Reader σ} {l : Token} {phrase : List Token}

theorem text {inside : Bool} (h : r.Shows inside phrase) :
    ∃ source r', (Step.text : Step σ ε String) r = (.ok source, r') ∧ r'.Shows inside phrase :=
  ⟨_, _, rfl, h⟩

theorem note {inside : Bool} (entry : TraceEntry) (h : r.Shows inside phrase) :
    ∃ r', (Step.note entry : Step σ ε Unit) r = (.ok (), r') ∧ r'.Shows inside phrase :=
  ⟨_, rfl, h.congr rfl rfl⟩

theorem changeDepth {inside : Bool} (change : Int) (h : r.Shows inside phrase) :
    ∃ depth r', (Step.changeDepth change : Step σ ε Int) r = (.ok depth, r') ∧
      r'.Shows inside phrase :=
  ⟨_, _, rfl, h.congr rfl rfl⟩

/-- There always is a token to look at, and looking at it leaves what is shown. -/
theorem peek {inside : Bool} (h : r.Shows inside phrase) :
    ∃ t r', Step.peek r = (.ok t, r') ∧ r'.Shows inside phrase := by
  obtain ⟨ts, hoffers, hts⟩ := h
  obtain ⟨t, rest, rfl⟩ := List.exists_cons_of_ne_nil hoffers.ne_nil
  obtain ⟨r', hpeek⟩ := hoffers.peek
  exact ⟨t, r', hpeek, t :: rest, (offers_peek hpeek).mpr hoffers, hts⟩

/-- Outside of parentheses the first token that is shown is the first one that comes. -/
theorem leads (h : r.Shows false (l :: phrase))
    (hclosed : l.kind = .leftParen → ∃ u ∈ phrase, u.kind = .rightParen) :
    ∃ t, t.StandsFor l ∧ r.Leads (l.kind.insideAfter false) t phrase := by
  obtain ⟨ts, hoffers, hphrase, -⟩ := h
  cases ts with
  | nil => simp [eraseBreaks] at hphrase
  | cons t ts =>
    by_cases hkind : t.kind = .newline
    · rw [map_terminal_eraseBreaks_newline hkind, List.cons.injEq] at hphrase
      obtain ⟨rfl, hphrase⟩ := hphrase
      refine ⟨t, (Token.StandsFor.of_eq hkind).mpr rfl, ts, hoffers, hphrase, ?_⟩
      simp [TokenKind.insideAfter]
    · rw [eraseBreaks_cons hkind, List.map_cons, List.cons.injEq] at hphrase
      obtain ⟨rfl, rfl⟩ := hphrase
      refine ⟨t, (Token.StandsFor.of_ne hkind).mpr rfl, ts, hoffers, rfl, fun hinside => ?_⟩
      rw [Token.kind_terminal] at hclosed hinside
      apply exists_rightParen_of_eraseBreaks
      apply hclosed
      exact TokenKind.eq_leftParen_of_insideAfter hinside

/-- What is shown is led by the token that comes first. -/
theorem of_leads {t : Token} (h : t.StandsFor l)
    (hleads : r.Leads (l.kind.insideAfter false) t phrase) : r.Shows false (l :: phrase) := by
  obtain ⟨ts, hoffers, rfl, -⟩ := hleads
  refine ⟨t :: ts, hoffers, ?_, by simp⟩
  by_cases hkind : t.kind = .newline
  · rw [Token.StandsFor.of_eq hkind] at h
    rw [map_terminal_eraseBreaks_newline hkind, h]
    rfl
  · rw [Token.StandsFor.of_ne hkind] at h
    rw [eraseBreaks_cons hkind, List.map_cons, ← h, Token.kind_terminal]

/-- Inside of parentheses the first token that is shown comes behind the line breaks. -/
theorem newlines (h : r.Shows true (l :: phrase)) :
    ∃ t r', Step.newlines r = (.ok (), r') ∧ t.terminal = l ∧
      r'.Leads (l.kind.insideAfter true) t phrase := by
  obtain ⟨ts, hoffers, hphrase, hclosed⟩ := h
  induction ts generalizing r with
  | nil => simp [eraseBreaks] at hphrase
  | cons t ts ih =>
    by_cases hbreak : t.kind = .newline
    · -- the break is passed, and the rest is as before
      obtain ⟨r₁, haccept⟩ := hoffers.accept_some (List.mem_singleton.mpr hbreak)
      obtain ⟨-, htail⟩ := offers_accept_some haccept (by decide)
      have hclosed' : ∃ u ∈ ts, u.kind = .rightParen := by
        obtain ⟨u, hu, hparen⟩ := hclosed rfl
        rcases List.mem_cons.mp hu with rfl | hu
        · rw [hbreak] at hparen
          cases hparen
        · exact ⟨u, hu, hparen⟩
      rw [eraseBreaks_newline_inside hbreak hclosed'] at hphrase
      obtain ⟨u, r', hr', hlead⟩ := ih ((htail ts).mpr hoffers) hphrase fun _ => hclosed'
      refine ⟨u, r', ?_, hlead⟩
      rw [newlines_eq, bind_apply, haccept]
      exact hr'
    · -- the token is the first one that is shown
      obtain ⟨r₁, haccept⟩ := hoffers.accept_none (mt List.mem_singleton.mp hbreak)
      rw [eraseBreaks_cons hbreak, List.map_cons, List.cons.injEq] at hphrase
      obtain ⟨rfl, rfl⟩ := hphrase
      refine ⟨t, r₁, ?_, rfl, ts, (offers_accept_none haccept).mpr hoffers, rfl, fun hinside => ?_⟩
      · rw [newlines_eq, bind_apply, haccept]
        rfl
      · obtain ⟨u, hu, hparen⟩ := hclosed rfl
        rcases List.mem_cons.mp hu with rfl | hu
        · rw [Token.kind_terminal, hparen] at hinside
          cases hinside
        · exact ⟨u, hu, hparen⟩

end Reader.Shows

namespace Reader.Leads

open Step

variable {r : Reader σ} {inside : Bool} {t : Token} {phrase : List Token} {kinds : List TokenKind}

/-- The token that leads is the one that is looked at. -/
theorem peek (h : r.Leads inside t phrase) :
    ∃ r', Step.peek r = (.ok t, r') ∧ r'.Leads inside t phrase := by
  obtain ⟨ts, hoffers, hts⟩ := h
  obtain ⟨r', hpeek⟩ := hoffers.peek
  exact ⟨r', hpeek, ts, (offers_peek hpeek).mpr hoffers, hts⟩

/-- Where it is taken, the rest is shown. -/
theorem take (h : r.Leads inside t phrase) (hend : t.kind ≠ .endOfInput) :
    ∃ r', Step.take r = (.ok t, r') ∧ r'.Shows inside phrase := by
  obtain ⟨ts, hoffers, hts⟩ := h
  obtain ⟨r', htake⟩ := hoffers.take
  exact ⟨r', htake, ts, (offers_take htake hend).mpr hoffers, hts⟩

/-- The same holds where it is accepted. -/
theorem accept_some (h : r.Leads inside t phrase) (hmem : t.kind ∈ kinds)
    (hend : .endOfInput ∉ kinds) :
    ∃ r', Step.accept kinds r = (.ok (some t), r') ∧ r'.Shows inside phrase := by
  obtain ⟨ts, hoffers, hts⟩ := h
  obtain ⟨r', haccept⟩ := hoffers.accept_some hmem
  exact ⟨r', haccept, ts, ((offers_accept_some haccept hend).2 ts).mpr hoffers, hts⟩

/-- Where it is not accepted, it still leads. -/
theorem accept_none (h : r.Leads inside t phrase) (hmem : t.kind ∉ kinds) :
    ∃ r', Step.accept kinds r = (.ok none, r') ∧ r'.Leads inside t phrase := by
  obtain ⟨ts, hoffers, hts⟩ := h
  obtain ⟨r', haccept⟩ := hoffers.accept_none hmem
  exact ⟨r', haccept, ts, (offers_accept_none haccept).mpr hoffers, hts⟩

end Reader.Leads

end ScopedQuery
