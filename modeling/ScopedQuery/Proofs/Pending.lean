import ScopedQuery.Proofs.Descent

namespace ScopedQuery

/-!
# The tokens before a reader

* `Feeds` — a feed gives the tokens of a list one after another, and the end of the input is the
  last of them and no other.
* `Reader.Offers` — the tokens that a reader can still take.
* `Step.offers_peek`, `Step.offers_take`, `Step.offers_accept_some`, `Step.offers_accept_none` —
  what a step that succeeded has done to these tokens.
* `Reader.Offers.peek`, `Reader.Offers.accept_some`, `Reader.Offers.accept_none` — a step succeeds
  when the token that comes first is known.
* `feeds_iff_tokens`, `feeds_iff_eq_of_endsOnce` — what a text and what a list of tokens feed.
-/

variable {σ ε : Type} [TokenFeed σ ε]

/-- The feed gives these tokens; the last one, and only the last one, is the end of the input. -/
inductive Feeds : σ → List Token → Prop
  | last {s s' : σ} {t : Token} :
    TokenFeed.next s = (.ok t, s') → t.kind = .endOfInput → Feeds s [t]
  | more {s s' : σ} {t : Token} {ts : List Token} :
    TokenFeed.next s = (.ok t, s') → t.kind ≠ .endOfInput → Feeds s' ts → Feeds s (t :: ts)

/-- A feed that gives the end of the input gives nothing else. -/
theorem feeds_of_next_endOfInput {s s' : σ} {t : Token} {ts : List Token}
    (h : TokenFeed.next s = (.ok t, s')) (hkind : t.kind = .endOfInput) :
    Feeds s ts ↔ ts = [t] := by
  constructor
  · intro hfeeds
    cases hfeeds with
    | last h' _ =>
      simp only [h, Prod.mk.injEq, Except.ok.injEq] at h'
      rw [h'.1]
    | more h' hkind' _ =>
      simp only [h, Prod.mk.injEq, Except.ok.injEq] at h'
      exact absurd (h'.1 ▸ hkind) hkind'
  · rintro rfl
    exact .last h hkind

/-- A feed that gives another token gives what is behind that. -/
theorem feeds_of_next {s s' : σ} {t : Token} {ts : List Token}
    (h : TokenFeed.next s = (.ok t, s')) (hkind : t.kind ≠ .endOfInput) :
    Feeds s ts ↔ ∃ rest, ts = t :: rest ∧ Feeds s' rest := by
  constructor
  · intro hfeeds
    cases hfeeds with
    | last h' hkind' =>
      simp only [h, Prod.mk.injEq, Except.ok.injEq] at h'
      exact absurd (h'.1.symm ▸ hkind') hkind
    | @more _ _ _ rest h' _ hrest =>
      simp only [h, Prod.mk.injEq, Except.ok.injEq] at h'
      obtain ⟨rfl, rfl⟩ := h'
      exact ⟨rest, rfl, hrest⟩
  · rintro ⟨rest, rfl, hrest⟩
    exact .more h hkind hrest

/-- The token that a feed gives next is the first one of those that it gives. -/
theorem Feeds.exists_eq_cons {s s' : σ} {t : Token} {ts : List Token} (h : Feeds s ts)
    (hnext : TokenFeed.next s = (.ok t, s')) :
    ∃ rest, ts = t :: rest ∧ (t.kind ≠ .endOfInput → Feeds s' rest) := by
  by_cases hkind : t.kind = .endOfInput
  · exact ⟨[], (feeds_of_next_endOfInput hnext hkind).mp h, fun hne => absurd hkind hne⟩
  · obtain ⟨rest, hts, hrest⟩ := (feeds_of_next hnext hkind).mp h
    exact ⟨rest, hts, fun _ => hrest⟩

/-- A feed gives one list of tokens at most. -/
theorem Feeds.unique {s : σ} {ts us : List Token} (h : Feeds s ts) (h' : Feeds s us) :
    ts = us := by
  induction h generalizing us with
  | last hnext hkind => exact ((feeds_of_next_endOfInput hnext hkind).mp h').symm
  | more hnext hkind _ ih =>
    obtain ⟨rest, rfl, hrest⟩ := (feeds_of_next hnext hkind).mp h'
    rw [ih hrest]

/-! ### What a text and what a list of tokens feed -/

/-- The end of the input is the last of the tokens, and no other one. -/
def EndsOnce (ts : List Token) : Prop :=
  ∃ body t, ts = body ++ [t] ∧ t.kind = .endOfInput ∧ ∀ u ∈ body, u.kind ≠ .endOfInput

/-- A list of tokens that ends once feeds itself. -/
theorem feeds_iff_eq_of_endsOnce {ts us : List Token} {text : String} (h : EndsOnce ts) :
    Feeds (⟨ts, text⟩ : TokenList) us ↔ us = ts := by
  have hfeeds : Feeds (⟨ts, text⟩ : TokenList) ts := by
    obtain ⟨body, t, rfl, hkind, hbody⟩ := h
    induction body with
    | nil => exact .last rfl hkind
    | cons u body ih =>
      exact .more rfl (hbody u (by simp)) (ih fun v hv => hbody v (by simp [hv]))
  constructor
  · exact fun h' => h'.unique hfeeds
  · rintro rfl
    exact hfeeds

/-- The tokens of a text are found exactly if the cursor feeds them, by induction on the calls. -/
theorem tokensFrom_eq_ok_iff [Text.NameTable] (read : Array Token) (c : Cursor) (out : List Token) :
    (c.tokensFrom read).1 = .ok out ↔ ∃ ts, Feeds c ts ∧ out = read.toList ++ ts := by
  fun_induction Cursor.tokensFrom read c generalizing out with
  | case1 read c fault d h =>
    -- where a token is missing, nothing is fed
    have hnone (ts : List Token) : ¬ Feeds c ts := by
      intro hfeeds
      cases hfeeds with
      | last hnext _ => cases h.symm.trans hnext
      | more hnext _ _ => cases h.symm.trans hnext
    simp [hnone]
  | case2 read c token d h hkind =>
    -- the end of the input is the only token left
    have hnext : TokenFeed.next c = (.ok token, d) := h
    simp [feeds_of_next_endOfInput hnext hkind, eq_comm]
  | case3 read c token d h hkind _ ih =>
    -- one more token has been read
    have hnext : TokenFeed.next c = (.ok token, d) := h
    simp only [ih, feeds_of_next hnext hkind, Array.toList_push, List.append_assoc,
      List.singleton_append]
    constructor
    · rintro ⟨ts, hts, rfl⟩
      exact ⟨_, ⟨ts, rfl, hts⟩, rfl⟩
    · rintro ⟨_, ⟨ts, rfl, hts⟩, rfl⟩
      exact ⟨ts, hts, rfl⟩

/-- A cursor feeds the tokens of its text. -/
theorem feeds_iff_tokens [Text.NameTable] {c : Cursor} {ts : List Token} :
    Feeds c ts ↔ c.tokens.1 = .ok ts := by
  simp [Cursor.tokens, tokensFrom_eq_ok_iff]

/-! ### What a reader offers -/

/-- The tokens that a reader can still take, of which it may have looked at the first one. -/
def Reader.Offers (r : Reader σ) (ts : List Token) : Prop :=
  match r.ahead with
  | none => Feeds r.feed ts
  | some t =>
    if t.kind = .endOfInput then ts = [t] else ∃ rest, ts = t :: rest ∧ Feeds r.feed rest

namespace Step

variable {r r' : Reader σ} {t : Token} {ts : List Token} {kinds : List TokenKind}

/-! ### What a step has done -/

/-- Looking at a token takes nothing. -/
theorem offers_peek (h : peek r = (.ok t, r')) : r'.Offers ts ↔ r.Offers ts := by
  unfold peek at h
  split at h
  · -- the token was ahead already
    simp only [Prod.mk.injEq] at h
    rw [h.2]
  case h_2 hahead =>
    -- the feed gives the token, which is ahead from now on
    split at h
    case h_1 t' feed hnext =>
      simp only [Prod.mk.injEq, Except.ok.injEq] at h
      obtain ⟨rfl, rfl⟩ := h
      simp only [Reader.Offers, hahead]
      split
      case isTrue hkind => exact (feeds_of_next_endOfInput hnext hkind).symm
      case isFalse hkind => exact (feeds_of_next hnext hkind).symm
    · simp at h

/-- A token that was taken came first. -/
theorem offers_take (h : take r = (.ok t, r')) (hkind : t.kind ≠ .endOfInput) :
    r'.Offers ts ↔ r.Offers (t :: ts) := by
  rw [take_apply] at h
  split at h
  case h_1 t' r₁ hpeek =>
    rw [← offers_peek hpeek, Reader.Offers, Reader.Offers, ahead_of_peek hpeek]
    split at h
    case isTrue hend =>
      simp only [Prod.mk.injEq, Except.ok.injEq] at h
      exact absurd (h.1 ▸ hend) hkind
    case isFalse hend =>
      simp only [Prod.mk.injEq, Except.ok.injEq] at h
      obtain ⟨rfl, rfl⟩ := h
      simp [hkind]
  · simp at h

/-- A token that was accepted is of one of the kinds, and came first. -/
theorem offers_accept_some (h : accept kinds r = (.ok (some t), r')) (hend : .endOfInput ∉ kinds) :
    t.kind ∈ kinds ∧ ∀ ts, r'.Offers ts ↔ r.Offers (t :: ts) := by
  rw [accept_apply] at h
  split at h
  case h_1 t' r₁ hpeek =>
    split at h
    case isTrue hmem =>
      obtain ⟨t'', htake, ht⟩ := map_eq_ok.mp h
      have hahead := take_of_ahead (ahead_of_peek hpeek)
      -- the end of the input would be given and stay ahead
      have hkind : t'.kind ≠ .endOfInput := fun hkind => hend (hkind ▸ hmem)
      simp only [Option.some.injEq] at ht
      subst ht
      rw [if_neg hkind, htake] at hahead
      simp only [Prod.mk.injEq, Except.ok.injEq] at hahead
      obtain ⟨rfl, -⟩ := hahead
      exact ⟨hmem, fun ts => (offers_take htake hkind).trans (offers_peek hpeek)⟩
    · simp at h
  · simp at h

/-- Where no token was accepted, none was taken. -/
theorem offers_accept_none (h : accept kinds r = (.ok none, r')) :
    r'.Offers ts ↔ r.Offers ts := by
  rw [accept_apply] at h
  split at h
  case h_1 t' r₁ hpeek =>
    split at h
    case isTrue hmem =>
      obtain ⟨t'', -, ht⟩ := map_eq_ok.mp h
      simp at ht
    · simp only [Prod.mk.injEq, true_and] at h
      rw [← h, offers_peek hpeek]
  · simp at h

end Step

namespace Reader.Offers

open Step

variable {r : Reader σ} {t : Token} {ts : List Token} {kinds : List TokenKind}

/-! ### What a step is going to do -/

/-- There always is a token to look at. -/
theorem ne_nil (h : r.Offers ts) : ts ≠ [] := by
  rintro rfl
  unfold Reader.Offers at h
  split at h
  · cases h
  · split at h <;> simp at h

/-- The first token can be looked at. -/
theorem peek (h : r.Offers (t :: ts)) : ∃ r', Step.peek r = (.ok t, r') := by
  unfold Reader.Offers at h
  unfold Step.peek
  split at h <;> rename_i hahead
  · cases h with
    | last hnext _ => exact ⟨_, by rw [hahead, hnext]⟩
    | more hnext _ _ => exact ⟨_, by rw [hahead, hnext]⟩
  · split at h
    · simp only [List.cons.injEq] at h
      exact ⟨_, by rw [hahead, h.1]⟩
    · obtain ⟨rest, hts, -⟩ := h
      simp only [List.cons.injEq] at hts
      exact ⟨_, by rw [hahead, hts.1]⟩

/-- It can be taken. -/
theorem take (h : r.Offers (t :: ts)) : ∃ r', Step.take r = (.ok t, r') := by
  obtain ⟨r₁, hpeek⟩ := h.peek
  rw [take_apply, hpeek]
  dsimp only
  split <;> exact ⟨_, rfl⟩

/-- It is accepted if its kind is one of those that are asked for. -/
theorem accept_some (h : r.Offers (t :: ts)) (hmem : t.kind ∈ kinds) :
    ∃ r', Step.accept kinds r = (.ok (some t), r') := by
  obtain ⟨r₁, hpeek⟩ := h.peek
  have htake := take_of_ahead (ahead_of_peek hpeek)
  rw [accept_apply, hpeek]
  dsimp only
  rw [if_pos hmem, map_apply, htake]
  by_cases hkind : t.kind = .endOfInput
  · rw [if_pos hkind]
    exact ⟨_, rfl⟩
  · rw [if_neg hkind]
    exact ⟨_, rfl⟩

/-- It is left where it is if its kind is none of them. -/
theorem accept_none (h : r.Offers (t :: ts)) (hmem : t.kind ∉ kinds) :
    ∃ r', Step.accept kinds r = (.ok none, r') := by
  obtain ⟨r₁, hpeek⟩ := h.peek
  rw [accept_apply, hpeek]
  exact ⟨r₁, if_neg hmem⟩

end Reader.Offers

end ScopedQuery
