import ScopedQuery.Proofs.Partition
import ScopedQuery.Proofs.Places

namespace ScopedQuery

open Text Cursor

/-!
# Tokens that are printed are found again

Where tokens are printed one behind the other, with blanks and comments between them, each of them
is found at the place where it was printed, unless it goes on in the token behind it.

* `Token.Clings` — two tokens that need something between them.  These are four cases.
* `Token.endsBefore_iff` — in all other cases a token ends where the next one starts.
* `Separated` — gaps and tokens such that something stands between the tokens which need it.
* `partition_iff_separated` — these are the ways to print tokens so that they can be told apart.
* `Cursor.Whole.feeds` — a cursor finds the tokens of a partition in their places.
* `tokens_of_printed` — so does the reading of a whole text.
-/

section Printed

variable [NameTable]

/-! ### Tokens that go on in one another -/

namespace Token

/-- The first token goes on in the second one if nothing stands between them: a name in another name
    or in a character that names have, a carriage return in the line feed of the next line break,
    and a slash in a star, with which it opens a comment. -/
inductive Clings (t u : Token) : Prop
  | names : t.kind = .identifier → u.kind = .identifier → Clings t u
  | nameCharacter {c : Char} : t.kind = .identifier → u.kind = .stray →
    u.value = String.ofList [c] → isNameContinue c = true → Clings t u
  | lineBreaks : t.kind = .newline → t.value = "\r" → u.kind = .newline →
    u.value.toList.head? = some '\n' → Clings t u
  | slashStar : t.kind = .stray → t.value = "/" → u.kind = .stray → u.value = "*" → Clings t u

/-- The characters with which strings and punctuation open. -/
def marks : List Char := '"' :: TokenKind.punctuation.map Prod.fst

/-- The token opens with the character, which tells its kind. -/
inductive OpensWith (u : Token) (c : Char) : Prop
  | name : u.kind = .identifier → isNameStart c = true → OpensWith u c
  | lineBreak : u.kind = .newline → u.value.toList.head? = some c → c = '\r' ∨ c = '\n' →
    OpensWith u c
  | stray : u.kind = .stray → u.value = String.ofList [c] → IsStray c → OpensWith u c
  | mark : u.kind ≠ .identifier → u.kind ≠ .newline → u.kind ≠ .stray → c ∈ marks → OpensWith u c

variable {t u : Token} {c : Char} {rest : List Char}

/-- Every token opens with a character, since it has some. -/
theorem exists_opensWith (h : u.IsSpelled) (hkind : u.kind ≠ .endOfInput) :
    ∃ c tail, u.written = c :: tail ∧ u.OpensWith c := by
  obtain ⟨kind, value, location⟩ := u
  cases kind with
  | identifier =>
    have hname : isName value.toList = true := h
    cases hvalue : value.toList with
    | nil => simp [hvalue, isName] at hname
    | cons c tail =>
      rw [hvalue, isName, Bool.and_eq_true] at hname
      exact ⟨c, tail, hvalue, .name rfl hname.1⟩
  | string =>
    have hquote : '"' ∈ marks := List.mem_cons_self
    exact ⟨'"', _, rfl, .mark (by simp) (by simp) (by simp) hquote⟩
  | newline =>
    have hvalue : value = "\n" ∨ value = "\r" ∨ value = "\r\n" := by simpa [IsSpelled] using h
    rcases hvalue with rfl | rfl | rfl
    · exact ⟨'\n', [], by simp [written], .lineBreak rfl (by simp) (.inr rfl)⟩
    · exact ⟨'\r', [], by simp [written], .lineBreak rfl (by simp) (.inl rfl)⟩
    · exact ⟨'\r', ['\n'], by simp [written], .lineBreak rfl (by simp) (.inl rfl)⟩
  | stray =>
    obtain ⟨c, rfl, hstray⟩ := h
    exact ⟨c, [], by simp [written], .stray rfl rfl hstray⟩
  | custom label => exact absurd h id
  | endOfInput => exact absurd rfl hkind
  | _ =>
    obtain ⟨c, hc, rfl⟩ := TokenKind.exists_punctuation h (by simp)
    have hmark : c ∈ marks :=
      List.mem_cons_of_mem _ (List.mem_map_of_mem (TokenKind.mem_punctuation hc))
    exact ⟨c, [], by simp [written], .mark (by simp) (by simp) (by simp) hmark⟩

namespace OpensWith

/-- No mark can be taken for a part of what is before it. -/
theorem marks_apart : ∀ c ∈ marks, isNameContinue c = false ∧ c ≠ '\n' ∧ c ≠ '*' := by
  have hall : marks.all (fun c => decide (c ∈ dividers ∧ c ≠ '\n' ∧ c ≠ '*')) = true := by decide
  intro c hc
  obtain ⟨hdivider, happart⟩ := of_decide_eq_true (List.all_eq_true.mp hall c hc)
  exact ⟨isNameContinue_of_divider hdivider, happart⟩

/-- A name goes on with names and with some characters that are tokens by themselves. -/
theorem nameContinue_iff (h : u.OpensWith c) : isNameContinue c = true ↔
    u.kind = .identifier ∨
      u.kind = .stray ∧ ∃ d, u.value = String.ofList [d] ∧ isNameContinue d = true := by
  cases h with
  | name hkind hstart => simp [hkind, isNameContinue_of_isNameStart hstart]
  | lineBreak hkind _ hbreak =>
    have hnot : isNameContinue c = false :=
      isNameContinue_of_divider (by rcases hbreak with rfl | rfl <;> decide)
    simp [hkind, hnot]
  | stray hkind hvalue _ => simp [hkind, hvalue]
  | mark hname _ hstray hmark => simp [hname, hstray, (marks_apart c hmark).1]

/-- A line feed opens line breaks only. -/
theorem lineFeed_iff (h : u.OpensWith c) :
    c = '\n' ↔ u.kind = .newline ∧ u.value.toList.head? = some '\n' := by
  cases h with
  | name hkind hstart =>
    have hne : c ≠ '\n' := fun heq => (start_of_isNameStart hstart).2.2 (.inr heq)
    simp [hkind, hne]
  | lineBreak hkind hhead _ => simp [hkind, hhead]
  | stray hkind _ hstray => simp [hkind, hstray.2.2.1]
  | mark _ hbreak _ hmark => simp [hbreak, (marks_apart c hmark).2.1]

/-- A star is a token by itself. -/
theorem star_iff (h : u.OpensWith c) : c = '*' ↔ u.kind = .stray ∧ u.value = "*" := by
  cases h with
  | name hkind hstart =>
    have hne : c ≠ '*' := by
      rintro rfl
      exact absurd hstart (by simp [isNameStart_star])
    simp [hkind, hne]
  | lineBreak hkind _ hbreak =>
    have hne : c ≠ '*' := by rcases hbreak with rfl | rfl <;> decide
    simp [hkind, hne]
  | stray hkind hvalue _ =>
    have hstar : u.value = "*" ↔ c = '*' := by
      rw [hvalue, ← String.toList_inj]
      simp
    simp [hkind, hstar]
  | mark _ _ hstray hmark => simp [hstray, (marks_apart c hmark).2.2]

end OpensWith

/-- A token that goes on in the next one does not end before it. -/
theorem Clings.not_endsBefore (hcling : t.Clings u) (hopens : u.OpensWith c) :
    ¬ t.EndsBefore (c :: rest) := by
  unfold EndsBefore
  cases hcling with
  | names ht hu =>
    have hgoes : isNameContinue c = true := hopens.nameContinue_iff.mpr (.inl hu)
    simp [ht, EndsName, hgoes]
  | nameCharacter ht hu hvalue hd =>
    have hgoes : isNameContinue c = true :=
      hopens.nameContinue_iff.mpr (.inr ⟨hu, _, hvalue, hd⟩)
    simp [ht, EndsName, hgoes]
  | lineBreaks ht hvalue hu hhead =>
    have hfeed : c = '\n' := hopens.lineFeed_iff.mpr ⟨hu, hhead⟩
    simp [ht, hvalue, hfeed]
  | slashStar ht hvalue hu hvalue' =>
    have hstar : c = '*' := hopens.star_iff.mpr ⟨hu, hvalue'⟩
    simp [ht, hvalue, hstar]

/-- A token that does not go on in the next one ends before it. -/
theorem endsBefore_of_not_clings (h : ¬ t.Clings u) (hopens : u.OpensWith c) :
    t.EndsBefore (c :: rest) := by
  unfold EndsBefore
  split
  case h_1 ht =>
    apply endsName_cons
    rw [Bool.eq_false_iff]
    intro hgoes
    rcases hopens.nameContinue_iff.mp hgoes with hu | ⟨hu, d, hvalue, hd⟩
    · exact h (.names ht hu)
    · exact h (.nameCharacter ht hu hvalue hd)
  case h_2 ht =>
    intro hvalue hhead
    obtain ⟨hu, hfeed⟩ := hopens.lineFeed_iff.mp (Option.some.inj hhead)
    exact h (.lineBreaks ht hvalue hu hfeed)
  case h_3 ht =>
    intro hvalue hhead
    obtain ⟨hu, hstar⟩ := hopens.star_iff.mp (Option.some.inj hhead)
    exact h (.slashStar ht hvalue hu hstar)
  case h_4 => trivial

/-- A token ends where the next one starts, unless it goes on in that one. -/
theorem endsBefore_iff (h : u.IsSpelled) (hkind : u.kind ≠ .endOfInput) :
    t.EndsBefore (u.written ++ rest) ↔ ¬ t.Clings u := by
  obtain ⟨c, tail, hwritten, hopens⟩ := exists_opensWith h hkind
  rw [hwritten, List.cons_append]
  exact ⟨fun hends hcling => hcling.not_endsBefore hopens hends,
    fun hcling => endsBefore_of_not_clings hcling hopens⟩

end Token

/-! ### Gaps -/

/-- Every token ends where a gap starts, and at the end of the text. -/
theorem Token.endsBefore_of_gap {t : Token} {gap rest : List Char} (hgap : IsTrivia gap)
    (h : gap = [] → rest = []) : t.EndsBefore (gap ++ rest) := by
  cases gap with
  | nil =>
    rw [h rfl]
    unfold EndsBefore
    split <;> simp [EndsName]
  | cons c tail =>
    have hall : [' ', '\t', '/'].all
        (fun c => decide (c ∈ dividers ∧ c ≠ '\n' ∧ c ≠ '*')) = true := by decide
    obtain ⟨hdivider, hfeed, hstar⟩ :=
      of_decide_eq_true (List.all_eq_true.mp hall c (hgap.head?_mem c rfl))
    unfold EndsBefore
    split
    · exact endsName_cons (isNameContinue_of_divider hdivider)
    · simp [hfeed]
    · simp [hstar]
    · trivial

/-! ### Gaps and tokens in turn -/

/-- The gaps are blanks and comments, the tokens are spelled, and a gap between two tokens is empty
    only if the first one does not go on in the second one. -/
structure Separated (pieces : List (List Char × Token)) (last : List Char) : Prop where
  gaps : ∀ piece ∈ pieces, IsTrivia piece.1
  last_trivia : IsTrivia last
  spelled : ∀ piece ∈ pieces, piece.2.IsSpelled ∧ piece.2.kind ≠ .endOfInput
  apart : pieces.IsChain fun a b => a.2.Clings b.2 → b.1 ≠ []

variable {chars gap last : List Char} {t : Token} {pieces : List (List Char × Token)}

/-- What is behind the first token is separated as well. -/
theorem Separated.tail (h : Separated ((gap, t) :: pieces) last) : Separated pieces last :=
  ⟨fun piece hpiece => h.gaps piece (List.mem_cons_of_mem _ hpiece), h.last_trivia,
    fun piece hpiece => h.spelled piece (List.mem_cons_of_mem _ hpiece), h.apart.of_cons⟩

/-- Behind a token something stands that ends it. -/
theorem Separated.endsBefore (h : Separated ((gap, t) :: pieces) last) :
    t.EndsBefore (spread pieces ++ last) := by
  cases pieces with
  | nil =>
    have hlast : t.EndsBefore (last ++ []) := Token.endsBefore_of_gap h.last_trivia fun _ => rfl
    simpa [spread] using hlast
  | cons next pieces =>
    obtain ⟨gap', u⟩ := next
    have happart : t.Clings u → gap' ≠ [] := (List.isChain_cons_cons.mp h.apart).1
    have hgap' : IsTrivia gap' := h.tail.gaps _ List.mem_cons_self
    rw [spread_cons, List.append_assoc]
    by_cases hnil : gap' = []
    · obtain ⟨hspelled, hkind⟩ := h.tail.spelled _ List.mem_cons_self
      rw [hnil, List.nil_append, List.append_assoc, Token.endsBefore_iff hspelled hkind]
      exact fun hcling => happart hcling hnil
    · exact Token.endsBefore_of_gap hgap' fun h => absurd h hnil

/-- What was printed falls into the pieces again exactly if these are separated. -/
theorem partition_iff_separated :
    Partition (spread pieces ++ last) pieces last ↔ Separated pieces last := by
  constructor
  · intro h
    generalize spread pieces ++ last = chars at h
    induction h with
    | gap hlast => exact ⟨by simp, hlast, by simp, .nil⟩
    | @token gap rest last t pieces hgap hlexeme hrest ih =>
      refine ⟨?_, ih.last_trivia, ?_, ?_⟩
      · exact List.forall_mem_cons.mpr ⟨hgap, ih.gaps⟩
      · exact List.forall_mem_cons.mpr ⟨⟨hlexeme.spelled, hlexeme.kind_ne⟩, ih.spelled⟩
      · cases hrest with
        | gap _ => exact .singleton _
        | @token gap' rest' _ u _ _ hlexeme' _ =>
          refine List.isChain_cons_cons.mpr ⟨fun hcling hnil => ?_, ih.apart⟩
          have hends := hlexeme.ends
          rw [show gap' = [] from hnil, List.nil_append,
            Token.endsBefore_iff hlexeme'.spelled hlexeme'.kind_ne] at hends
          exact hends hcling
  · intro h
    induction pieces with
    | nil => exact .gap h.last_trivia
    | cons piece pieces ih =>
      obtain ⟨gap, t⟩ := piece
      obtain ⟨hspelled, hkind⟩ := h.spelled _ List.mem_cons_self
      rw [spread_cons, List.append_assoc, List.append_assoc]
      exact .token (h.gaps _ List.mem_cons_self) ⟨hspelled, hkind, h.endsBefore⟩ (ih h.tail)

/-! ### Places -/

namespace Cursor.Whole

variable {source : String} {c : Cursor}

/-- The tokens of a partition are found one by one, each at the place behind those before it. -/
theorem feeds (h : c.Whole source) (hc : Partition c.rest pieces last) :
    ∃ ts, Feeds c (ts ++ [⟨.endOfInput, "EOF", locate source.toList source.toList.length⟩]) ∧
      ts.length = pieces.length ∧
      ∀ before gap t after, pieces = before ++ (gap, t) :: after →
        ts[before.length]? = some
          ⟨t.kind, t.value, locate source.toList (c.offset + (spread before ++ gap).length)⟩ := by
  generalize hrest : c.rest = chars at hc
  induction hc generalizing c with
  | @gap gap hgap =>
    have hwhole : (c.skip gap.length).Whole source :=
      h.skip (by rw [hrest, List.append_nil]) (hgap.not_splitsBreak _)
    have hend : (c.skip gap.length).rest = [] := by simp [hrest]
    -- nothing is left, so the offset is the length of the text
    have hoffset : (c.skip gap.length).offset = source.toList.length := by
      rw [← hwhole.length_past, hwhole.cut.eq_append, hend, List.append_nil]
    have hnext : c.nextToken = (.ok ⟨.endOfInput, "EOF", (c.skip gap.length).location⟩,
        c.skip gap.length) := by
      rw [nextToken_of_trivia hgap (by rw [hrest, List.append_nil]), nextToken_of_done hend]
    rw [hwhole.location_eq, hoffset] at hnext
    exact ⟨[], .last hnext rfl, rfl, by simp⟩
  | @token gap rest last t pieces hgap hlexeme _ ih =>
    have hgapWhole : (c.skip gap.length).Whole source := h.skip hrest (hgap.not_splitsBreak _)
    have hoffset : (c.skip gap.length).offset = c.offset + gap.length :=
      offset_skip (by simp [hrest])
    have hnext := nextToken_of_found hgap hrest (.inl hlexeme)
    rw [hgapWhole.location_eq, hoffset] at hnext
    obtain ⟨ts, hfeeds, hlength, hplaces⟩ := ih (h.token hnext).1 (by simp [hrest])
    refine ⟨_ :: ts, .more hnext hlexeme.kind_ne hfeeds, by simp [hlength], ?_⟩
    intro before gap' t' after hsplit
    cases before with
    | nil =>
      obtain ⟨⟨rfl, rfl⟩, -⟩ : (gap = gap' ∧ t = t') ∧ pieces = after := by simpa using hsplit
      simp [spread]
    | cons piece before =>
      obtain ⟨rfl, hbehind⟩ := List.cons.inj hsplit
      have hfront : ((c.skip gap.length).skip t.written.length).offset
          = c.offset + gap.length + t.written.length := by
        rw [offset_skip (by simp [hrest]), hoffset]
      rw [List.length_cons, List.getElem?_cons_succ, hplaces before gap' t' after hbehind, hfront,
        spread_cons]
      simp only [List.length_append, Nat.add_assoc]

end Cursor.Whole

/-- **Tokens that are printed are found again.**  Where spelled tokens are printed in a row with
    blanks and comments between them, and something stands between two tokens wherever the first
    one would go on in the second one, the text has these tokens and no others.  Each stands at the
    place where its characters were printed, and the end of the input behind the last character.
    This holds for every table of the characters that names are made of. -/
theorem tokens_of_printed (h : Separated pieces last) :
    ∃ ts, (ofText (String.ofList (spread pieces ++ last))).tokens.1
        = .ok (ts ++ [⟨.endOfInput, "EOF",
            locate (spread pieces ++ last) (spread pieces ++ last).length⟩]) ∧
      ts.length = pieces.length ∧
      ∀ before gap t after, pieces = before ++ (gap, t) :: after →
        ts[before.length]? = some
          ⟨t.kind, t.value, locate (spread pieces ++ last) (spread before ++ gap).length⟩ := by
  have hchars : (ofText (String.ofList (spread pieces ++ last))).rest = spread pieces ++ last := by
    simp [ofText]
  obtain ⟨ts, hfeeds, hlength, hplaces⟩ :=
    (whole_ofText _).feeds (hchars.symm ▸ partition_iff_separated.mpr h)
  rw [String.toList_ofList] at hfeeds hplaces
  refine ⟨ts, feeds_iff_tokens.mp hfeeds, hlength, fun before gap t after hsplit => ?_⟩
  rw [hplaces before gap t after hsplit, show (ofText _).offset = 0 from rfl, Nat.zero_add]

end Printed

/-- A slash and a star with a comment between them that holds a quote, a string that holds the
    opening of a comment, and two line breaks that a tab keeps apart. -/
theorem tokens_of_printed_of_comment :
    ∃ ts eof, (ofText "//*\"*/*\"/*\"\r\t\n").tokens.1 = .ok (ts ++ [eof]) ∧ ts.length = 5 ∧
      ts[1]? = some ⟨.stray, "*", ⟨6, 1, 7⟩⟩ ∧ ts[4]? = some ⟨.newline, "\n", ⟨13, 2, 2⟩⟩ := by
  let pieces : List (List Char × Token) :=
    [([], ⟨.stray, "/", {}⟩), (['/', '*', '"', '*', '/'], ⟨.stray, "*", {}⟩),
      ([], ⟨.string, "/*", {}⟩), ([], ⟨.newline, "\r", {}⟩), (['\t'], ⟨.newline, "\n", {}⟩)]
  have hbody : ¬ commentClose <:+: ['"'] := by decide
  have hcomment : IsTrivia ['/', '*', '"', '*', '/'] := .comment hbody .nil
  have htab : IsTrivia ['\t'] := .blank (by decide) .nil
  have hslash : Token.IsStray '/' := by
    unfold Token.IsStray
    decide +kernel
  have hstar : Token.IsStray '*' := by
    unfold Token.IsStray
    decide +kernel
  have hspelled : ∀ piece ∈ pieces, piece.2.IsSpelled ∧ piece.2.kind ≠ .endOfInput := by
    simp only [pieces, List.forall_mem_cons, List.not_mem_nil, false_implies, implies_true,
      and_true]
    refine ⟨⟨⟨'/', rfl, hslash⟩, by simp⟩, ⟨⟨'*', rfl, hstar⟩, by simp⟩, ⟨?_, by simp⟩,
      ⟨?_, by simp⟩, ⟨?_, by simp⟩⟩
    all_goals simp [Token.IsSpelled]
  have hseparated : Separated pieces [] := by
    refine ⟨by simp [pieces, hcomment, htab, IsTrivia.nil], .nil, hspelled, ?_⟩
    -- the two empty gaps stand on both sides of the string
    simp only [pieces, List.isChain_cons_cons, ne_eq, List.cons_ne_nil, not_false_eq_true,
      implies_true, not_true_eq_false, true_and, imp_false]
    refine ⟨?_, ?_, .singleton _⟩
    · intro hcling
      cases hcling <;> contradiction
    · intro hcling
      cases hcling <;> contradiction
  obtain ⟨ts, htokens, hlength, hplaces⟩ := tokens_of_printed hseparated
  have htext : String.ofList (spread pieces ++ []) = "//*\"*/*\"/*\"\r\t\n" := by decide +kernel
  have hplace : locate (spread pieces ++ [])
      (spread (pieces.take 1) ++ ['/', '*', '"', '*', '/']).length = ⟨6, 1, 7⟩ := by decide +kernel
  have hplace' : locate (spread pieces ++ []) (spread (pieces.take 4) ++ ['\t']).length
      = ⟨13, 2, 2⟩ := by decide +kernel
  refine ⟨ts, _, htext ▸ htokens, hlength, ?_, ?_⟩
  · rw [← hplace]
    exact hplaces (pieces.take 1) _ _ _ rfl
  · rw [← hplace']
    exact hplaces (pieces.take 4) _ _ _ rfl

end ScopedQuery
