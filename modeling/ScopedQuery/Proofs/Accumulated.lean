import ScopedQuery.Proofs.Compose
import ScopedQuery.Proofs.RoundTrip

namespace ScopedQuery

open Text

/-!
# Formatters that are given many queries

A formatter keeps the lines of all queries that it has been given.  Between two of them nothing
else is kept: the levels of the tree view are left again, however deep they were, and the line feed
between two canonical texts divides the last statement of one from the first statement of the next.

* `ViewWriter` — the tree view written line by line, with a level that is entered and left.
* `ViewWriter.Writes` — lines that are written without leaving a trace in the level.
* `Formatter.texts` — what a formatter returns for one query after another.
* `Query.join` — the statements of many queries.
* `texts_join` — the texts are those of the single queries, and they are read as the joined query.
-/

/-! ### The tree view with a level -/

/-- The lines that have been written, and the level at which the next one stands. -/
structure ViewWriter where
  lines : List String := []
  level : Int := 0

namespace ViewWriter

/-- Writes a line, indented by its level. -/
def line (text : String) (l : Location) (w : ViewWriter) : ViewWriter :=
  { w with lines := w.lines ++
      [String.ofList (List.replicate (2 * w.level).toNat ' ') ++ text ++ s!" @{l.line}:{l.col}"] }

/-- Enters the next level, writes, and leaves the level. -/
def within (write : ViewWriter → ViewWriter) (w : ViewWriter) : ViewWriter :=
  let w' := write { w with level := w.level + 1 }
  { w' with level := w'.level - 1 }

def argument (w : ViewWriter) (a : Argument) : ViewWriter :=
  w.line ("arg " ++ a.name ++ "=\"" ++ a.value ++ "\"") a.location

def verb (w : ViewWriter) : Verb → ViewWriter
  | .named name arguments location =>
    (w.line ("verb @" ++ name) location).within fun w => arguments.foldl argument w
  | .filter pattern location => w.line ("filter \"" ++ pattern ++ "\"") location

mutual

def statement (w : ViewWriter) : Statement → ViewWriter
  | .plain verbs location =>
    (w.line (if verbs.isEmpty then "statement (empty)" else "statement") location).within
      fun w => verbs.foldl verb w
  | .nested verbs body opened location =>
    (w.line "statement" location).within fun w =>
      ((verbs.foldl verb w).line "scope" opened).within fun w => statements w body

def statements (w : ViewWriter) : List Statement → ViewWriter
  | [] => w
  | s :: rest => statements (statement w s) rest

end

def query (w : ViewWriter) (q : Query) : ViewWriter :=
  (w.line "query" q.location).within fun w => statements w q.statements

/-! ### Levels are left again -/

/-- The lines of each level are written at that level, and nothing else changes. -/
def Writes (write : ViewWriter → ViewWriter) (lines : Nat → List String) : Prop :=
  ∀ (w : ViewWriter) (level : Nat), w.level = level →
    write w = { w with lines := w.lines ++ lines level }

section Writes

variable {write write' : ViewWriter → ViewWriter} {lines lines' : Nat → List String}

/-- A writer that is left alone has no lines to add. -/
theorem writes_nothing : Writes id fun _ => [] := by
  intro w level h
  simp

/-- A single line is indented by the level at which it is written. -/
theorem writes_line (text : String) (l : Location) :
    Writes (line text l) fun level => [viewLine level text l] := by
  intro w level h
  have hblanks : (2 * w.level).toNat = 2 * level := by omega
  simp only [line, hblanks, viewLine]

/-- What is written first stands first. -/
theorem Writes.comp (h : Writes write lines) (h' : Writes write' lines') :
    Writes (write' ∘ write) fun level => lines level ++ lines' level := by
  intro w level hlevel
  have hlevel' : { w with lines := w.lines ++ lines level }.level = (level : Int) := hlevel
  rw [Function.comp_apply, h w level hlevel, h' _ level hlevel']
  simp only [List.append_assoc]

/-- What is written one level deeper leaves the level as it was. -/
theorem Writes.within (h : Writes write lines) :
    Writes (ViewWriter.within write) fun level => lines (level + 1) := by
  intro w level hlevel
  have hdeeper : w.level + 1 = ((level + 1 : Nat) : Int) := by omega
  simp only [ViewWriter.within, h { w with level := w.level + 1 } (level + 1) hdeeper]
  rw [Int.add_sub_cancel]

/-- The lines of a list are those of its items one after another, all at the same level. -/
theorem Writes.foldl {α : Type} {write : ViewWriter → α → ViewWriter}
    {lines : Nat → α → List String} {items : List α}
    (h : ∀ a ∈ items, Writes (write · a) (lines · a)) :
    Writes (fun w => items.foldl write w) fun level => items.flatMap (lines level) := by
  induction items with
  | nil => exact writes_nothing
  | cons a items ih =>
    rw [List.forall_mem_cons] at h
    exact h.1.comp (ih h.2)

end Writes

theorem writes_argument (a : Argument) : Writes (argument · a) fun level => a.viewLines level :=
  writes_line _ _

/-- A verb takes one line, and below it one for each of its arguments. -/
theorem writes_verb (v : Verb) : Writes (verb · v) fun level => v.viewLines level := by
  cases v with
  | filter pattern location => exact writes_line _ _
  | named name arguments location =>
    exact (writes_line _ _).comp (Writes.foldl fun a _ => writes_argument a).within

/-- The statements of a scope are written in order, if each of them is written as it should be. -/
theorem writes_statements {body : List Statement}
    (h : ∀ s ∈ body, Writes (statement · s) fun level => s.viewLines level) :
    Writes (statements · body) fun level => Statement.viewLinesAll level body := by
  induction body with
  | nil => exact writes_nothing
  | cons s rest ih =>
    rw [List.forall_mem_cons] at h
    exact h.1.comp (ih h.2)

/-- A statement is written at the level at which the writer stands, however deep its scopes are. -/
theorem writes_statement (s : Statement) :
    Writes (statement · s) fun level => s.viewLines level := by
  induction s using Statement.inductionOn with
  | plain verbs location =>
    -- only the heading depends on whether there are verbs
    have hverbs := (Writes.foldl fun v (_ : v ∈ verbs) => writes_verb v).within
    cases verbs with
    | nil => exact (writes_line "statement (empty)" location).comp hverbs
    | cons v verbs => exact (writes_line "statement" location).comp hverbs
  | nested verbs body opened location ih =>
    have hverbs := Writes.foldl fun v (_ : v ∈ verbs) => writes_verb v
    have hscope := (writes_line "scope" opened).comp (writes_statements ih).within
    have hall := (writes_line "statement" location).comp (hverbs.comp hscope).within
    -- the pieces are one behind the other as the lines of the view are
    intro w level hlevel
    refine (hall w level hlevel).trans ?_
    simp only [Statement.viewLines, List.cons_append, List.nil_append]

/-- A whole query is written from level 0 on, and the writer is back at level 0 behind it. -/
theorem writes_query (q : Query) (w : ViewWriter) (h : w.level = 0) :
    w.query q = { w with lines := w.lines ++ q.viewLines } := by
  have hbody := (writes_statements fun s (_ : s ∈ q.statements) => writes_statement s).within
  exact ((writes_line "query" q.location).comp hbody) w 0 h

end ViewWriter

/-! ### The texts of a formatter -/

namespace Formatter

/-- What a formatter returns for queries that it is given one after another: its text each time. -/
def texts (f : Formatter) : List Query → List String
  | [] => []
  | q :: rest => (f.add q).text :: texts (f.add q) rest

/-- The lines of a formatter are those of all the queries it was given, in order. -/
theorem lines_foldl_add (f : Formatter) (qs : List Query) :
    qs.foldl add f = { f with lines := f.lines ++ qs.flatMap f.style.lines } := by
  induction qs generalizing f with
  | nil => simp
  | cons q rest ih => simp [ih, add, List.append_assoc]

/-- The text that is returned last holds all queries. -/
theorem getElem?_texts (f : Formatter) {qs : List Query} {k : Nat} (hk : k < qs.length) :
    (f.texts qs)[k]? = some ((qs.take (k + 1)).foldl add f).text := by
  induction qs generalizing f k with
  | nil => simp at hk
  | cons q rest ih =>
    cases k with
    | zero => simp [texts]
    | succ k => simpa [texts] using ih (f.add q) (by simpa using hk)

end Formatter

/-- Even an empty query has a line, so a text is never left out between two others. -/
theorem Style.lines_ne_nil (style : Style) (q : Query) : style.lines q ≠ [] := by
  cases style with
  | canonical => exact List.cons_ne_nil _ _
  | tree => exact List.cons_ne_nil _ _

/-- Lines in groups are joined group by group. -/
theorem intercalate_flatMap {α : Type} {sep : String} {f : α → List String} (hf : ∀ a, f a ≠ [])
    (items : List α) :
    sep.intercalate (items.flatMap f)
      = sep.intercalate (items.map fun a => sep.intercalate (f a)) := by
  induction items with
  | nil => rfl
  | cons a rest ih =>
    cases rest with
    | nil => simp
    | cons b rest =>
      have hne : (b :: rest).flatMap f ≠ [] := by simp [hf]
      rw [List.flatMap_cons, String.intercalate_append_of_ne_nil (hf a) hne, ih]
      simp only [List.map_cons, String.intercalate_cons_cons]

/-- The text of many queries is that of each query, joined. -/
theorem text_foldl_add (style : Style) (qs : List Query) :
    (qs.foldl Formatter.add { style }).text = "\n".intercalate (qs.map (·.format style)) := by
  rw [Formatter.lines_foldl_add, Formatter.text, List.nil_append,
    intercalate_flatMap style.lines_ne_nil]
  rfl

namespace ViewWriter

/-- One writer goes through any number of queries, and starts each of them at level 0. -/
theorem foldl_query (qs : List Query) {w : ViewWriter} (h : w.level = 0) :
    qs.foldl query w = { w with lines := w.lines ++ qs.flatMap Query.viewLines } := by
  induction qs generalizing w with
  | nil => simp
  | cons q rest ih =>
    have h' : { w with lines := w.lines ++ q.viewLines }.level = 0 := h
    rw [List.foldl_cons, writes_query q w h, ih h']
    simp only [List.flatMap_cons, List.append_assoc]

end ViewWriter

/-! ### Queries joined -/

/-- The statements of many queries, in order. -/
def Query.join (qs : List Query) : Query := ⟨qs.flatMap (·.statements), {}⟩

/-- Queries that can be written can be written together. -/
theorem Query.wellFormed_join {qs : List Query} (hne : qs ≠ []) (h : ∀ q ∈ qs, q.WellFormed) :
    (join qs).WellFormed ∧
      (join qs).phrase = [TokenKind.semicolon.mark].intercalate (qs.map phrase) := by
  induction qs with
  | nil => exact absurd rfl hne
  | cons q rest ih =>
    rw [List.forall_mem_cons] at h
    have happend : join (q :: rest) = q.append (join rest) := rfl
    -- a last query has no semicolon behind it, so it is a case of its own
    cases rest with
    | nil =>
      have hsingle : join [q] = ⟨q.statements, {}⟩ := by simp [join]
      rw [hsingle]
      exact ⟨⟨h.1.filled, h.1.spelled⟩, by simp [phrase]⟩
    | cons q' rest =>
      obtain ⟨hwell, hphrase⟩ := ih (List.cons_ne_nil _ _) h.2
      obtain ⟨hwell', hphrase'⟩ := h.1.append hwell
      rw [happend]
      refine ⟨hwell', ?_⟩
      rw [hphrase', hphrase]
      simp

/-- A line feed is a token by itself, whatever stands behind it. -/
theorem spellsAlone_lineFeed : SpellsAlone ['\n'] [⟨.newline, "\n", {}⟩] := by
  intro rest ts h
  refine h.cons (by simp) fun c hc => ?_
  have hlexeme : (⟨.newline, "\n", {}⟩ : Token).Lexeme rest :=
    ⟨by simp [Token.IsSpelled], by simp, fun hreturn => absurd hreturn (by decide)⟩
  obtain ⟨d, hnext, hrest⟩ :=
    Cursor.nextToken_of_break hlexeme rfl (by simpa [Token.written] using hc)
  exact ⟨_, d, hnext, rfl, hrest⟩

/-- A line feed between phrases is a semicolon once the line breaks are settled. -/
theorem eraseBreaks_lineFeeds (qs : List Query) {eof : Token} (heof : eof.kind ≠ .newline) :
    eraseBreaks false ([⟨.newline, "\n", {}⟩].intercalate (qs.map Query.phrase) ++ [eof])
      = [TokenKind.semicolon.mark].intercalate (qs.map Query.phrase) ++ [eof] := by
  -- a phrase has no line breaks, so only those between two phrases are there
  have hphrase (q : Query) : eraseBreaks false q.phrase = q.phrase :=
    eraseBreaks_eq_self q.kind_ne_newline_of_mem_phrase
  have hend : eraseBreaks false [eof] = [eof] := eraseBreaks_eq_self (by simpa using heof)
  induction qs with
  | nil => exact hend
  | cons q rest ih =>
    cases rest with
    | nil =>
      simp only [List.map_cons, List.map_nil, List.intercalate_singleton]
      rw [eraseBreaks_append q.insideAll_phrase, hphrase, hend]
    | cons q' rest =>
      simp only [List.map_cons, List.intercalate_cons_cons, List.append_assoc,
        List.singleton_append] at ih ⊢
      rw [eraseBreaks_append q.insideAll_phrase, hphrase, List.cons_append, eraseBreaks, if_pos rfl,
        if_neg (by simp), ih]
      rfl

/-- The canonical texts of queries, one on each line, are read as the joined query. -/
theorem gives_join {qs : List Query} (hne : qs ≠ []) (h : ∀ q ∈ qs, q.WellFormed) :
    Gives (Query.ofText ("\n".intercalate (qs.map Query.canonical))) (Query.join qs) := by
  obtain ⟨hwell, hphrase⟩ := Query.wellFormed_join hne h
  have hsep : SpellsAlone "\n".toList [⟨.newline, "\n", {}⟩] := spellsAlone_lineFeed
  have hspells := spells_intercalate_map hsep (by simp) (endsName_cons (by decide +kernel))
    fun q hq => Query.spells_canonical (h q hq).spelled
  obtain ⟨ts, hfeeds, hts⟩ := hspells.lexes (Cursor.ofText _) rfl
  refine ofText_gives_iff.mpr ⟨hwell, ts, feeds_iff_tokens.mp hfeeds, ?_⟩
  rw [map_unplaced_eraseBreaks, hts, eraseBreaks_lineFeeds qs (by decide), hphrase]

/-- **One formatter for many queries.**  The text that a formatter returns for the `k`-th query that
    it is given is what formatters of their own return for the queries up to that one, joined by
    line feeds.  Written line by line, the tree view is the same, and its level is zero again behind
    every query.  If the queries can be written, each canonical text is read as the query that has
    the statements of all queries up to it, in order. -/
theorem texts_join {qs : List Query} {k : Nat} (hk : k < qs.length) :
    (∀ style, (Formatter.texts { style } qs)[k]?
      = some ("\n".intercalate ((qs.take (k + 1)).map (·.format style)))) ∧
    (∃ lines, (qs.take (k + 1)).foldl ViewWriter.query {} = ⟨lines, 0⟩ ∧
      (Formatter.texts { style := .tree } qs)[k]? = some ("\n".intercalate lines)) ∧
    ((∀ q ∈ qs, q.WellFormed) →
      ∃ text, (Formatter.texts { style := .canonical } qs)[k]? = some text ∧
        Gives (Query.ofText text) (Query.join (qs.take (k + 1)))) := by
  have htexts (style : Style) : (Formatter.texts { style } qs)[k]?
      = some ("\n".intercalate ((qs.take (k + 1)).map (·.format style))) := by
    rw [Formatter.getElem?_texts _ hk, text_foldl_add]
  refine ⟨htexts, ⟨(qs.take (k + 1)).flatMap Query.viewLines, ?_, ?_⟩,
    fun hwell => ⟨_, htexts .canonical, ?_⟩⟩
  · rw [ViewWriter.foldl_query _ rfl]
    rfl
  · rw [Formatter.getElem?_texts _ hk, Formatter.lines_foldl_add]
    rfl
  -- the query that was given is among them, and from no query no text can be read
  · have hne : qs.take (k + 1) ≠ [] := by
      rw [ne_eq, List.take_eq_nil_iff, not_or]
      exact ⟨Nat.succ_ne_zero k, List.ne_nil_of_length_pos (by omega)⟩
    have htext : (fun q : Query => q.format .canonical) = Query.canonical :=
      funext Query.format_canonical
    rw [htext]
    exact gives_join hne fun q hq => hwell q (List.mem_of_mem_take hq)

/-- Two queries of an empty statement each, and one between them that ends with an empty statement
    behind a scope. -/
theorem texts_join_of_empty :
    ∃ q empty : Query, q.WellFormed ∧ empty.WellFormed ∧
      (Formatter.texts { style := .canonical } [empty, q, empty])[2]?
        = some "\n\"p\" \x7b\x7d; \n" ∧
      Gives (Query.ofText "\n\"p\" \x7b\x7d; \n") (Query.join [empty, q, empty]) := by
  let q : Query := ⟨[.nested [.filter "p" {}] [.plain [] {}] {} {}, .plain [] {}], {}⟩
  let empty : Query := ⟨[.plain [] {}], {}⟩
  have hq : q.WellFormed := ⟨by decide, by decide⟩
  have hempty : empty.WellFormed := ⟨by decide, by decide⟩
  have hwell : ∀ q' ∈ [empty, q, empty], q'.WellFormed := by simp [hq, hempty]
  obtain ⟨-, -, hgives⟩ := texts_join (show 2 < [empty, q, empty].length by decide)
  obtain ⟨text, htext, hread⟩ := hgives hwell
  have hwritten : (Formatter.texts { style := .canonical } [empty, q, empty])[2]?
      = some "\n\"p\" \x7b\x7d; \n" := by decide +kernel
  obtain rfl : text = "\n\"p\" \x7b\x7d; \n" := Option.some.inj (htext.symm.trans hwritten)
  exact ⟨q, empty, hq, hempty, hwritten, hread⟩

end ScopedQuery
