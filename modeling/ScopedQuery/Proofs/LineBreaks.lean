import ScopedQuery.CommandLine.Run
import ScopedQuery.Proofs.Unified

namespace ScopedQuery

open Text

/-!
# Line breaks make no difference

A query in a file is read with its line breaks unified, and a query in an argument is read as it is.
Both give the same tree but for the line breaks in its strings and the offsets of its nodes, or the
same error at the same line and column.

* `Text.isPrintable_of_mem_quote` — a text between quote marks has visible characters only.
* `Diagnostic.unified`, `Failure.unified`, `unifiedOutcome` — an error, and what comes of reading a
  text, told for the unified text.
* `Problem.report_carry_unifying` — what is wrong with a token is wrong with the token told again.
* `Request.finish` — what a request makes of what was read.
* `ofText_unified` — the outcome of reading a unified text, and what requests make of it.
-/

/-! ### Messages -/

namespace Text

/-- A text without carriage returns is unified already. -/
theorem unified_of_not_mem {s : String} (h : '\r' ∉ s.toList) : unified s = s := by
  rw [unified, unifyLineBreaks_of_not_mem h, String.ofList_toList]

/-- Two texts may be unified one by one unless a line break of two characters is cut in half. -/
theorem unified_append {s t : String} (h : ¬ SplitsBreak s.toList t.toList) :
    unified (s ++ t) = unified s ++ unified t := by
  simp only [unified, String.toList_append, unifyLineBreaks_append h, String.ofList_append]

/-- Digits are visible. -/
theorem isPrintable_of_mem_hexDigits {width n : Nat} {c : Char} (h : c ∈ hexDigits width n) :
    isPrintable c = true := by
  have hdigit : ∀ k < 16, isPrintable (Nat.digitChar k) = true := by decide
  induction width generalizing n with
  | zero => cases h
  | succ width ih =>
    rw [hexDigits, List.mem_append, List.mem_singleton] at h
    rcases h with h | rfl
    · exact ih h
    · exact hdigit _ (Nat.mod_lt n (by decide))

/-- A character is written in visible characters. -/
theorem isPrintable_of_mem_escape {mark c d : Char} (hmark : isPrintable mark = true)
    (h : d ∈ escape mark c) : isPrintable d = true := by
  have hslash : isPrintable '\\' = true := by decide
  -- all escapes but that of a mark are a letter and digits; line breaks and tabs have no digits
  have hescaped {letter : Char} (width : Nat) {n : Nat} (hletter : isPrintable letter = true)
      (h : d ∈ '\\' :: letter :: hexDigits width n) : isPrintable d = true := by
    obtain rfl | h := List.mem_cons.mp h
    · exact hslash
    obtain rfl | h := List.mem_cons.mp h
    · exact hletter
    · exact isPrintable_of_mem_hexDigits h
  unfold escape at h
  split at h
  case isTrue hc =>
    refine hescaped (n := 0) 0 ?_ h
    obtain rfl | rfl := hc
    · exact hmark
    · exact hslash
  split at h
  · exact hescaped (n := 0) 0 (by decide) h
  split at h
  · exact hescaped (n := 0) 0 (by decide) h
  split at h
  · exact hescaped (n := 0) 0 (by decide) h
  split at h
  case isTrue hc => rwa [List.mem_singleton.mp h]
  split at h
  · exact hescaped 2 (by decide) h
  split at h
  · exact hescaped 4 (by decide) h
  · exact hescaped 8 (by decide) h

/-- A text between quote marks has visible characters only. -/
theorem isPrintable_of_mem_quote {s : String} {c : Char} (h : c ∈ (quote s).toList) :
    isPrintable c = true := by
  have hmark : isPrintable (quoteMark s.toList) = true := by
    unfold quoteMark
    split <;> decide
  simp only [quote, quoteChars, String.toList_ofList, List.mem_append, List.mem_cons,
    List.mem_flatMap, List.not_mem_nil, or_false] at h
  obtain (rfl | ⟨d, -, h⟩) | rfl := h
  · exact hmark
  · exact isPrintable_of_mem_escape hmark h
  · exact hmark

/-- So are the digits of a number. -/
theorem isPrintable_of_mem_toString {n : Nat} {c : Char} (h : c ∈ (toString n).toList) :
    isPrintable c = true := by
  rw [Nat.toString_eq_ofList_toDigits, String.toList_ofList] at h
  have hdigit := Nat.isDigit_of_mem_toDigits (by decide) (by decide) h
  simp only [Char.isDigit, Bool.and_eq_true, decide_eq_true_eq, UInt32.le_iff_toNat_le] at hdigit
  obtain ⟨hlow, hhigh⟩ := hdigit
  have hlow' : 48 ≤ c.toNat := hlow
  have hhigh' : c.toNat ≤ 57 := hhigh
  rw [isPrintable, if_pos (by omega)]
  simp
  omega

/-- A text between quote marks has no carriage return, which is written by letter. -/
theorem not_mem_quote (s : String) : '\r' ∉ (quote s).toList :=
  fun h => absurd (isPrintable_of_mem_quote h) (by decide)

/-- No number holds a carriage return, be it negative or not. -/
theorem not_mem_toString (n : Int) : '\r' ∉ (toString n).toList := by
  have hdigits (k : Nat) : '\r' ∉ (toString k).toList :=
    fun h => absurd (isPrintable_of_mem_toString h) (by decide)
  cases n with
  | ofNat k => exact hdigits k
  | negSucc k =>
    show '\r' ∉ ("-" ++ toString (k + 1)).toList
    rw [String.toList_append, List.mem_append, not_or]
    exact ⟨by decide, hdigits (k + 1)⟩

end Text

/-! ### Errors -/

/-- The error told for the unified text. -/
def Diagnostic.unified (d : Diagnostic) : Diagnostic :=
  { d with
    message := Text.unified d.message
    location := (Carrier.unifying d.source.toList).place d.location
    found := d.found.map Text.unified
    source := Text.unified d.source }

/-- The failure told for the unified text `source`. -/
def Failure.unified : Failure ScanFault → Failure ScanFault
  | .feed (.misspelled d) => .feed (.misspelled d.unified)
  | .refused d => .refused d.unified
  | failure => failure

/-- The error points at the same line. -/
theorem Diagnostic.sourceLine_unified (d : Diagnostic) : d.unified.sourceLine = d.sourceLine := by
  have hlines : lines (Text.unified d.source).toList = lines d.source.toList := by
    rw [Text.unified, String.toList_ofList, lines_unifyLineBreaks]
  simp only [sourceLine, unified, Carrier.unifying, hlines]

/-- A token told again is described in the same words, but for the line breaks in a string. -/
theorem Token.describe_carry_unifying {t : Token} {source : List Char} (h : t.IsSpelled) :
    (t.carry (.unifying source)).describe = unified t.describe := by
  have hstring (value : String) :
      unified ("\"" ++ value ++ "\"") = "\"" ++ unified value ++ "\"" := by
    have hquote : unified "\"" = "\"" := by decide
    rw [unified_append (fun hsplit => absurd hsplit.2 (by decide)),
      unified_append (fun hsplit => absurd hsplit.1 (by decide)), hquote]
  obtain ⟨kind, value, location⟩ := t
  -- only a string is described by its text as it is; the other texts are quoted or fixed
  cases kind with
  | string => exact (hstring value).symm
  | identifier => exact (unified_of_not_mem (not_mem_quote value)).symm
  | stray => exact (unified_of_not_mem (not_mem_quote value)).symm
  | custom label => exact absurd h id
  | _ =>
    simp only [describe, kind_carry, TokenKind.title?, Option.getD_some]
    exact (unified_of_not_mem (by decide)).symm

/-- What is found behind a query is the token that is refused. -/
theorem Standing.eq_describe_of_trailing {c : Standing} {t : Token} {found : String}
    (h : c.push t = .refused (.trailing found)) : found = t.describe :=
  foundAt_of_refused h

/-- The wording of a problem is unified with the text. -/
theorem Problem.message_carry_unifying {problem : Problem} {t : Token} {source : List Char}
    (ht : t.IsSpelled) (hfound : ∀ found, problem = .trailing found → found = t.describe) :
    (problem.carry (.unifying source) t).message = unified problem.message := by
  have hplain (problem : Problem) (h : '\r' ∉ problem.message.toList) :
      problem.message = unified problem.message := (unified_of_not_mem h).symm
  have hnumbers (before : String) (l : Location) (h : '\r' ∉ before.toList) :
      '\r' ∉ (before ++ toString l.line ++ ", col " ++ toString l.col).toList := by
    simp only [String.toList_append, List.mem_append, not_or]
    exact ⟨⟨⟨h, not_mem_toString _⟩, by decide +kernel⟩, not_mem_toString _⟩
  have hquoted (before name : String) (h : '\r' ∉ before.toList) :
      unified (before ++ quote name) = before ++ quote name := by
    apply unified_of_not_mem
    rw [String.toList_append, List.mem_append, not_or]
    exact ⟨h, not_mem_quote name⟩
  -- the token that is found is the only part of a message that may hold a line break
  cases problem with
  | noEquals argument => exact (hquoted _ argument (by decide +kernel)).symm
  | noValue argument => exact (hquoted _ argument (by decide +kernel)).symm
  | openScope opened =>
    have hmessage (l : Location) : (openScope l).message = "Scope opened at line " ++
        toString l.line ++ ", col " ++ toString l.col ++ " is never closed" := rfl
    rw [carry, hmessage, hmessage]
    refine (unified_of_not_mem ?_).symm
    rw [String.toList_append, List.mem_append, not_or]
    exact ⟨hnumbers _ opened (by decide +kernel), by decide +kernel⟩
  | noClosingBrace opened =>
    have hmessage (l : Location) : (noClosingBrace l).message =
        "Expected '\x7d' to close scope opened at " ++
          ("line " ++ toString l.line ++ ", col " ++ toString l.col) := rfl
    rw [carry, hmessage, hmessage]
    refine (unified_of_not_mem ?_).symm
    rw [String.toList_append, List.mem_append, not_or]
    exact ⟨by decide +kernel, hnumbers _ opened (by decide +kernel)⟩
  | trailing found =>
    obtain rfl := hfound found rfl
    have hparts (found : String) : unified ("Unexpected " ++ found ++ " after end of query")
        = "Unexpected " ++ unified found ++ " after end of query" := by
      have hfirst : unified "Unexpected " = "Unexpected " := by decide +kernel
      have hlast : unified " after end of query" = " after end of query" := by decide +kernel
      rw [unified_append (fun hsplit => absurd hsplit.2 (by decide +kernel)),
        unified_append (fun hsplit => absurd hsplit.1 (by decide +kernel)), hfirst, hlast]
    have hmessage (found : String) : (trailing found).message
        = "Unexpected " ++ found ++ " after end of query" := rfl
    rw [carry, hmessage, hmessage, hparts, Token.describe_carry_unifying ht]
  | noIdentifier => exact hplain .noIdentifier (by decide +kernel)
  | openString => exact hplain .openString (by decide +kernel)
  | openComment => exact hplain .openComment (by decide +kernel)
  | noVerbName => exact hplain .noVerbName (by decide +kernel)
  | strayArgumentName => exact hplain .strayArgumentName (by decide +kernel)
  | noArgumentName => exact hplain .noArgumentName (by decide +kernel)
  | openArguments => exact hplain .openArguments (by decide +kernel)
  | unmatchedBrace => exact hplain .unmatchedBrace (by decide +kernel)

/-- What is wrong with a token is wrong with the token told again. -/
theorem Problem.report_carry_unifying {problem : Problem} {t : Token} (source : String)
    (ht : t.IsSpelled) (hfound : ∀ found, problem = .trailing found → found = t.describe) :
    (problem.carry (.unifying source.toList) t).report (t.carry (.unifying source.toList)).location
        (t.carry (.unifying source.toList)).describe (unified source)
      = (problem.report t.location t.describe source).unified := by
  simp only [report, Diagnostic.unified, kind_carry, expected_carry,
    message_carry_unifying ht hfound, Token.describe_carry_unifying ht, Token.location_carry,
    Option.map_some]

/-- What has no end has none in the unified text either. -/
theorem Problem.report_unclosed {problem : Problem} {location : Location} {source : String}
    (h : problem = .openComment ∨ problem = .openString) :
    problem.report ((Carrier.unifying source.toList).place location) "end of input"
        (unified source) = (problem.report location "end of input" source).unified := by
  have hfound : unified "end of input" = "end of input" := by decide +kernel
  have hmessage : unified problem.message = problem.message := by
    rcases h with rfl | rfl <;> exact unified_of_not_mem (by decide +kernel)
  simp only [report, Diagnostic.unified, hmessage, hfound, Option.map_some]

/-! ### Outcomes -/

/-- What comes of reading the text `source`, told for the unified text. -/
def unifiedOutcome (source : String) :
    Except (Failure ScanFault) Query → Except (Failure ScanFault) Query
  | .ok q => .ok (q.carry (.unifying source.toList))
  | .error failure => .error failure.unified

/-- Both texts start at the same place. -/
theorem Cursor.unifies_ofText (source : String) :
    Unifies (ofText source) (ofText (unified source)) := by
  have hchars : (unified source).toList = unifyLineBreaks source.toList := String.toList_ofList
  have hpast : (ofText source).past = [] := List.take_zero
  have hoffset : (ofText (unified source)).offset = 0 := rfl
  refine ⟨hchars, hchars, ?_, rfl, rfl, ?_⟩
  · rw [hpast, hoffset]
    rfl
  · rw [hpast]
    simp [SplitsBreak]

/-- The unified text is the text told again. -/
theorem Cursor.carries_unifies (source : String) :
    TokenFeed.Carries (.unifying source.toList)
      (fun c c' : Cursor => c.source = source.toList ∧ Unifies c c')
      (fun fault fault' => ∃ d : Diagnostic, fault = .misspelled d ∧
        fault' = .misspelled d.unified) where
  token := by
    rintro c d c' t ⟨hsource, h⟩ hnext
    -- both cursors stay in their texts, since the texts give the places that are told again
    obtain ⟨d', hnext', hbehind⟩ := h.token hnext
    rw [hsource] at hnext'
    have hreaches : c.Reaches d := .of_nextToken hnext
    exact ⟨d', hnext', fun _ => ⟨hreaches.source_eq.trans hsource, hbehind⟩⟩
  fault := by
    rintro c d c' fault ⟨hsource, h⟩ hnext
    obtain ⟨problem, location, d', hproblem, rfl, hnext'⟩ := h.fault hnext
    have htext : c.text = source := by rw [text, hsource, String.ofList_toList]
    have htext' : c'.text = unified source := by rw [text, h.source, hsource, unified]
    rw [hsource, htext', Problem.report_unclosed hproblem] at hnext'
    rw [htext]
    exact ⟨_, d', hnext', _, rfl, rfl⟩

/-- The outcome of reading a unified text is that of the text, told for the unified text. -/
theorem ofText_unified_eq (source : String) :
    Query.ofText (unified source) = unifiedOutcome source (Query.ofText source) := by
  obtain ⟨us, e, d, hcourse⟩ := exists_course .unread (Cursor.ofText source)
  obtain ⟨e', d', hcourse', hending⟩ :=
    hcourse.carry (Cursor.carries_unifies source) ⟨rfl, Cursor.unifies_ofText source⟩
  -- both outcomes are those of the endings, and these are the same but for the telling
  rw [Cursor.ofText_of_course hcourse, Cursor.ofText_of_course hcourse']
  cases hending with
  | missing hfault =>
    obtain ⟨diagnostic, rfl, rfl⟩ := hfault
    rfl
  | complete => rfl
  | @refused t problem =>
    have hfound (found : String) (hproblem : problem = .trailing found) : found = t.describe := by
      obtain ⟨c, -, hmeant⟩ := hcourse.leads
      exact Standing.eq_describe_of_trailing (hproblem ▸ hmeant)
    have hreport := Problem.report_carry_unifying source
      (Cursor.isSpelled_of_course hcourse rfl) hfound
    exact congrArg (fun d => Except.error (Failure.refused d)) hreport

/-! ### Shapes -/

/-- A change of the verbs keeps the shape of a statement if it keeps those of the verbs, and if the
    scopes are changed in the same way. -/
theorem Statement.shape_of_map {f : Statement → Statement} {g : Verb → Verb}
    (hverb : ∀ v, (g v).shape = v.shape)
    (hplain : ∀ verbs l, ∃ l', f (.plain verbs l) = .plain (verbs.map g) l')
    (hnested : ∀ verbs body opened l, ∃ opened' l',
      f (.nested verbs body opened l) = .nested (verbs.map g) (body.map f) opened' l')
    (s : Statement) : (f s).shape = s.shape := by
  have hverbs (verbs : List Verb) : (verbs.map g).map Verb.shape = verbs.map Verb.shape := by
    simp [hverb]
  induction s using Statement.inductionOn with
  | plain verbs l =>
    obtain ⟨l', hplain⟩ := hplain verbs l
    rw [hplain, shape, shape, hverbs]
  | nested verbs body opened l ih =>
    obtain ⟨opened', l', hnested⟩ := hnested verbs body opened l
    have hbody : body.map (shape ∘ f) = body.map shape := List.map_congr_left ih
    rw [hnested, shape, shape, hverbs, shapeAll_eq_map, shapeAll_eq_map, List.map_map, hbody]

/-- So it keeps the shape of a query, wherever the query is said to be. -/
theorem Query.shape_of_map {f : Statement → Statement} (hf : ∀ s, (f s).shape = s.shape)
    (q : Query) (l : Location) : shape ⟨q.statements.map f, l⟩ = q.shape := by
  have hstatements : q.statements.map (Statement.shape ∘ f) = q.statements.map Statement.shape :=
    List.map_congr_left fun s _ => hf s
  rw [shape, shape, Statement.shapeAll_eq_map, Statement.shapeAll_eq_map, List.map_map, hstatements]

/-- To tell a verb again changes its texts and places, and neither belongs to its shape. -/
theorem Verb.shape_carry (m : Carrier) (v : Verb) : (v.carry m).shape = v.shape := by
  cases v with
  | named name arguments location => simp [carry, shape, Function.comp_def]
  | filter pattern location => rfl

/-- A query told again has the same shape. -/
theorem Query.shape_carry (m : Carrier) (q : Query) : (q.carry m).shape = q.shape := by
  have hstatement (s : Statement) : (s.carry m).shape = s.shape :=
    Statement.shape_of_map (Verb.shape_carry m) (fun _ _ => ⟨_, rfl⟩)
      (fun _ _ _ _ => ⟨_, _, by rw [Statement.carry, Statement.carryAll_eq_map]⟩) s
  exact Query.shape_of_map hstatement q _

/-! ### Requests -/

namespace CommandLine

/-- What a request leaves, its log apart: the text or an error, whether the text was printed, and
    the files. -/
def effect (p : Performance × Directory) : Except RequestError String × Bool × Directory :=
  (p.1.result, p.1.isPrinted, p.2)

/-- What a machine makes, for a request, of what was read. -/
def Request.finish (machine : Machine) (request : Request)
    (outcome : Except (Failure ScanFault) Query) (files : Directory) :
    Except RequestError String × Bool × Directory :=
  match request.format.bind OutputFormat.ofName? with
  | none => (.error (.unknownFormat request.format), false, files)
  | some format =>
    match outcome with
    | .error failure => (.error (.refused failure), false, files)
    | .ok q =>
      match format.writeOn machine request.indent q with
      | .error e => (.error e, false, files)
      | .ok text => effect (request.deliver (m := StateM Directory) format [] text files)

/-- The log is not looked at when a text is delivered. -/
theorem Request.effect_deliver (request : Request) (format : OutputFormat)
    (log log' : List LogRecord) (text : String) (files : Directory) :
    effect (request.deliver (m := StateM Directory) format log text files)
      = effect (request.deliver (m := StateM Directory) format log' text files) := by
  unfold deliver
  cases request.outFile? with
  | none => rfl
  | some name =>
    simp only [effect, FileStore.write, bind, StateT.bind]
    cases files.write name (text ++ "\n").toUTF8 with
    | error fault => rfl
    | ok files' => rfl

/-- What a request leaves is made of what was read in the text of its source. -/
theorem Request.effect_perform (machine : Machine) {request : Request} {files : Directory}
    {log : List LogRecord} {text : String}
    (h : request.sourceText (m := StateM Directory) files = (⟨log, .ok text⟩, files)) :
    effect (request.perform (m := StateM Directory) machine files)
      = request.finish machine (Query.ofText text) files := by
  -- an unknown format is refused before the source is looked at
  unfold perform finish
  cases request.format.bind OutputFormat.ofName? with
  | none => rfl
  | some format =>
    simp only [bind, StateT.bind, h, textFor, Query.ofText]
    rcases Reader.run text with ⟨failure | q, r⟩
    · rfl
    · dsimp only
      cases format.writeOn machine request.indent q with
      | error e => rfl
      | ok written => exact effect_deliver request format _ _ written files

/-- A query in an argument is read as it is, and no file is looked at. -/
theorem Request.sourceText_of_isText {request : Request} (files : Directory)
    (h : request.isText = true) :
    request.sourceText (m := StateM Directory) files = (⟨[], .ok request.source⟩, files) := by
  unfold sourceText
  rw [if_pos h]
  rfl

/-- The text of a file is unified. -/
theorem Request.sourceText_of_read {request : Request} {files : Directory} {content : ByteArray}
    {source : String} (htext : request.isText = false) (hname : isQueryFile request.source = true)
    (hread : files.read request.source = .ok content) (hdecode : decodeUtf8 content = .ok source) :
    ∃ log, request.sourceText (m := StateM Directory) files
      = (⟨log, .ok (unified source)⟩, files) := by
  have hfile : fileText content = .ok (unified source) := by
    simp only [fileText, hdecode, unified]
  refine ⟨[⟨.info, s!"reading query from {request.source}"⟩], ?_⟩
  unfold sourceText
  simp only [htext, hname, bind, StateT.bind, FileStore.read, hread, hfile, Bool.not_true,
    Bool.false_eq_true, if_false]
  rfl

/-- Whether there is a layout depends on the indentation and on the room for blanks. -/
theorem OutputFormat.isOk_write (holds : Nat → Bool) (format : OutputFormat)
    (indent : Json.Indentation) (q q' : Query) :
    (format.write holds indent q).isOk = (format.write holds indent q').isOk := by
  cases format with
  | styled style => rfl
  | json =>
    have hmap {ε α β : Type} (f g : α → β) (x : Except ε α) : (x.map f).isOk = (x.map g).isOk := by
      cases x <;> rfl
    exact hmap _ _ (Json.Layout.ofIndentation holds indent)

/-- A machine writes both of two queries of one shape or neither of them. -/
theorem OutputFormat.isOk_writeOn (machine : Machine) (format : OutputFormat)
    (indent : Json.Indentation) {q q' : Query} (h : q.shape = q'.shape) :
    (format.writeOn machine indent q).isOk = (format.writeOn machine indent q').isOk := by
  have hmapError {ε ε' α : Type} (f : ε → ε') (x : Except ε α) : (x.mapError f).isOk = x.isOk := by
    cases x <;> rfl
  cases hreaches : machine.reaches (format.walk indent) q'.shape with
  | true =>
    rw [writeOn_of_reaches (h ▸ hreaches), writeOn_of_reaches hreaches, hmapError, hmapError]
    exact format.isOk_write machine.holds indent q q'
  | false => rw [writeOn_of_not_reaches (h ▸ hreaches), writeOn_of_not_reaches hreaches]

/-- Whether a text can be delivered depends on the name of the file alone. -/
theorem Request.isOk_deliver (request : Request) (format : OutputFormat) (log : List LogRecord)
    (text text' : String) (files : Directory) :
    (effect (request.deliver (m := StateM Directory) format log text files)).1.isOk
      = (effect (request.deliver (m := StateM Directory) format log text' files)).1.isOk := by
  unfold deliver
  cases request.outFile? with
  | none => rfl
  | some name =>
    simp only [effect, FileStore.write, bind, StateT.bind, Directory.write]
    cases files.locate .writing name with
    | error fault => rfl
    | ok path => rfl

/-- A request succeeds with both texts or with neither. -/
theorem Request.isOk_finish_unifiedOutcome (machine : Machine) (request : Request)
    (source : String) (outcome : Except (Failure ScanFault) Query) (files : Directory) :
    (request.finish machine (unifiedOutcome source outcome) files).1.isOk
      = (request.finish machine outcome files).1.isOk := by
  unfold finish
  cases request.format.bind OutputFormat.ofName? with
  | none => rfl
  | some format =>
    cases outcome with
    | error failure => rfl
    | ok q =>
      dsimp only [unifiedOutcome]
      -- one machine walks through both queries or through neither, since their shapes are equal
      let told : Query := q.carry (.unifying source.toList)
      have hwrite := format.isOk_writeOn machine request.indent (q.shape_carry _ : told.shape = _)
      cases hfirst : format.writeOn machine request.indent told <;>
        cases hsecond : format.writeOn machine request.indent q <;> rw [hfirst, hsecond] at hwrite
      · rfl
      · cases hwrite
      · cases hwrite
      · exact isOk_deliver request format _ _ _ files

end CommandLine

/-! ### Line breaks make no difference -/

open CommandLine

/-- **Unifying line breaks commutes with reading.**  The unified text gives the tree of the text,
    but for the line breaks in its strings and the offsets of its nodes, or its error, at the same
    line and column.  A request that finds the text in a file makes of that tree what a request that
    has the text in its arguments makes of the other, and the one fails where the other does. -/
theorem ofText_unified (source : String) :
    Query.ofText (unified source) = unifiedOutcome source (Query.ofText source) ∧
    (∀ failure, Query.ofText source = .error failure →
      ∃ d, diagnosticOf? failure = some d ∧ d.source = source ∧
        diagnosticOf? failure.unified = some d.unified ∧
        d.unified.sourceLine = d.sourceLine) ∧
    ∀ (machine : Machine) (request : Request) (name : String) (content : ByteArray)
        (files : Directory), isQueryFile name = true → files.read name = .ok content →
      decodeUtf8 content = .ok source →
      effect ({ request with source := source, isText := true }.perform
          (m := StateM Directory) machine files)
        = request.finish machine (Query.ofText source) files ∧
      effect ({ request with source := name, isText := false }.perform
          (m := StateM Directory) machine files)
        = request.finish machine (unifiedOutcome source (Query.ofText source)) files ∧
      (request.finish machine (unifiedOutcome source (Query.ofText source)) files).1.isOk
        = (request.finish machine (Query.ofText source) files).1.isOk := by
  refine ⟨ofText_unified_eq source, ?_, ?_⟩
  · intro failure h
    obtain ⟨d, hsource, rfl | rfl⟩ := exists_diagnostic h
    · exact ⟨d, rfl, hsource, rfl, d.sourceLine_unified⟩
    · exact ⟨d, rfl, hsource, rfl, d.sourceLine_unified⟩
  · intro machine request name content files hname hread hdecode
    refine ⟨?_, ?_, Request.isOk_finish_unifiedOutcome machine request source _ files⟩
    · exact Request.effect_perform machine (Request.sourceText_of_isText files rfl)
    -- the file is read with its line breaks unified, so the request has the unified text
    · let fromFile : Request := { request with source := name, isText := false }
      obtain ⟨log, htext⟩ : ∃ log, fromFile.sourceText (m := StateM Directory) files
          = (⟨log, .ok (unified source)⟩, files) :=
        Request.sourceText_of_read rfl hname hread hdecode
      rw [Request.effect_perform machine htext, ofText_unified_eq]
      rfl

/-- A string with a break of two characters, a carriage return, and a parenthesis that is refused,
    in a file and by itself. -/
theorem ofText_unified_of_breaks :
    let machine := Machine.ofLimits 100 1000
    let source := "\"a\r\nb\"\r)"
    let request : Request :=
      { source := "q.askl", isText := false, format := some "json", indent := .inline }
    let files : Directory := ⟨[("q.askl", .file source.toUTF8)]⟩
    (∃ d, Query.ofText source = .error (.refused d) ∧
      Query.ofText "\"a\nb\"\n)" = .error (.refused d.unified) ∧
      d.location = ⟨7, 3, 1⟩ ∧ d.unified.location = ⟨6, 3, 1⟩ ∧
      d.unified.sourceLine = d.sourceLine) ∧
    effect (request.perform (m := StateM Directory) machine files)
      = request.finish machine (unifiedOutcome source (Query.ofText source)) files := by
  intro machine source request files
  obtain ⟨hcommutes, hfails, hrequests⟩ := ofText_unified source
  have hunified : unified source = "\"a\nb\"\n)" := by decide +kernel
  constructor
  · obtain ⟨d, hd, hlocation⟩ : ∃ d, Query.ofText source = .error (.refused d) ∧
        d.location = ⟨7, 3, 1⟩ := exists_of_refusal Diagnostic.location (by decide +kernel)
    obtain ⟨_, hsame, hsource, -, hline⟩ := hfails (.refused d) hd
    obtain rfl := Option.some.inj hsame
    rw [hd, hunified, unifiedOutcome, Failure.unified] at hcommutes
    have hmoved : d.unified.location = ⟨6, 3, 1⟩ := by
      show (Carrier.unifying d.source.toList).place d.location = ⟨6, 3, 1⟩
      rw [hsource, hlocation]
      decide +kernel
    exact ⟨d, hd, hcommutes, hlocation, hmoved, hline⟩
  · have hlocate : files.locate .reading "q.askl" = .ok "q.askl" := by decide +kernel
    have hread : files.read "q.askl" = .ok source.toUTF8 := by
      rw [Directory.read, hlocate]
      rfl
    have hdecode : decodeUtf8 source.toUTF8 = .ok source := by
      simp [decodeUtf8, String.fromUTF8?, String.isValidUTF8]
      rfl
    exact (hrequests machine request "q.askl" _ files (by decide +kernel) hread hdecode).2.1

end ScopedQuery
