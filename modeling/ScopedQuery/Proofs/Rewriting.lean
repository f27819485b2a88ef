import ScopedQuery.Proofs.Accumulated
import ScopedQuery.Proofs.LineBreaks
import ScopedQuery.Proofs.ReadBack

namespace ScopedQuery

open Text

/-!
# Files that are rewritten

A request for the canonical text writes it to a file with a line feed behind it.  In a file of
queries that line feed is a terminator, and so an empty statement stands behind it.  The query that
is read from the file is not the one that was written, and each further rewriting adds a statement,
until a machine cannot walk through the query any more.

* `Query.padded` — a query with empty statements behind its own.
* `not_mem_canonical` — a query from a file has a canonical text without carriage returns.
* `CommandLine.Holds` — the query that is read from a file.
* `CommandLine.rewriteAll` — the query of a file, written to one file after another.
* `rewriteAll_padded` — how many files are written, and what the last of them holds.
-/

/-! ### Texts without carriage returns -/

/-- No carriage return stands in parts and separators that have none. -/
theorem not_mem_intercalate {sep : String} {parts : List String} (hsep : '\r' ∉ sep.toList)
    (hparts : ∀ part ∈ parts, '\r' ∉ part.toList) : '\r' ∉ (sep.intercalate parts).toList := by
  induction parts with
  | nil => simp
  | cons part rest ih =>
    rw [List.forall_mem_cons] at hparts
    cases rest with
    | nil => simpa using hparts.1
    | cons next rest =>
      simp only [String.intercalate_cons_cons, String.toList_append, List.mem_append, not_or]
      exact ⟨⟨hparts.1, hsep⟩, ih hparts.2⟩

theorem not_mem_stringText {value : String} (h : '\r' ∉ value.toList) :
    '\r' ∉ (stringText value).toList := by
  simpa [stringText] using h

/-- A verb has no carriage return if its texts have none. -/
theorem Verb.not_mem_canonical {v : Verb} (h : ∀ t ∈ v.texts, '\r' ∉ t.value.toList) :
    '\r' ∉ v.canonical.toList := by
  cases v with
  | filter pattern location =>
    rw [texts, List.forall_mem_singleton] at h
    exact not_mem_stringText h
  | named name arguments location =>
    rw [texts, List.forall_mem_cons, List.forall_mem_flatMap] at h
    obtain ⟨hname, harguments⟩ := h
    cases arguments with
    | nil => simpa [canonical] using hname
    | cons a rest =>
      -- a list is its arguments with commas and blanks between them
      have hlist : '\r' ∉ (", ".intercalate ((a :: rest).map Argument.canonical)).toList := by
        refine not_mem_intercalate (by decide) ?_
        rw [List.forall_mem_map]
        intro b hb
        have hb' := harguments b hb
        rw [Argument.texts, List.forall_mem_cons, List.forall_mem_singleton] at hb'
        simpa [Argument.canonical, hb'.1] using not_mem_stringText hb'.2
      simpa [canonical, hname] using hlist

/-- By induction over the scopes, neither has a statement whose verbs have none. -/
theorem Statement.not_mem_canonical {s : Statement}
    (h : ∀ v ∈ s.allVerbs, ∀ t ∈ v.texts, '\r' ∉ t.value.toList) : '\r' ∉ s.canonical.toList := by
  induction s using Statement.inductionOn with
  | plain verbs location =>
    refine not_mem_intercalate (by decide) ?_
    rw [List.forall_mem_map]
    exact fun v hv => Verb.not_mem_canonical (h v hv)
  | nested verbs body opened location ih =>
    simp only [allVerbs, allVerbsIn_eq_flatMap, List.forall_mem_append,
      List.forall_mem_flatMap] at h
    have hbody : '\r' ∉ ("; ".intercalate (canonicalAll body)).toList := by
      refine not_mem_intercalate (by decide) ?_
      rw [canonicalAll_eq_map, List.forall_mem_map]
      exact fun s hs => ih s hs (h.2 s hs)
    -- the braces and blanks of a scope are no carriage returns
    have hscope : '\r' ∉ (scopeText ("; ".intercalate (canonicalAll body))).toList := by
      unfold scopeText
      split
      · decide
      · simpa using hbody
    refine not_mem_intercalate (by decide) ?_
    rw [List.forall_mem_append, List.forall_mem_map, List.forall_mem_singleton]
    exact ⟨fun v hv => Verb.not_mem_canonical (h.1 v hv), hscope⟩

/-- So neither has a query whose tokens have none. -/
theorem Query.not_mem_canonical {q : Query} (h : ∀ t ∈ q.phrase, '\r' ∉ t.value.toList) :
    '\r' ∉ q.canonical.toList := by
  have hmark (kind : TokenKind) (_ : kind.fixedText?.isSome = true) :
      '\r' ∉ kind.mark.value.toList := by
    cases kind <;> simp [TokenKind.mark, TokenKind.fixedText?]
  rw [q.forall_phrase_iff hmark, allVerbs, Statement.allVerbsIn_eq_flatMap,
    List.forall_mem_flatMap] at h
  refine not_mem_intercalate (by decide) ?_
  rw [Statement.canonicalAll_eq_map, List.forall_mem_map]
  exact fun s hs => Statement.not_mem_canonical (h s hs)

/-- Settling the line breaks adds no tokens but semicolons. -/
theorem mem_eraseBreaks {inside : Bool} {t : Token} {ts : List Token}
    (h : t ∈ eraseBreaks inside ts) : t ∈ ts ∨ t.value = ";" := by
  induction ts generalizing inside with
  | nil => cases h
  | cons u rest ih =>
    have hlater {inside : Bool} (h : t ∈ eraseBreaks inside rest) :
        t ∈ u :: rest ∨ t.value = ";" := (ih h).imp_left (List.mem_cons_of_mem u)
    by_cases hkind : u.kind = .newline
    · rw [eraseBreaks, if_pos hkind] at h
      -- inside of parentheses a break is dropped, and elsewhere a semicolon stands for it
      split at h
      · exact hlater h
      · rcases List.mem_cons.mp h with rfl | h
        · exact .inr rfl
        · exact hlater h
    · rw [eraseBreaks_cons hkind] at h
      rcases List.mem_cons.mp h with rfl | h
      · exact .inl List.mem_cons_self
      · exact hlater h

/-- The text of a token is part of its characters. -/
theorem Token.mem_written {t : Token} {c : Char} (hkind : t.kind ≠ .endOfInput)
    (h : c ∈ t.value.toList) : c ∈ t.written := by
  unfold written
  split
  · exact List.mem_cons_of_mem _ (List.mem_append_left _ h)
  · next hend => exact absurd hend hkind
  · exact h

/-- What was read from a text without carriage returns has none. -/
theorem not_mem_canonical {source : String} {q : Query} (h : Gives (Query.ofText source) q)
    (hsource : '\r' ∉ source.toList) : '\r' ∉ q.canonical.toList := by
  obtain ⟨-, pieces, last, hpartition, -, hphrase⟩ := gives_iff_phrased.mp h
  refine Query.not_mem_canonical fun t ht hreturn => ?_
  rw [← hphrase] at ht
  -- each text of the phrase is that of a token of the source, or a semicolon
  rcases mem_eraseBreaks ht with hmem | hvalue
  · obtain ⟨piece, hpiece, rfl⟩ := List.mem_map.mp hmem
    obtain ⟨before, after, hsplit⟩ := List.append_of_mem hpiece
    have hlexeme := (hpartition.split hsplit).2
    -- the carriage return would stand in the characters of the token
    have hwritten : '\r' ∈ piece.2.written := Token.mem_written hlexeme.kind_ne hreturn
    rw [hpartition.eq_spread] at hsource
    apply hsource
    refine List.mem_append_left last (List.mem_flatMap.mpr ⟨piece, hpiece, ?_⟩)
    exact List.mem_append_right piece.1 hwritten
  · rw [hvalue] at hreturn
    exact absurd hreturn (by decide)

/-! ### Empty statements behind a query -/

/-- The query with empty statements behind its own. -/
def Query.padded (q : Query) (n : Nat) : Query :=
  ⟨q.statements ++ List.replicate n (.plain [] {}), {}⟩

/-- Places do not belong to the shape of a verb. -/
theorem Verb.shape_unplaced (v : Verb) : v.unplaced.shape = v.shape := by
  cases v with
  | named name arguments location => simp [unplaced, shape, Function.comp_def]
  | filter pattern location => rfl

namespace Query

theorem padded_padded (q : Query) (n : Nat) : (q.padded 1).padded n = q.padded (n + 1) := by
  simp [padded, List.replicate_succ]

/-- What agrees with a query has the same canonical text. -/
theorem canonical_eq_of_agrees {q q' : Query} (h : q'.agrees q = true) :
    q'.canonical = q.canonical := by
  rw [← canonical_unplaced, (agrees_iff q' q).mp h, canonical_unplaced]

/-- Nor do they belong to the shape of a query. -/
theorem shape_unplaced (q : Query) : q.unplaced.shape = q.shape := by
  have hstatement (s : Statement) : s.unplaced.shape = s.shape :=
    Statement.shape_of_map Verb.shape_unplaced (fun _ _ => ⟨_, rfl⟩)
      (fun _ _ _ _ => ⟨_, _, by rw [Statement.unplaced, Statement.unplacedAll_eq_map]⟩) s
  rw [unplaced, Statement.unplacedAll_eq_map]
  exact shape_of_map hstatement q _

/-- What agrees with a query has the same shape. -/
theorem shape_eq_of_agrees {q q' : Query} (h : q'.agrees q = true) : q'.shape = q.shape := by
  rw [← shape_unplaced, (agrees_iff q' q).mp h, shape_unplaced]

theorem shape_padded_zero (q : Query) : (q.padded 0).shape = q.shape := by
  simp [shape, padded]

/-- Each empty statement adds a semicolon and a blank to the canonical text. -/
theorem canonical_padded {q : Query} (h : q.statements ≠ []) (n : Nat) :
    (q.padded n).canonical = q.canonical ++ String.join (List.replicate n "; ") := by
  induction n generalizing q with
  | zero => simp [padded, canonical]
  | succ n ih =>
    have hone : (q.padded 1).canonical = q.canonical ++ "; " := by
      have hparts : q.statements.map Statement.canonical ≠ [] := by simpa using h
      simp only [canonical, padded, Statement.canonicalAll_eq_map, List.map_append]
      rw [String.intercalate_append_of_ne_nil hparts (by simp)]
      simp [Statement.canonical]
    rw [← padded_padded, ih (by simp [padded]), hone, List.replicate_succ]
    simp [String.append_assoc]

/-- A query with empty statements behind its own is another one. -/
theorem agrees_padded {q : Query} {n : Nat} : (q.padded n).agrees q = true ↔ n = 0 := by
  rw [agrees_iff]
  constructor
  · intro h
    have hlength := congrArg (fun q => q.statements.length) h
    simpa [unplaced, padded, Statement.unplacedAll_eq_map] using hlength
  · rintro rfl
    simp [unplaced, padded]

/-- The line feed behind a canonical text stands for an empty statement. -/
theorem WellFormed.gives_padded {q : Query} (h : q.WellFormed) :
    Gives (Query.ofText (q.canonical ++ "\n")) (q.padded 1) := by
  let empty : Query := ⟨[.plain [] {}], {}⟩
  have hempty : empty.WellFormed := ⟨by decide, by decide⟩
  have hboth : ∀ q' ∈ [q, empty], q'.WellFormed := by simp [h, hempty]
  have hgives := gives_join (List.cons_ne_nil _ _) hboth
  have htext : "\n".intercalate ([q, empty].map canonical) = q.canonical ++ "\n" := by
    simp [empty, canonical, Statement.canonicalAll, Statement.canonical]
  have hjoin : join [q, empty] = q.padded 1 := by simp [join, padded, empty]
  rwa [htext, hjoin] at hgives

end Query

namespace CommandLine

/-! ### Files and the queries in them -/

/-- The file with a name is one of queries, and the text in it is read as the query. -/
def Directory.Holds (d : Directory) (name : String) (q : Query) : Prop :=
  isQueryFile name = true ∧ ∃ content text, d.read name = .ok content ∧
    fileText content = .ok text ∧ Gives (Query.ofText text) q

/-- The request to write the canonical text of the query in one file to another file. -/
def rewriting (source out : String) : Request :=
  { source, isText := false, format := some Style.canonical.name, indent := .blanks 2,
    out := some out }

theorem decodeUtf8_toUTF8 (text : String) : decodeUtf8 text.toUTF8 = .ok text := by
  simp [decodeUtf8, String.fromUTF8?, String.isValidUTF8]
  rfl

/-- A text without carriage returns is read from its file as it is. -/
theorem fileText_toUTF8 {text : String} (h : '\r' ∉ text.toList) :
    fileText text.toUTF8 = .ok text := by
  simp only [fileText, decodeUtf8_toUTF8]
  rw [unifyLineBreaks_of_not_mem h, String.ofList_toList]

/-- The text of a file is what its bytes spell, with the line breaks unified. -/
theorem exists_of_fileText {content : ByteArray} {text : String}
    (h : fileText content = .ok text) :
    ∃ written, decodeUtf8 content = .ok written ∧ text = unified written := by
  unfold fileText at h
  split at h
  · next written hwritten => exact ⟨written, hwritten, (Except.ok.inj h).symm⟩
  · cases h

/-- So it has no carriage returns left. -/
theorem not_mem_fileText {content : ByteArray} {text : String} (h : fileText content = .ok text) :
    '\r' ∉ text.toList := by
  obtain ⟨written, -, rfl⟩ := exists_of_fileText h
  rw [unified, String.toList_ofList]
  exact not_mem_unifyLineBreaks _

/-- The name of a query file is not empty, so a rewriting writes to it. -/
theorem outFile?_rewriting (source : String) {out : String} (hout : isQueryFile out = true) :
    (rewriting source out).outFile? = some out := by
  have hnonempty : out.isEmpty = false := by
    rw [Bool.eq_false_iff]
    intro hempty
    rw [String.isEmpty_iff.mp hempty] at hout
    exact absurd hout (by decide)
  simp [Request.outFile?, rewriting, hnonempty]

namespace Directory.Holds

variable {d d' : Directory} {source out path : String} {q : Query}

/-- Places do not count. -/
theorem congr {q' : Query} (h : d.Holds source q) (hagrees : q'.agrees q = true) :
    d.Holds source q' := by
  obtain ⟨hname, content, text, hread, htext, read, hok, hread'⟩ := h
  refine ⟨hname, content, text, hread, htext, read, hok, ?_⟩
  rw [Query.agrees_iff] at hread' hagrees ⊢
  rw [hread', hagrees]

/-- A file holds one query. -/
theorem unique {q' : Query} (h : d.Holds source q) (h' : d.Holds source q') :
    q'.agrees q = true := by
  obtain ⟨-, content, text, hread, htext, read, hok, hagrees⟩ := h
  obtain ⟨-, content', text', hread', htext', read', hok', hagrees'⟩ := h'
  obtain rfl : content = content' := Except.ok.inj (hread.symm.trans hread')
  obtain rfl : text = text' := Except.ok.inj (htext.symm.trans htext')
  obtain rfl : read = read' := Except.ok.inj (hok.symm.trans hok')
  rw [Query.agrees_iff] at hagrees hagrees' ⊢
  rw [← hagrees', hagrees]

/-- The query of a file is well-formed. -/
theorem wellFormed (h : d.Holds source q) : q.WellFormed := by
  obtain ⟨-, content, text, -, -, hgives⟩ := h
  exact (gives_iff_phrased.mp hgives).1

/-- What comes of a rewriting: a query that the machine cannot walk through is not written, and
    neither is one whose file cannot be written. -/
theorem effect_rewriting (machine : Machine) (h : d.Holds source q)
    (hout : isQueryFile out = true) :
    effect ((rewriting source out).perform (m := StateM Directory) machine d)
      = if machine.reaches (.styled .canonical) q.shape then
          match d.write out (q.canonical ++ "\n").toUTF8 with
          | .error fault => (.error (.inaccessible fault out), false, d)
          | .ok d' => (.ok q.canonical, false, d')
        else (.error .tooDeep, false, d) := by
  obtain ⟨hname, content, text, hread, htext, q', hq', hagrees⟩ := h
  -- the file holds the query of its text with unified line breaks
  obtain ⟨written, hdecode, rfl⟩ := exists_of_fileText htext
  obtain ⟨log, hsource⟩ := Request.sourceText_of_read
    (show (rewriting source out).isText = false from rfl) hname hread hdecode
  have hformat : (rewriting source out).format.bind OutputFormat.ofName?
      = some (.styled .canonical) := by
    show OutputFormat.ofName? Style.canonical.name = _
    decide
  rw [Request.effect_perform machine hsource, hq', Request.finish, hformat]
  dsimp only
  rw [← Query.shape_eq_of_agrees hagrees]
  -- the machine is asked about the shape, which is the same for all queries that agree
  cases hreaches : machine.reaches (.styled .canonical) q'.shape with
  | false =>
    rw [OutputFormat.writeOn_of_not_reaches hreaches]
    rfl
  | true =>
    rw [OutputFormat.writeOn_of_reaches hreaches, OutputFormat.write, Query.format_canonical,
      Query.canonical_eq_of_agrees hagrees, if_pos rfl]
    simp only [Except.mapError, Request.deliver, outFile?_rewriting source hout, effect,
      FileStore.write, bind, StateT.bind]
    cases d.write out (q.canonical ++ "\n").toUTF8 with
    | error fault => rfl
    | ok d' => rfl

/-- The file that was written holds the query with an empty statement behind it. -/
theorem padded (h : d.Holds source q) (hout : isQueryFile out = true)
    (hwrite : d.write out (q.canonical ++ "\n").toUTF8 = .ok d') :
    d'.Holds out (q.padded 1) := by
  have hwell : q.WellFormed := h.wellFormed
  obtain ⟨-, content, text, -, htext, hgives⟩ := h
  have hreturn : '\r' ∉ (q.canonical ++ "\n").toList := by
    have hcanonical : '\r' ∉ q.canonical.toList := not_mem_canonical hgives (not_mem_fileText htext)
    simpa using hcanonical
  exact ⟨hout, _, _, Directory.read_write hwrite, fileText_toUTF8 hreturn, hwell.gives_padded⟩

end Directory.Holds

/-! ### Rewriting again and again -/

/-- Writes the query in a file to another file, the query in that one to the next, and so on, up to
    the first error. -/
def rewriteAll (machine : Machine) (d : Directory) (source : String) :
    List String → Except RequestError Unit × Directory
  | [] => (.ok (), d)
  | out :: rest =>
    match effect ((rewriting source out).perform (m := StateM Directory) machine d) with
    | (.ok _, _, d') => rewriteAll machine d' out rest
    | (.error e, _, d') => (.error e, d')

section Rewriting

variable {machine : Machine} {d d' : Directory} {source out : String} {outs : List String}
  {q : Query}

/-- A round that the machine cannot walk through is the last one, and changes nothing. -/
theorem rewriteAll_of_not_reaches (h : d.Holds source q) (hout : isQueryFile out = true)
    (hreaches : machine.reaches (.styled .canonical) q.shape = false) :
    rewriteAll machine d source (out :: outs) = (.error .tooDeep, d) := by
  rw [rewriteAll, h.effect_rewriting machine hout, if_neg (by simp [hreaches])]

/-- The other rounds go on with the file that was written. -/
theorem rewriteAll_of_reaches (h : d.Holds source q) (hout : isQueryFile out = true)
    (hreaches : machine.reaches (.styled .canonical) q.shape = true)
    (hwrite : d.write out (q.canonical ++ "\n").toUTF8 = .ok d') :
    rewriteAll machine d source (out :: outs) = rewriteAll machine d' out outs := by
  rw [rewriteAll, h.effect_rewriting machine hout, if_pos hreaches, hwrite]

/-- The rounds go on as long as the machine can walk through the query, and each adds an empty
    statement. -/
theorem rewriteAll_holds (h : d.Holds source q)
    (houts : ∀ out ∈ outs, isQueryFile out = true ∧ ∃ path, d.locate .writing out = .ok path) :
    ∃ n d', n ≤ outs.length ∧
      (∀ k < n, machine.reaches (.styled .canonical) (q.padded k).shape = true) ∧
      (n < outs.length → machine.reaches (.styled .canonical) (q.padded n).shape = false) ∧
      rewriteAll machine d source (outs.take n) = (.ok (), d') ∧
      rewriteAll machine d source outs
        = (if n = outs.length then .ok () else .error .tooDeep, d') ∧
      d'.Holds ((outs.take n).getLastD source) (q.padded n) := by
  -- each round is one of the same kind, from the file that was written last
  induction outs generalizing d source q with
  | nil =>
    refine ⟨0, d, Nat.le_refl 0, fun k hk => absurd hk (by omega), fun hlt => absurd hlt (by simp),
      rfl, rfl, h.congr (Query.agrees_padded.mpr rfl)⟩
  | cons out rest ih =>
    rw [List.forall_mem_cons] at houts
    obtain ⟨⟨hout, path, hlocate⟩, hrest⟩ := houts
    cases hreaches : machine.reaches (.styled .canonical) q.shape with
    | false =>
      refine ⟨0, d, Nat.zero_le _, fun k hk => absurd hk (by omega), fun _ => ?_, rfl, ?_,
        h.congr (Query.agrees_padded.mpr rfl)⟩
      · rw [Query.shape_padded_zero, hreaches]
      · rw [rewriteAll_of_not_reaches h hout hreaches]
        rfl
    | true =>
      obtain ⟨d₁, hwrite⟩ : ∃ d₁, d.write out (q.canonical ++ "\n").toUTF8 = .ok d₁ :=
        ⟨_, by rw [Directory.write, hlocate]⟩
      -- writing one file takes no other name away
      have hwritable : ∀ out ∈ rest, isQueryFile out = true ∧
          ∃ path, d₁.locate .writing out = .ok path := fun out' hout' => by
        obtain ⟨hname, path', hpath'⟩ := hrest out' hout'
        exact ⟨hname, path', Directory.locate_write hwrite hpath'⟩
      obtain ⟨n, d', hle, hbelow, hlast, htake, hall, hholds⟩ :=
        ih (h.padded hout hwrite) hwritable
      simp only [Query.padded_padded] at hbelow hlast hholds
      refine ⟨n + 1, d', Nat.succ_le_succ hle, fun k hk => ?_, fun hlt => ?_, ?_, ?_, ?_⟩
      · -- the first round is walked through as it is, the others with one statement less
        cases k with
        | zero => rwa [Query.shape_padded_zero]
        | succ k => exact hbelow k (Nat.lt_of_succ_lt_succ hk)
      · exact hlast (Nat.lt_of_succ_lt_succ hlt)
      · rw [List.take_succ_cons, rewriteAll_of_reaches h hout hreaches hwrite, htake]
      · rw [rewriteAll_of_reaches h hout hreaches hwrite, hall, List.length_cons]
        simp
      · rw [List.take_succ_cons, List.getLastD_cons]
        exact hholds

/-- **Rewriting adds empty statements.**  A query that was read from a file is written to another
    one and read from there, and so on, as long as the files are files of queries that can be
    written.  It goes on to the end, or to the first round whose query the machine cannot walk
    through, and that round leaves all files as they are.  If there was a round at all, the last
    file that was written does not hold the query: each rewriting puts a line feed behind the
    canonical text, and an empty statement stands behind that.  So there are as many of them as
    there were rewritings, and as many semicolons and blanks more in the canonical text. -/
theorem rewriteAll_padded (machine : Machine) (h : d.Holds source q)
    (houts : ∀ out ∈ outs, isQueryFile out = true ∧ ∃ path, d.locate .writing out = .ok path) :
    (∃ n d', n ≤ outs.length ∧
      (∀ k < n, machine.reaches (.styled .canonical) (q.padded k).shape = true) ∧
      (n < outs.length → machine.reaches (.styled .canonical) (q.padded n).shape = false) ∧
      rewriteAll machine d source (outs.take n) = (.ok (), d') ∧
      rewriteAll machine d source outs
        = (if n = outs.length then .ok () else .error .tooDeep, d') ∧
      d'.Holds ((outs.take n).getLastD source) (q.padded n) ∧
      (n ≠ 0 → ¬ d'.Holds ((outs.take n).getLastD source) q)) ∧
    ∀ n, (q.padded n).canonical = q.canonical ++ String.join (List.replicate n "; ") := by
  constructor
  -- a file holds one query, so if it still held the first one, no statement was added
  · obtain ⟨n, d', hle, hbelow, hlast, htake, hall, hholds⟩ := rewriteAll_holds h houts
    refine ⟨n, d', hle, hbelow, hlast, htake, hall, hholds, fun hne hkept => hne ?_⟩
    exact Query.agrees_padded.mp (hkept.unique hholds)
  · exact Query.canonical_padded (Query.isFilled_iff.mp h.wellFormed.filled).1

end Rewriting

/-- A query of one verb, written to another file and then once more to that file itself, on a
    machine that bears nested scopes. -/
theorem rewriteAll_padded_of_verb :
    ∃ (q : Query) (d' : Directory),
      (⟨[("rules.askl", .file "@a".toUTF8)]⟩ : Directory).Holds "rules.askl" q ∧
      rewriteAll (.ofLimits 100 1000) ⟨[("rules.askl", .file "@a".toUTF8)]⟩ "rules.askl"
        ["canonical.askl", "canonical.askl"] = (.ok (), d') ∧
      ¬ d'.Holds "canonical.askl" q ∧ d'.Holds "canonical.askl" (q.padded 2) ∧
      q.canonical = "@a" ∧ (q.padded 2).canonical = "@a; ; " := by
  let d : Directory := ⟨[("rules.askl", .file "@a".toUTF8)]⟩
  let q : Query := ⟨[.plain [.named "a" [] {}] {}], {}⟩
  have hcanonical : q.canonical = "@a" := by decide +kernel
  have hholds : d.Holds "rules.askl" q := by
    have hlocate : d.locate .reading "rules.askl" = .ok "rules.askl" := by decide +kernel
    have hread : d.read "rules.askl" = .ok "@a".toUTF8 := by
      rw [Directory.read, hlocate]
      rfl
    have hgives : Gives (Query.ofText "@a") q :=
      hcanonical ▸ Query.gives_filled_of_canonical (show q.IsSpelled by decide +kernel)
    exact ⟨by decide +kernel, _, _, hread, fileText_toUTF8 (by decide), hgives⟩
  have houts : ∀ out ∈ ["canonical.askl", "canonical.askl"],
      isQueryFile out = true ∧ ∃ path, d.locate .writing out = .ok path := by
    have hout : isQueryFile "canonical.askl" = true := by decide +kernel
    have hlocate : d.locate .writing "canonical.askl" = .ok "canonical.askl" := by decide +kernel
    simp [hout, hlocate]
  obtain ⟨⟨n, d', hle, -, hlast, -, hall, hlastHolds, hother⟩, hpadded⟩ :=
    rewriteAll_padded (.ofLimits 100 1000) hholds houts
  -- no round nests its query any deeper than the one before
  have hn : n = 2 := by
    have hreaches : ∀ k < 2,
        (Machine.ofLimits 100 1000).reaches (.styled .canonical) (q.padded k).shape = true := by
      decide +kernel
    by_contra hne
    have hlt : n < 2 := Nat.lt_of_le_of_ne hle hne
    rw [hreaches n hlt] at hlast
    exact absurd (hlast hlt) (by decide)
  subst hn
  refine ⟨q, d', hholds, hall, hother (by decide), hlastHolds, hcanonical, ?_⟩
  rw [hpadded, hcanonical]
  rfl

end CommandLine

end ScopedQuery
