import ScopedQuery.CommandLine.Run
import ScopedQuery.Proofs.Lexeme
import ScopedQuery.Proofs.LineBreaks

namespace ScopedQuery.CommandLine

open Text

/-!
# All or nothing

A call writes the whole text that it was asked for, or it leaves no trace but an error.

* `FileSystem` — files that several names may lead to, any of which may be refused.
* `Request.Reads`, `Request.Lays` — what comes of reading the source of a request, and what a
  machine lays out for the query in it.
* `Request.Fails` — the first error that a request meets.
* `Request.Ends` — how a request ends; `Request.ends_perform` shows that it ends so.
* `Request.Fails.report` — the report of an error is a diagnostic, or one line.
* `call_writes_all_or_nothing` — both facts for calls, on every machine.
-/

/-! ### Messages on one line -/

/-- The text takes up one line. -/
def IsLine (s : String) : Prop := '\n' ∉ s.toList

instance : DecidablePred IsLine := fun s => inferInstanceAs (Decidable ('\n' ∉ s.toList))

theorem IsLine.append {s t : String} (hs : IsLine s) (ht : IsLine t) : IsLine (s ++ t) := by
  rw [IsLine, String.toList_append, List.mem_append, not_or]
  exact ⟨hs, ht⟩

/-- A text between quote marks takes up one line, since its line breaks are written by letter. -/
theorem isLine_quote (s : String) : IsLine (quote s) :=
  fun h => absurd (isPrintable_of_mem_quote h) (by decide)

theorem isLine_toString (n : Nat) : IsLine (toString n) :=
  fun h => absurd (isPrintable_of_mem_toString h) (by decide)

/-- A byte, which is two digits, takes up one line. -/
theorem isLine_hexByte (b : UInt8) : IsLine (hexByte b) := by
  have hdigit : ∀ k < 16, Nat.digitChar k ≠ '\n' := by decide
  have hlow : b.toNat % 16 < 16 := Nat.mod_lt _ (by decide)
  have hhigh : b.toNat / 16 < 16 := Nat.div_lt_of_lt_mul b.toNat_lt
  simp [IsLine, hexByte, (hdigit _ hlow).symm, (hdigit _ hhigh).symm]

/-- What is wrong with the bytes of a file is told on one line. -/
theorem isLine_utf8Fault (fault : Utf8Fault) : IsLine fault.message := by
  have hreason : IsLine fault.cause.reason := by
    cases fault.cause <;> decide
  have hmessage {subject : String} (h : IsLine subject) :
      IsLine ("'utf-8' codec can't decode " ++ subject ++ ": " ++ fault.cause.reason) :=
    ((IsLine.append (by decide) h).append (by decide)).append hreason
  have hbyte (b : UInt8) :
      IsLine ("byte 0x" ++ hexByte b ++ " in position " ++ toString fault.position) :=
    ((IsLine.append (by decide) (isLine_hexByte b)).append (by decide)).append (isLine_toString _)
  have hbytes (last : Nat) :
      IsLine ("bytes in position " ++ toString fault.position ++ "-" ++ toString last) :=
    ((IsLine.append (by decide) (isLine_toString _)).append (by decide)).append (isLine_toString _)
  -- one byte or several ones are at fault
  unfold Utf8Fault.message
  split
  · exact hmessage (hbyte _)
  · exact hmessage (hbytes _)

/-- The reason of the fault, if it has one, takes up one line. -/
def FileFault.IsPlain (fault : FileFault) : Prop :=
  ∀ number reason, fault = .system number reason → IsLine reason

/-- What is wrong with a file is told on one line if the reason is; the name is quoted. -/
theorem FileFault.IsPlain.isLine {fault : FileFault} (h : fault.IsPlain) (name : String) :
    IsLine (fault.message name) := by
  cases fault with
  | nulInName =>
    rw [message]
    decide
  | system number reason =>
    have hnumber : IsLine ("[Errno " ++ toString number ++ "] ") :=
      (IsLine.append (by decide) (isLine_toString number)).append (by decide)
    exact ((hnumber.append (h number reason rfl)).append (by decide)).append (isLine_quote name)

/-! ### File systems -/

/-- A file system.  Names lead to files, which need not be there, and several names may lead to the
    same one.  To open a file may fail for whatever reason; to read and to write it, once it is
    open, does not. -/
structure FileSystem where
  /-- The file that a name leads to, or why it cannot be opened. -/
  opens : Directory.Access → String → Except FileFault String
  /-- The contents of the files that are there. -/
  files : String → Option ByteArray
  /-- The reason of a refusal takes up one line. -/
  isPlain : ∀ {access name fault}, opens access name = .error fault → fault.IsPlain

namespace FileSystem

/-- The content of the file with a name. -/
def read (fs : FileSystem) (name : String) : Except FileFault ByteArray :=
  match fs.opens .reading name with
  | .error fault => .error fault
  | .ok file =>
    match fs.files file with
    | some content => .ok content
    | none => .error .notFound

/-- A file that is missing has a plain reason too, as have files that are refused. -/
theorem isPlain_read {fs : FileSystem} {name : String} {fault : FileFault}
    (h : fs.read name = .error fault) : fault.IsPlain := by
  unfold read at h
  split at h
  next hopens =>
    cases h
    exact fs.isPlain hopens
  next =>
    split at h
    · cases h
    · cases h
      rintro number reason ⟨⟩
      decide

/-- Gives a file a new content. -/
def put (fs : FileSystem) (file : String) (content : ByteArray) : FileSystem :=
  { fs with files := fun other => if other = file then some content else fs.files other }

instance : FileStore (StateM FileSystem) where
  read name := fun fs => (fs.read name, fs)
  write name content := fun fs =>
    match fs.opens .writing name with
    | .ok file => (.ok (), fs.put file content)
    | .error fault => (.error fault, fs)

end FileSystem

/-! ### How a request ends -/

namespace Request

/-- What comes of reading the source: a text or an error. -/
inductive Reads (request : Request) (fs : FileSystem) : Except RequestError String → Prop
  | text : request.isText = true → Reads request fs (.ok request.source)
  | suffix : request.isText = false → isQueryFile request.source = false →
    Reads request fs (.error .unsupportedFile)
  | inaccessible {fault : FileFault} : request.isText = false →
    isQueryFile request.source = true → fs.read request.source = .error fault →
    Reads request fs (.error (.inaccessible fault request.source))
  /-- The bytes of the file may be no text. -/
  | file {content : ByteArray} : request.isText = false → isQueryFile request.source = true →
    fs.read request.source = .ok content → Reads request fs (fileText content)

/-- What comes of laying out the query of the source, which the machine can walk through. -/
def Lays (machine : Machine) (request : Request) (fs : FileSystem)
    (result : Except Json.LayoutFault String) : Prop :=
  ∃ format source q, request.format.bind OutputFormat.ofName? = some format ∧
    request.Reads fs (.ok source) ∧ Query.ofText source = .ok q ∧
    machine.reaches (format.walk request.indent) q.shape = true ∧
    format.write machine.holds request.indent q = result

/-- The first error that a request meets. -/
inductive Fails (machine : Machine) (request : Request) (fs : FileSystem) : RequestError → Prop
  | unknownFormat : request.format.bind OutputFormat.ofName? = none →
    Fails machine request fs (.unknownFormat request.format)
  /-- The source is not read. -/
  | unread {e : RequestError} : (request.format.bind OutputFormat.ofName?).isSome = true →
    request.Reads fs (.error e) → Fails machine request fs e
  | refused {source : String} {failure : Failure ScanFault} :
    (request.format.bind OutputFormat.ofName?).isSome = true → request.Reads fs (.ok source) →
    Query.ofText source = .error failure → Fails machine request fs (.refused failure)
  /-- The machine cannot walk through the query for the format. -/
  | tooDeep {format : OutputFormat} {source : String} {q : Query} :
    request.format.bind OutputFormat.ofName? = some format → request.Reads fs (.ok source) →
    Query.ofText source = .ok q →
    machine.reaches (format.walk request.indent) q.shape = false →
    Fails machine request fs .tooDeep
  /-- The text cannot be put where it should go. -/
  | unwritable {text name : String} {fault : FileFault} : request.Lays machine fs (.ok text) →
    request.outFile? = some name → fs.opens .writing name = .error fault →
    Fails machine request fs (.inaccessible fault name)

/-- How a request ends, and what is then in the files. -/
inductive Ends (machine : Machine) (request : Request) (fs : FileSystem) :
    Performance × FileSystem → Prop
  | printed {log : List LogRecord} {text : String} : request.Lays machine fs (.ok text) →
    request.outFile? = none → Ends machine request fs (⟨log, .ok text, true⟩, fs)
  | filed {log : List LogRecord} {text name file : String} : request.Lays machine fs (.ok text) →
    request.outFile? = some name → fs.opens .writing name = .ok file →
    Ends machine request fs (⟨log, .ok text, false⟩, fs.put file (text ++ "\n").toUTF8)
  | failed {log : List LogRecord} {e : RequestError} : request.Fails machine fs e →
    Ends machine request fs (⟨log, .error e, false⟩, fs)
  | unlaid {log : List LogRecord} {fault : Json.LayoutFault} :
    request.Lays machine fs (.error fault) →
    Ends machine request fs (⟨log, .error (.unlaid fault), false⟩, fs)

section Ends

variable (machine : Machine) (request : Request) (fs : FileSystem)

/-- To read the source changes no file. -/
theorem reads_sourceText :
    (request.sourceText (m := StateM FileSystem) fs).2 = fs ∧
      request.Reads fs (request.sourceText (m := StateM FileSystem) fs).1.result := by
  unfold sourceText
  by_cases htext : request.isText = true
  · rw [if_pos htext]
    exact ⟨rfl, .text htext⟩
  -- a file is looked for only if the source is no text and is named like one
  have hfile : request.isText = false := Bool.eq_false_iff.mpr htext
  rw [if_neg htext]
  by_cases hname : isQueryFile request.source = true
  · rw [if_neg (by simp [hname])]
    simp only [bind, StateT.bind, FileStore.read]
    cases hread : fs.read request.source with
    | error fault => exact ⟨rfl, .inaccessible hfile hname hread⟩
    | ok content => exact ⟨rfl, .file hfile hname hread⟩
  · have hname : isQueryFile request.source = false := Bool.eq_false_iff.mpr hname
    rw [if_pos (by simp [hname])]
    exact ⟨rfl, .suffix hfile hname⟩

/-- A text is put where it should go as a whole, or not at all. -/
theorem ends_deliver (format : OutputFormat) (log : List LogRecord) {text : String}
    (h : request.Lays machine fs (.ok text)) :
    request.Ends machine fs (request.deliver (m := StateM FileSystem) format log text fs) := by
  unfold deliver
  cases hout : request.outFile? with
  | none => exact .printed h hout
  | some name =>
    simp only [bind, StateT.bind, FileStore.write]
    -- the file loses its content only if it can be opened, and then the whole text goes into it
    cases hopens : fs.opens .writing name with
    | error fault => exact .failed (.unwritable h hout hopens)
    | ok file => exact .filed h hout hopens

/-- A request ends in one of these ways. -/
theorem ends_perform :
    request.Ends machine fs (request.perform (m := StateM FileSystem) machine fs) := by
  unfold perform
  cases hformat : request.format.bind OutputFormat.ofName? with
  | none => exact .failed (.unknownFormat hformat)
  | some format =>
    have hsome : (request.format.bind OutputFormat.ofName?).isSome = true := by simp [hformat]
    obtain ⟨hfs, hreads⟩ := request.reads_sourceText fs
    simp only [bind, StateT.bind]
    rcases hsource : request.sourceText (m := StateM FileSystem) fs with ⟨⟨log, result⟩, fs'⟩
    rw [hsource] at hfs hreads
    obtain rfl : fs' = fs := hfs
    cases result with
    | error e => exact .failed (.unread hsome hreads)
    | ok source =>
      dsimp only [textFor]
      rcases hrun : Reader.run source with ⟨failure | q, r⟩
      · exact .failed (.refused hsome hreads (congrArg Prod.fst hrun))
      have hq : Query.ofText source = .ok q := congrArg Prod.fst hrun
      dsimp only
      cases hreaches : machine.reaches (format.walk request.indent) q.shape with
      | false =>
        rw [OutputFormat.writeOn_of_not_reaches hreaches]
        exact .failed (.tooDeep hformat hreads hq hreaches)
      | true =>
        rw [OutputFormat.writeOn_of_reaches hreaches]
        -- all is read and laid out, and no file has been touched
        have hlays : request.Lays machine fs' (format.write machine.holds request.indent q) :=
          ⟨format, source, q, hformat, hreads, hq, hreaches, rfl⟩
        cases hwrite : format.write machine.holds request.indent q with
        | error fault => exact .unlaid (hwrite ▸ hlays)
        | ok text => exact request.ends_deliver machine fs' format _ (hwrite ▸ hlays)

end Ends

/-! ### What is reported -/

section Report

variable {machine : Machine} {request : Request} {fs : FileSystem} {e : RequestError}

/-- An error of a source that is not read. -/
theorem Reads.error_cases (h : request.Reads fs (.error e)) :
    e = .unsupportedFile ∨ (∃ fault, fault.IsPlain ∧ e = .inaccessible fault request.source) ∨
      ∃ fault, e = .undecodable fault := by
  -- the result is an index of the relation, so it has to be a variable
  generalize hresult : Except.error e = result at h
  cases h with
  | text => cases hresult
  | suffix =>
    cases hresult
    exact .inl rfl
  | @inaccessible fault _ _ hread =>
    cases hresult
    exact .inr (.inl ⟨fault, FileSystem.isPlain_read hread, rfl⟩)
  | file =>
    unfold fileText at hresult
    split at hresult <;> cases hresult
    exact .inr (.inr ⟨_, rfl⟩)

/-- The report of an error is the diagnostic of the query, or one line. -/
theorem Fails.report (h : request.Fails machine fs e) :
    (∃ source d, request.Reads fs (.ok source) ∧ d.source = source ∧
        (Query.ofText source = .error (.refused d) ∨
          Query.ofText source = .error (.feed (.misspelled d))) ∧ e.report = d.render) ∨
      e.report = "askl: error: " ++ e.message ∧ IsLine e.message := by
  cases h with
  | unknownFormat =>
    refine .inr ⟨rfl, IsLine.append (by decide) ?_⟩
    cases request.format with
    | none => decide
    | some name => exact isLine_quote name
  | unread _ hreads =>
    obtain rfl | ⟨fault, hplain, rfl⟩ | ⟨fault, rfl⟩ := hreads.error_cases
    · exact .inr ⟨rfl, by decide⟩
    · exact .inr ⟨rfl, hplain.isLine request.source⟩
    · exact .inr ⟨rfl, isLine_utf8Fault fault⟩
  | @refused source failure _ hreads hsource =>
    obtain ⟨d, hd, rfl | rfl⟩ := exists_diagnostic hsource
    · exact .inl ⟨source, d, hreads, hd, .inl hsource, rfl⟩
    · exact .inl ⟨source, d, hreads, hd, .inr hsource, rfl⟩
  | tooDeep => exact .inr ⟨rfl, by decide⟩
  | @unwritable _ name _ _ _ hopens => exact .inr ⟨rfl, (fs.isPlain hopens).isLine name⟩

/-- No error of a request is one of the layout, which is not reported. -/
theorem Fails.ne_unlaid (h : request.Fails machine fs e) (fault : Json.LayoutFault) :
    e ≠ .unlaid fault := by
  cases h with
  | unread _ hreads => obtain rfl | ⟨_, _, rfl⟩ | ⟨_, rfl⟩ := hreads.error_cases <;> simp
  | _ => simp

end Report

end Request

/-! ### Calls -/

/-- The last line stands behind the others with its own line feed. -/
theorem textOfLines_concat (lines : List String) (line : String) :
    textOfLines (lines ++ [line]) = textOfLines lines ++ line ++ "\n" := by
  simp [textOfLines, String.append_assoc]

/-- Where there are lines, they end in a line feed. -/
theorem textOfLines_eq (lines : List String) :
    textOfLines lines = "" ∨ ∃ text, textOfLines lines = text ++ "\n" := by
  obtain rfl | ⟨before, line, rfl⟩ := lines.eq_nil_or_concat
  · exact .inl rfl
  · rw [List.concat_eq_append, textOfLines_concat]
    exact .inr ⟨_, rfl⟩

/-- Nothing but the indentation keeps a query from being laid out. -/
theorem Request.Lays.ofIndentation_eq {machine : Machine} {request : Request} {fs : FileSystem}
    {fault : Json.LayoutFault} (h : request.Lays machine fs (.error fault)) :
    Json.Layout.ofIndentation machine.holds request.indent = .error fault := by
  obtain ⟨format, source, q, -, -, -, -, hwrite⟩ := h
  -- a style always gives a text, so the fault is one of the JSON layout
  cases format with
  | styled style => cases hwrite
  | json =>
    rw [OutputFormat.write] at hwrite
    cases hlayout : Json.Layout.ofIndentation machine.holds request.indent with
    | error fault' =>
      rw [hlayout] at hwrite
      cases hwrite
      rfl
    | ok layout =>
      rw [hlayout] at hwrite
      cases hwrite

/-- There is no file to write to if none is named, or one without a name. -/
theorem Request.outFile?_eq_none {request : Request} (h : request.outFile? = none) :
    request.out = none ∨ request.out = some "" := by
  unfold outFile? at h
  split at h
  next name hout =>
    split at h
    next hempty => exact .inr (by rw [hout, String.isEmpty_iff.mp hempty])
    next => cases h
  next hout => exact .inl hout

/-- A file to write to has a name. -/
theorem Request.outFile?_eq_some {request : Request} {name : String}
    (h : request.outFile? = some name) : request.out = some name ∧ name ≠ "" := by
  unfold outFile? at h
  split at h
  next hout =>
    split at h
    next => cases h
    next hne =>
      cases h
      exact ⟨hout, fun hempty => hne (String.isEmpty_iff.mpr hempty)⟩
  next => cases h

section Call

variable {machine : Machine} {options : Options} {fs fs' : FileSystem}

/-- What a request leaves is reported, if its text can be laid out. -/
theorem Options.call_of_perform {p : Performance}
    (hperform : options.request.perform (m := StateM FileSystem) machine fs = (p, fs'))
    (hlaid : ∀ fault, p.result ≠ .error (.unlaid fault)) :
    options.call (m := StateM FileSystem) machine fs
      = (.ok (p.report options.verbosity), fs') := by
  unfold call
  simp only [bind, StateT.bind, hperform]
  rfl

/-- Otherwise the call breaks off. -/
theorem Options.call_of_unlaid {log : List LogRecord} {fault : Json.LayoutFault}
    {isPrinted : Bool}
    (hperform : options.request.perform (m := StateM FileSystem) machine fs
      = (⟨log, .error (.unlaid fault), isPrinted⟩, fs')) :
    options.call (m := StateM FileSystem) machine fs = (.error fault, fs') := by
  unfold call
  simp only [bind, StateT.bind, hperform]
  rfl

/-- **A call writes all or nothing.**  Let a call have any options, on any machine, and let any
    files be there, any of which may be refused.

    A call that ends with code 0 has read its source, found a query in it and laid that out.  The
    text and a line feed are all that is printed, and no file has changed, if no file is named to
    write to, or an empty name is given.  Otherwise they are all that is in the file of that name,
    nothing is printed, and no other file has changed.  A call that ends with code 1 prints nothing
    and changes no file, and its errors end in the diagnostic of the query, or in one line.  There
    is no other code.  No error escapes but that of an indentation that cannot be had, and then no
    file has changed either.

    A call whose arguments are understood, by whichever convention, is the call with the options
    that they give. -/
theorem call_writes_all_or_nothing (machine : Machine) (options : Options) (fs : FileSystem) :
    let request := options.request
    let run := options.call (m := StateM FileSystem) machine fs
    (∀ report, run.1 = .ok report →
      (report.code = 0 ∧ ∃ text, request.Lays machine fs (.ok text) ∧
        ((options.out = none ∨ options.out = some "") ∧
            report.stdout = text ++ "\n" ∧ run.2 = fs ∨
          ∃ name file, options.out = some name ∧ name ≠ "" ∧ fs.opens .writing name = .ok file ∧
            report.stdout = "" ∧ run.2.files file = some (text ++ "\n").toUTF8 ∧
            ∀ other, other ≠ file → run.2.files other = fs.files other)) ∨
      (report.code = 1 ∧ report.stdout = "" ∧ run.2 = fs ∧
        ∃ e before, request.Fails machine fs e ∧ report.stderr = before ++ e.report ++ "\n" ∧
          (before = "" ∨ ∃ log, before = log ++ "\n") ∧
          ((∃ source d, request.Reads fs (.ok source) ∧ d.source = source ∧
              (Query.ofText source = .error (.refused d) ∨
                Query.ofText source = .error (.feed (.misspelled d))) ∧ e.report = d.render) ∨
            e.report = "askl: error: " ++ e.message ∧ IsLine e.message))) ∧
    (∀ fault, run.1 = .error fault → request.Lays machine fs (.error fault) ∧
      Json.Layout.ofIndentation machine.holds options.indent = .error fault ∧ run.2 = fs) ∧
    ∀ convention arguments, Options.ofArguments convention arguments = .ok options →
      call (m := StateM FileSystem) machine convention arguments fs = run := by
  intro request run
  refine and_assoc.mp ⟨?_, fun convention arguments h => by simp only [call, h, run]⟩
  -- the program does what the request does, and a request ends in one of four ways
  have hends := request.ends_perform machine fs
  rcases hperform : request.perform (m := StateM FileSystem) machine fs with ⟨p, fs'⟩
  rw [hperform] at hends
  cases hends with
  | @printed log text hlays hout =>
    have hrun : run = _ := Options.call_of_perform hperform (by simp)
    rw [hrun]
    refine ⟨fun report hreport => ?_, fun fault hfault => by cases hfault⟩
    cases hreport
    exact .inl ⟨rfl, text, hlays, .inl ⟨Request.outFile?_eq_none hout, rfl, rfl⟩⟩
  | @filed log text name file hlays hout hopens =>
    have hrun : run = _ := Options.call_of_perform hperform (by simp)
    rw [hrun]
    refine ⟨fun report hreport => ?_, fun fault hfault => by cases hfault⟩
    cases hreport
    obtain ⟨hname, hne⟩ := Request.outFile?_eq_some hout
    refine .inl ⟨rfl, text, hlays, .inr ⟨name, file, hname, hne, hopens, rfl, ?_, ?_⟩⟩
    · exact if_pos rfl
    · exact fun other hother => if_neg hother
  | @failed log e hfails =>
    -- an error of the layout would break the call off, and this is none
    have hrun : run = _ :=
      Options.call_of_perform hperform fun fault hfault =>
        hfails.ne_unlaid fault (Except.error.inj hfault)
    rw [hrun]
    refine ⟨fun report hreport => ?_, fun fault hfault => by cases hfault⟩
    cases hreport
    exact .inr ⟨rfl, rfl, rfl, e, _, hfails, textOfLines_concat _ _, textOfLines_eq _,
      hfails.report⟩
  | @unlaid log fault hlays =>
    have hrun : run = _ := Options.call_of_unlaid hperform
    rw [hrun]
    refine ⟨fun report hreport => (by cases hreport), fun fault' hfault => ?_⟩
    cases hfault
    exact ⟨hlays, hlays.ofIndentation_eq, rfl⟩

/-- A file with a lone at sign is not replaced by the canonical text of its query, which it has
    not. -/
theorem call_writes_all_or_nothing_of_lone_sign :
    let fs : FileSystem :=
      { opens := fun _ name => .ok name
        files := fun name => if name = "q.askl" then some "@".toUTF8 else none
        isPlain := by simp }
    let run := call (m := StateM FileSystem) (.ofLimits 100 1000) .strict
      ["q.askl", "-f", "askl", "-o", "q.askl"] fs
    ∃ report, run.1 = .ok report ∧ report.code = 1 ∧ report.stdout = "" ∧ run.2 = fs := by
  intro fs run
  let arguments := ["q.askl", "-f", "askl", "-o", "q.askl"]
  obtain ⟨options, h⟩ : ∃ options, Options.ofArguments .strict arguments = .ok options := by
    have hok : (Options.ofArguments .strict arguments).isOk = true := by decide +kernel
    cases hoptions : Options.ofArguments .strict arguments with
    | ok options => exact ⟨options, rfl⟩
    | error refusal =>
      rw [hoptions] at hok
      cases hok
  obtain ⟨hreports, -, hcall⟩ := call_writes_all_or_nothing (.ofLimits 100 1000) options fs
  have hsame : run = _ := hcall .strict arguments h
  have hcode : run.1.toOption.map Report.code = some 1 := by decide +kernel
  cases hrun : run.1 with
  | error fault =>
    rw [hrun] at hcode
    cases hcode
  | ok report =>
    rw [hrun] at hcode
    have hcode' : report.code = 1 := Option.some.inj hcode
    obtain ⟨hzero, -⟩ | ⟨-, hstdout, hfiles, -⟩ := hreports report (hsame ▸ hrun)
    · rw [hcode'] at hzero
      cases hzero
    · exact ⟨report, rfl, hcode', hstdout, hsame ▸ hfiles⟩

end Call

end ScopedQuery.CommandLine
