import ScopedQuery.CommandLine.Files
import ScopedQuery.CommandLine.Options
import ScopedQuery.Machine
import ScopedQuery.Query.Json
import ScopedQuery.Reader.Scopes
import ScopedQuery.Text.Utf8

namespace ScopedQuery.CommandLine

open Text

/-!
# What a call does

A call reads a query, from its arguments or from a file, and writes it in one of the formats, to the
standard output or to a file.

* `OutputFormat.writeOn` — what a machine writes for a query.
* `textFor` — the text for a query, with all that is logged on the way.
* `Request.perform` — what is asked is done.
* `Options.call` — a call whose options are known; `Report` is what it leaves.
* `call` — a call with its arguments.
-/

/-- How much a log record matters. -/
inductive LogLevel
  | debug
  | info
deriving DecidableEq

/-- What the program tells of its work. -/
structure LogRecord where
  level : LogLevel
  message : String

/-- The line of a record in the log. -/
def LogRecord.line (record : LogRecord) : String :=
  match record.level with
  | .debug => "DEBUG askl.askl_parser: " ++ record.message
  | .info => "INFO askl.askl_cli: " ++ record.message

/-- What a call is asked to do. -/
structure Request where
  /-- A query, or the name of a file. -/
  source : String
  /-- The source is a query. -/
  isText : Bool
  /-- The name of the format, if there is one. -/
  format : Option String
  /-- The indentation of JSON texts. -/
  indent : Json.Indentation
  /-- The file to write to; none if it is missing or empty. -/
  out : Option String := none

/-- Why a request fails. -/
inductive RequestError
  | unknownFormat (name : Option String)
  | unsupportedFile
  | inaccessible (fault : FileFault) (name : String)
  | undecodable (fault : Utf8Fault)
  | refused (failure : Failure ScanFault)
  | tooDeep
  /-- The text cannot be laid out. -/
  | unlaid (fault : Json.LayoutFault)

/-- The diagnostic of a failure, if the query is to blame. -/
def diagnosticOf? : Failure ScanFault → Option Diagnostic
  | .feed (.misspelled diagnostic) => some diagnostic
  | .refused diagnostic => some diagnostic
  | .feed (.pastEnd _) => none
  | .misplaced => none

namespace RequestError

/-- The wording of an error. -/
def message : RequestError → String
  | unknownFormat name => "Unknown output format: " ++ name.elim "[]" quote
  | unsupportedFile => "Only .askl files are supported."
  | inaccessible fault name => fault.message name
  | undecodable fault => fault.message
  | refused (.feed fault) => fault.message
  | refused (.refused diagnostic) => diagnostic.message
  | refused .misplaced => ""
  | tooDeep => "query nests too deeply to format"
  | unlaid fault => fault.message

/-- What the user is shown: an error in a query with its line, any other one on one line. -/
def report (e : RequestError) : String :=
  match e with
  | refused failure =>
    match diagnosticOf? failure with
    | some diagnostic => diagnostic.render
    | none => "askl: error: " ++ e.message
  | _ => "askl: error: " ++ e.message

end RequestError

/-- What is logged, and what comes of it. -/
structure Logged (α : Type) where
  log : List LogRecord
  result : Except RequestError α

namespace OutputFormat

/-- The text of a query in a format, where `holds` tells for how many blanks there is room. -/
def write (holds : Nat → Bool) (format : OutputFormat) (indent : Json.Indentation) (q : Query) :
    Except Json.LayoutFault String :=
  match format with
  | json => (Json.Layout.ofIndentation holds indent).map q.toJson.text
  | styled style => .ok (q.format style)

/-- The walk on which a query is written in a format. -/
def walk (format : OutputFormat) (indent : Json.Indentation) : Walk :=
  match format with
  | json => .text indent
  | styled style => .styled style

/-- What a machine writes for a query in a format. -/
def writeOn (machine : Machine) (format : OutputFormat) (indent : Json.Indentation) (q : Query) :
    Except RequestError String :=
  match machine.along (format.walk indent) (format.write machine.holds indent) q with
  | some written => written.mapError .unlaid
  | none => .error .tooDeep

section WriteOn

variable {machine : Machine} {format : OutputFormat} {indent : Json.Indentation} {q : Query}

/-- What the machine can walk through is written, if it can be laid out. -/
theorem writeOn_of_reaches (h : machine.reaches (format.walk indent) q.shape = true) :
    format.writeOn machine indent q = (format.write machine.holds indent q).mapError .unlaid := by
  rw [writeOn, Machine.along, if_pos h]

/-- What the machine cannot walk through is not laid out at all. -/
theorem writeOn_of_not_reaches (h : machine.reaches (format.walk indent) q.shape = false) :
    format.writeOn machine indent q = .error .tooDeep := by
  rw [writeOn, Machine.along, if_neg (by simp [h])]

end WriteOn

end OutputFormat

/-- The records of what a reader tells. -/
def readerLog (r : Reader Cursor) : List LogRecord :=
  r.trace.toList.map fun entry => ⟨.debug, entry.message⟩

/-- Reads the query that a text spells and writes it in a format. -/
def textFor (machine : Machine) (format : OutputFormat) (indent : Json.Indentation)
    (source : String) : Logged String :=
  match Reader.run source with
  | (.error failure, r) => ⟨readerLog r, .error (.refused failure)⟩
  | (.ok q, r) =>
    ⟨readerLog r ++ [⟨.info, s!"parsed {q.statements.length} top-level statements"⟩],
      format.writeOn machine indent q⟩

/-- The text in a file: UTF-8, where any line break counts as a line feed. -/
def fileText (content : ByteArray) : Except RequestError String :=
  match decodeUtf8 content with
  | .ok text => .ok (String.ofList (unifyLineBreaks text.toList))
  | .error fault => .error (.undecodable fault)

/-- A query is kept in a file of this kind. -/
def isQueryFile (name : String) : Bool := ".askl".toList.isSuffixOf name.toList

/-- What a request leaves: the text that was written, and where. -/
structure Performance where
  log : List LogRecord
  result : Except RequestError String
  /-- The text went to the standard output. -/
  isPrinted : Bool := false

namespace Request

/-- The file to write to, if one is named. -/
def outFile? (request : Request) : Option String :=
  match request.out with
  | some name => if name.isEmpty then none else some name
  | none => none

variable {m : Type → Type} [Monad m] [FileStore m]

/-- The text of the query. -/
def sourceText (request : Request) : m (Logged String) :=
  if request.isText then return ⟨[], .ok request.source⟩
  else if !isQueryFile request.source then return ⟨[], .error .unsupportedFile⟩
  else do
    -- that the file is read is told before it is known whether it can be
    let log := [⟨.info, s!"reading query from {request.source}"⟩]
    match ← FileStore.read request.source with
    | .error fault => return ⟨log, .error (.inaccessible fault request.source)⟩
    | .ok content => return ⟨log, fileText content⟩

/-- Puts a text where the request wants it. -/
def deliver (request : Request) (format : OutputFormat) (log : List LogRecord) (text : String) :
    m Performance := do
  match request.outFile? with
  | none => return ⟨log, .ok text, true⟩
  | some name =>
    match ← FileStore.write name (text ++ "\n").toUTF8 with
    | .error fault => return ⟨log, .error (.inaccessible fault name), false⟩
    | .ok () =>
      let record := ⟨.info, s!"wrote {format.name} output to {name}"⟩
      return ⟨log ++ [record], .ok text, false⟩

/-- Does what is asked: an unknown format is reported before the file is looked at, and nothing is
    written before the whole text is there. -/
def perform (machine : Machine) (request : Request) : m Performance := do
  match request.format.bind OutputFormat.ofName? with
  | none => return ⟨[], .error (.unknownFormat request.format), false⟩
  | some format =>
    let source ← request.sourceText
    match source.result with
    | .error e => return ⟨source.log, .error e, false⟩
    | .ok text =>
      let written := textFor machine format request.indent text
      match written.result with
      | .error e => return ⟨source.log ++ written.log, .error e, false⟩
      | .ok text => request.deliver format (source.log ++ written.log) text

end Request

/-! ### Calls -/

/-- What a call leaves behind, its files apart. -/
structure Report where
  code : Nat
  stdout : String := ""
  stderr : String := ""
deriving DecidableEq

/-- The records that a number of verbose switches lets through, as lines. -/
def shownLog (verbosity : Nat) (log : List LogRecord) : List String :=
  let isShown : LogRecord → Bool := fun record =>
    match record.level with
    | .info => 1 ≤ verbosity
    | .debug => 2 ≤ verbosity
  (log.filter isShown).map LogRecord.line

/-- Lines of text, each with its break. -/
def textOfLines (lines : List String) : String := String.join (lines.map (· ++ "\n"))

/-- How the program is called, in lines of eighty columns. -/
def usage : List String :=
  ["usage: askl [-h] [-s] [-f \x7bjson,askl,tree\x7d] [-o OUTFILE] [--indent INDENT]",
    "            [-v]",
    "            source"]

/-- What the user is told of the program, in lines of eighty columns. -/
def help : List String :=
  usage ++
  ["",
    "Parse an askl query and dump its syntax tree.",
    "",
    "positional arguments:",
    "  source                Filename or raw query (with -s)",
    "",
    "options:",
    "  -h, --help            show this help message and exit",
    "  -s, --string          Interpret source as literal query",
    "  -f \x7bjson,askl,tree\x7d, --format \x7bjson,askl,tree\x7d",
    "                        Output format (default: json)",
    "  -o OUTFILE, --out OUTFILE",
    "                        Output to file",
    "  --indent INDENT       JSON indentation (default: 2)",
    "  -v, --verbose         Increase log verbosity (-v info, -vv debug)"]

/-- The request of a call's options. -/
def Options.request (options : Options) : Request :=
  { source := options.source, isText := options.isText, format := options.format,
    indent := options.indent, out := options.out }

/-- The report of a performance. -/
def Performance.report (verbosity : Nat) (p : Performance) : Report :=
  let log := shownLog verbosity p.log
  match p.result with
  | .error e => { code := 1, stderr := textOfLines (log ++ [e.report]) }
  | .ok text =>
    { code := 0, stdout := if p.isPrinted then text ++ "\n" else "", stderr := textOfLines log }

variable {m : Type → Type} [Monad m] [FileStore m]

/-- A call whose options are known.  A text that cannot be laid out breaks it off unreported. -/
def Options.call (machine : Machine) (options : Options) : m (Except Json.LayoutFault Report) := do
  let performance ← options.request.perform machine
  -- an indentation that no text can have is not one of the errors that are reported
  match performance.result with
  | .error (.unlaid fault) => return .error fault
  | _ => return .ok (performance.report options.verbosity)

/-- The report of a call whose arguments give no options. -/
def Refusal.report : Refusal → Report
  | helpWanted => { code := 0, stdout := textOfLines help }
  | usage e =>
    { code := 2, stderr := textOfLines (CommandLine.usage ++ ["askl: error: " ++ e.message]) }

/-- A call with its arguments. -/
def call (machine : Machine) (convention : Convention) (arguments : List String) :
    m (Except Json.LayoutFault Report) :=
  match Options.ofArguments convention arguments with
  | .error refusal => return .ok refusal.report
  | .ok options => options.call machine

end ScopedQuery.CommandLine
