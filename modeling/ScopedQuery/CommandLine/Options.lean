import ScopedQuery.CommandLine.Switch
import ScopedQuery.Formatter
import ScopedQuery.Json

namespace ScopedQuery.CommandLine

open Text

/-!
# The options of a call

* `OutputFormat` — what can be asked for.
* `Options` — the options of a call; `Options.ofArguments` reads them.
* `Expansion`, `expand` — the switches that one argument uses.
* `Progress` — what has been read of the arguments, taken one after another.
-/

/-- What is written for a query. -/
inductive OutputFormat
  | json
  | styled (style : Style)
deriving DecidableEq

namespace OutputFormat

/-- The name of a format. -/
def name : OutputFormat → String
  | json => "json"
  | styled style => style.name

/-- All formats. -/
def all : List OutputFormat := [json, styled .canonical, styled .tree]

/-- The format of a name. -/
def ofName? (name : String) : Option OutputFormat := all.find? fun format => format.name == name

end OutputFormat

/-- The options of a call. -/
structure Options where
  /-- A query, or the name of a file. -/
  source : String
  /-- The source is a query. -/
  isText : Bool := false
  /-- The name of the format; none if it was taken back. -/
  format : Option String := some OutputFormat.json.name
  out : Option String := none
  indent : Json.Indentation := .blanks 2
  verbosity : Nat := 0

/-- How the reading of the arguments ends without options. -/
inductive Refusal
  | usage (error : UsageError)
  /-- The user asked how the program is called. -/
  | helpWanted

/-! ### Switches in one argument -/

/-- The switches that one argument uses. -/
structure Expansion where
  /-- The switches without a value, in order. -/
  plain : List Switch := []
  /-- The switch with a value, which comes last, and the value if it is attached. -/
  valued : Option (Switch × Option String) := none
  /-- What is not understood behind the switches. -/
  unknown : Option String := none

/-- Puts a switch in front of the others. -/
def Expansion.cons (switch : Switch) (e : Expansion) : Expansion :=
  { e with plain := switch :: e.plain }

/-- The switch that still needs a value: the last one, if none is attached. -/
def Expansion.unmet? (e : Expansion) : Option Switch :=
  match e.valued with
  | some (switch, none) => some switch
  | _ => none

/-- What becomes of characters that are attached to a switch without a value, if the first of them
    is no switch. -/
def expandStray (convention : Convention) (switch : Switch) (text : List Char) :
    Except UsageError Expansion :=
  -- a hyphen never opens something that is set aside
  if convention = .lenient ∨ text.head? = some '-' then
    .error (.needlessValue switch (String.ofList text))
  else .ok { plain := [switch], unknown := some (String.ofList ('-' :: text)) }

/-- What is attached to a switch that stands behind another one in the same argument. -/
def Convention.attachment (convention : Convention) : List Char → Attachment
  | [] => .nothing
  | c :: rest => if convention = .strict ∧ c = '=' then .assigned rest else .joined (c :: rest)

/-- What is attached to a switch is at most one character longer than the text, so that reading it
    on comes to an end. -/
theorem Convention.length_attachment_le (convention : Convention) (text : List Char) :
    (convention.attachment text).length ≤ text.length + 1 := by
  unfold attachment
  split
  · simp [Attachment.length]
  · split <;> simp [Attachment.length]

/-- The switches that one argument uses.  A switch of one letter without a value may have others
    joined to it, letter by letter; the last one may have its value joined to it. -/
def expand (convention : Convention) (switch : Switch) (attachment : Attachment) :
    Except UsageError Expansion :=
  match attachment with
  | .nothing =>
    if switch.takesValue then .ok { valued := some (switch, none) }
    else .ok { plain := [switch] }
  | .assigned text =>
    if switch.takesValue then .ok { valued := some (switch, some (String.ofList text)) }
    else .error (.needlessValue switch (String.ofList text))
  | .joined text =>
    if switch.takesValue then .ok { valued := some (switch, some (String.ofList text)) }
    else
      match text with
      | [] => .error (.needlessValue switch "")
      | c :: rest =>
        match Switch.ofSpelling? ['-', c] with
        | none => expandStray convention switch (c :: rest)
        -- what follows is again a switch, perhaps with something attached to it
        | some next =>
          (expand convention next (convention.attachment rest)).map (Expansion.cons switch)
termination_by attachment.length
decreasing_by
  exact Nat.lt_of_le_of_lt (convention.length_attachment_le rest) (by simp [Attachment.length])

/-! ### All arguments -/

/-- What has been read of the arguments. -/
structure Progress where
  options : Options := { source := "" }
  hasSource : Bool := false
  unrecognized : List String := []

namespace Progress

/-- Takes a value that belongs to no switch: the first one is the source. -/
def takeValue (p : Progress) (text : String) : Progress :=
  if p.hasSource then { p with unrecognized := p.unrecognized ++ [text] }
  else { p with options := { p.options with source := text }, hasSource := true }

/-- Takes what is not understood. -/
def takeUnknown (p : Progress) (text : String) : Progress :=
  { p with unrecognized := p.unrecognized ++ [text] }

/-- Takes a switch without a value. -/
def takePlain (p : Progress) : Switch → Except Refusal Progress
  | .help => .error .helpWanted
  | .string => .ok { p with options := { p.options with isText := true } }
  | .verbose => .ok { p with options := { p.options with verbosity := p.options.verbosity + 1 } }
  | .format | .out | .indent => .ok p

/-- Takes several switches without values. -/
def takeAllPlain (p : Progress) : List Switch → Except Refusal Progress
  | [] => .ok p
  | switch :: rest =>
    match p.takePlain switch with
    | .error refusal => .error refusal
    | .ok p => p.takeAllPlain rest

/-- Takes a switch with the separator in the place of its value, which takes the option back. -/
def takeBack (p : Progress) : Switch → Progress
  | .format => { p with options := { p.options with format := none } }
  | .out => { p with options := { p.options with out := none } }
  | .indent => { p with options := { p.options with indent := .unusable } }
  | .help | .string | .verbose => p

/-- Takes a switch with its value. -/
def takeValued (p : Progress) (switch : Switch) (value : String) : Except Refusal Progress :=
  match switch with
  | .format =>
    if (OutputFormat.ofName? value).isSome then
      .ok { p with options := { p.options with format := some value } }
    else .error (.usage (.invalidChoice .format value (OutputFormat.all.map OutputFormat.name)))
  | .out => .ok { p with options := { p.options with out := some value } }
  | .indent =>
    match integer? value with
    | some n => .ok { p with options := { p.options with indent := .blanks n } }
    | none => .error (.usage (.invalidInteger .indent value))
  | .help | .string | .verbose => .ok p

/-- Takes the switches of one argument, and `value` for the last of them if it needs one that is not
    attached. -/
def takeExpansion (p : Progress) (convention : Convention) (e : Expansion) (value : String) :
    Except Refusal Progress :=
  match p.takeAllPlain e.plain with
  | .error refusal => .error refusal
  | .ok p =>
    let p := e.unknown.elim p p.takeUnknown
    match e.valued with
    | some (switch, attached) =>
      let value := attached.getD value
      if convention = .lenient ∧ value = "--" then .ok (p.takeBack switch)
      else p.takeValued switch value
    | none => .ok p

/-- Reads arguments one after another.  The separator is passed over next to the source, and is not
    understood anywhere else. -/
def readItems (p : Progress) (convention : Convention) : List Item → Except Refusal Progress
  | [] => .ok p
  | .value text :: .separator :: rest =>
    if p.hasSource then ((p.takeValue text).takeUnknown "--").readItems convention rest
    else (p.takeValue text).readItems convention rest
  | .value text :: rest => (p.takeValue text).readItems convention rest
  | .separator :: .value text :: rest =>
    if p.hasSource then ((p.takeUnknown "--").takeValue text).readItems convention rest
    else (p.takeValue text).readItems convention rest
  | .separator :: rest => (p.takeUnknown "--").readItems convention rest
  | .unknown text :: rest => (p.takeUnknown text).readItems convention rest
  | .switch switch attachment :: rest =>
    match expand convention switch attachment with
    | .error e => .error (.usage e)
    | .ok e =>
      match e.unmet?, rest with
      | none, rest =>
        match p.takeExpansion convention e "" with
        | .error refusal => .error refusal
        | .ok p => p.readItems convention rest
      | some _, .value text :: rest =>
        match p.takeExpansion convention e text with
        | .error refusal => .error refusal
        | .ok p => p.readItems convention rest
      -- neither the separator nor another switch is a value
      | some switch, _ => .error (.usage (.missingValue switch))

end Progress

/-- The options that the arguments of a call spell. -/
def Options.ofArguments (convention : Convention) (arguments : List String) :
    Except Refusal Options :=
  match items convention arguments with
  | .error e => .error (.usage e)
  | .ok items =>
    match ({} : Progress).readItems convention items with
    | .error refusal => .error refusal
    | .ok p =>
      if !p.hasSource then .error (.usage .missingSource)
      else if p.unrecognized.isEmpty then .ok p.options
      else .error (.usage (.unrecognized p.unrecognized))

end ScopedQuery.CommandLine
