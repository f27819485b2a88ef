import ScopedQuery.Text.Numeral
import ScopedQuery.Text.Quoted

namespace ScopedQuery.CommandLine

open Text

/-!
# Switches

* `Switch` — the switches that the program knows, with their spellings.
* `Convention` — the two ways to read what is attached to a switch of one letter.
* `Attachment` — what may be attached to a switch within one argument.
* `Item`, `classify` — what an argument is: a switch, a value, or the separator behind which all
  arguments are values.
* `UsageError` — why the arguments are refused.
-/

/-- The switches of the program. -/
inductive Switch
  | help
  /-- The source is a query and not the name of a file. -/
  | string
  | format
  | out
  | indent
  | verbose
deriving DecidableEq

namespace Switch

/-- The spellings of all switches. -/
def spellings : List (String × Switch) :=
  [("-h", help), ("--help", help), ("-s", string), ("--string", string), ("-f", format),
   ("--format", format), ("-o", out), ("--out", out), ("--indent", indent), ("-v", verbose),
   ("--verbose", verbose)]

/-- The switch of a spelling. -/
def ofSpelling? (spelling : List Char) : Option Switch :=
  spellings.lookup (String.ofList spelling)

/-- All spellings of a switch, as messages name it. -/
def title (switch : Switch) : String :=
  "/".intercalate ((spellings.filter fun entry => entry.2 == switch).map Prod.fst)

/-- The switch needs a value. -/
def takesValue : Switch → Bool
  | format | out | indent => true
  | help | string | verbose => false

end Switch

/-- How one reads what is attached to a switch of one letter.  There are two ways. -/
inductive Convention
  /-- Behind the first switch of an argument an equals sign sets off what is attached, which may be
      further switches; behind a later switch it is the first character of the value.  A character
      that is no switch is refused.  The separator in the place of a value takes the option back. -/
  | lenient
  /-- An equals sign sets off a value.  From a character on that is no switch the argument is not
      understood.  The separator in the place of a value is a value. -/
  | strict
deriving DecidableEq

/-- Why the arguments of a call are refused. -/
inductive UsageError
  /-- A shortened switch may stand for several. -/
  | ambiguous (argument : String) (candidates : List String)
  /-- A switch that needs a value has none. -/
  | missingValue (switch : Switch)
  /-- A switch that needs no value has one. -/
  | needlessValue (switch : Switch) (value : String)
  | invalidChoice (switch : Switch) (value : String) (choices : List String)
  | invalidInteger (switch : Switch) (value : String)
  | missingSource
  | unrecognized (arguments : List String)

/-- The wording of an error. -/
def UsageError.message : UsageError → String
  | ambiguous argument candidates =>
    "ambiguous option: " ++ argument ++ " could match " ++ ", ".intercalate candidates
  | missingValue switch => "argument " ++ switch.title ++ ": expected one argument"
  | needlessValue switch value =>
    "argument " ++ switch.title ++ ": ignored explicit argument " ++ quote value
  | invalidChoice switch value choices =>
    "argument " ++ switch.title ++ ": invalid choice: " ++ quote value ++ " (choose from "
      ++ ", ".intercalate (choices.map quote) ++ ")"
  | invalidInteger switch value =>
    "argument " ++ switch.title ++ ": invalid int value: " ++ quote value
  | missingSource => "the following arguments are required: source"
  | unrecognized arguments => "unrecognized arguments: " ++ " ".intercalate arguments

/-- What is attached to a switch within one argument. -/
inductive Attachment
  | nothing
  /-- The text follows a switch of one letter and may name further switches. -/
  | joined (text : List Char)
  /-- The text can only be a value: an equals sign sets it off. -/
  | assigned (text : List Char)

/-- The number of characters that are attached. -/
def Attachment.length : Attachment → Nat
  | nothing => 0
  | joined text => text.length + 1
  | assigned text => text.length + 1

/-- What an argument is. -/
inductive Item
  | value (text : String)
  /-- A switch, together with what is attached to it. -/
  | switch (switch : Switch) (attachment : Attachment)
  /-- It looks like a switch, and is none. -/
  | unknown (text : String)
  /-- The two hyphens behind which all arguments are values. -/
  | separator

/-- The text before and behind the first equals sign. -/
def splitAtEquals? (text : List Char) : Option (List Char × List Char) :=
  if text.contains '=' then
    some (text.takeWhile (· != '='), (text.dropWhile (· != '=')).drop 1)
  else none

/-- Digits, with at most one point, which stands in front of a digit. -/
def isUnsignedNumber (text : List Char) : Bool :=
  let isDigit := fun c => (decimalValue? c).isSome
  match text.dropWhile isDigit with
  | [] => !text.isEmpty
  | '.' :: fraction => !fraction.isEmpty && fraction.all isDigit
  | _ => false

/-- A negative number, which is never a switch; a line feed may follow it. -/
def isNegativeNumber : List Char → Bool
  | '-' :: text =>
    isUnsignedNumber text || (text.getLast? == some '\n' && isUnsignedNumber text.dropLast)
  | _ => false

/-- The switches that an argument of two hyphens may stand for, as a beginning of their names. -/
def candidates (beginning : List Char) : List (String × Switch) :=
  Switch.spellings.filter fun entry => beginning.isPrefixOf entry.1.toList

/-- What an argument that opens with a hyphen is, if it is no spelling of a switch. -/
def classifyOther (text : List Char) : Item :=
  if isNegativeNumber text || text.contains ' ' then .value (String.ofList text)
  else .unknown (String.ofList text)

/-- What a long argument that opens with two hyphens is: a switch, whose name may be shortened. -/
def classifyLong (text : List Char) : Except UsageError Item :=
  let (beginning, attachment) :=
    match splitAtEquals? text with
    | some (beginning, value) => (beginning, Attachment.assigned value)
    | none => (text, Attachment.nothing)
  match candidates beginning with
  | [] => .ok (classifyOther text)
  | [entry] => .ok (.switch entry.2 attachment)
  | entries => .error (.ambiguous (String.ofList text) (entries.map Prod.fst))

/-- What an argument that opens with a hyphen and another character is. -/
def classifyShort (convention : Convention) (text : List Char) : Item :=
  match splitAtEquals? text with
  | some (spelling, value) =>
    match Switch.ofSpelling? spelling with
    | some switch =>
      match convention with
      | .lenient => .switch switch (.joined value)
      | .strict => .switch switch (.assigned value)
    | none => joined
  | none => joined
where
  /-- The second character may be a switch, and the others be attached to it. -/
  joined : Item :=
    match Switch.ofSpelling? (text.take 2) with
    | some switch => .switch switch (.joined (text.drop 2))
    | none => classifyOther text

/-- What an argument is, if it is not the separator. -/
def classify (convention : Convention) (argument : String) : Except UsageError Item :=
  match argument.toList with
  | '-' :: '-' :: rest =>
    match Switch.ofSpelling? ('-' :: '-' :: rest) with
    | some switch => .ok (.switch switch .nothing)
    | none => classifyLong ('-' :: '-' :: rest)
  | '-' :: c :: rest =>
    match Switch.ofSpelling? ('-' :: c :: rest) with
    | some switch => .ok (.switch switch .nothing)
    | none => .ok (classifyShort convention ('-' :: c :: rest))
  | _ => .ok (.value argument)

/-- What the arguments of a call are; behind the separator all are values. -/
def items (convention : Convention) : List String → Except UsageError (List Item)
  | [] => .ok []
  | argument :: rest =>
    if argument = "--" then .ok (.separator :: rest.map Item.value)
    else
      match classify convention argument with
      | .error e => .error e
      | .ok item =>
        match items convention rest with
        | .error e => .error e
        | .ok later => .ok (item :: later)

end ScopedQuery.CommandLine
