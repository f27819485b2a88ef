import ScopedQuery.Index

namespace ScopedQuery

/-!
# JSON texts

* `Json` — a JSON value without fractions; the members of an object keep their order.
* `Json.Layout` — on one line, or with an item on each line; `Layout.ofIndentation` is the layout
  for an indentation, if there can be one.
* `Json.render` — the text of a value.
-/

/-- A JSON value. -/
inductive Json
  | null
  | int (n : Int)
  | string (text : String)
  | array (items : List Json)
  | object (members : List (String × Json))

namespace Json

/-- How a text is laid out: on one line, or with an item on each line and so many blanks more for
    each level. -/
inductive Layout
  | inline
  | indented (width : Nat)

/-- An indentation that is asked for. -/
inductive Indentation
  /-- The text takes a single line. -/
  | inline
  /-- So many blanks for each level.  A negative number stands for none, and the lines are broken
      all the same. -/
  | blanks (count : Int)
  /-- Something that is no number of blanks. -/
  | unusable

/-- Why there is no layout for an indentation. -/
inductive LayoutFault
  /-- The number of blanks is no machine index. -/
  | notAnIndex
  /-- No memory holds so many blanks. -/
  | outOfMemory
  | notANumber
deriving DecidableEq

/-- The wording of a fault. -/
def LayoutFault.message : LayoutFault → String
  | notAnIndex => Index.refusal
  | outOfMemory => ""
  | notANumber => "can't multiply sequence by non-int of type 'list'"

/-- The layout for an indentation, where `holds` tells for how many blanks there is room. -/
def Layout.ofIndentation (holds : Nat → Bool) : Indentation → Except LayoutFault Layout
  | .inline => .ok inline
  | .blanks count =>
    if !Index.fits count then .error .notAnIndex
    else if holds count.toNat then .ok (indented count.toNat)
    else .error .outOfMemory
  | .unusable => .error .notANumber

namespace Layout

/-- The line break in front of an item or a closing bracket at a level. -/
def lineBreak (level : Nat) : Layout → String
  | inline => ""
  | indented width => "\n" ++ String.ofList (List.replicate (width * level) ' ')

/-- What divides two items at a level. -/
def separator (level : Nat) : Layout → String
  | inline => ", "
  | indented width => "," ++ lineBreak level (indented width)

/-- Items at the level below `level`, between brackets. -/
def enclose (layout : Layout) (level : Nat) (opening closing : String) : List String → String
  | [] => opening ++ closing
  | items =>
    opening ++ layout.lineBreak (level + 1) ++ (layout.separator (level + 1)).intercalate items
      ++ layout.lineBreak level ++ closing

end Layout

/-- A character of a string: quotes, backslashes and control characters are escaped. -/
def escape (c : Char) : List Char :=
  if c = '"' ∨ c = '\\' then ['\\', c]
  else if c = '\n' then ['\\', 'n']
  else if c = '\r' then ['\\', 'r']
  else if c = '\t' then ['\\', 't']
  else if c = '\x08' then ['\\', 'b']
  else if c = '\x0c' then ['\\', 'f']
  else if c.toNat < 0x20 then
    ['\\', 'u', '0', '0', Nat.digitChar (c.toNat / 16), Nat.digitChar (c.toNat % 16)]
  else [c]

/-- A string between quotes. -/
def quote (text : String) : String :=
  "\"" ++ String.ofList (text.toList.flatMap escape) ++ "\""

mutual

/-- The text of a value that stands at a level. -/
def render (layout : Layout) (level : Nat) : Json → String
  | null => "null"
  | int n => toString n
  | string text => quote text
  | array items => layout.enclose level "[" "]" (renderItems layout (level + 1) items)
  | object members =>
    layout.enclose level "\x7b" "\x7d" (renderMembers layout (level + 1) members)

/-- The texts of the items of an array. -/
def renderItems (layout : Layout) (level : Nat) : List Json → List String
  | [] => []
  | item :: rest => render layout level item :: renderItems layout level rest

/-- The texts of the members of an object. -/
def renderMembers (layout : Layout) (level : Nat) : List (String × Json) → List String
  | [] => []
  | (key, value) :: rest =>
    (quote key ++ ": " ++ render layout level value) :: renderMembers layout level rest

end

/-- The text of a value by itself. -/
def text (value : Json) (layout : Layout) : String := render layout 0 value

end Json

end ScopedQuery
