import ScopedQuery.Location
import ScopedQuery.Text.Quoted

namespace ScopedQuery

/-!
# Tokens

* `TokenKind` — what kinds of tokens a query is made of, each with the label it is known by.
* `TokenKind.punctuation` — the characters that are tokens by themselves.
* `Token` — a token with its text and its place.
* `Token.describe` — how a diagnostic speaks of a token.
-/

/-- The kind of a token. -/
inductive TokenKind
  | atSign
  | leftParen
  | rightParen
  | comma
  | equals
  | leftBrace
  | rightBrace
  | semicolon
  | identifier
  /-- A quoted string; the value of the token is what stands between the quotes. -/
  | string
  /-- A line break, which ends a statement. -/
  | newline
  | endOfInput
  /-- A character that begins no token. -/
  | stray
  /-- A kind of a caller's own, which no query holds. -/
  | custom (label : String)
deriving DecidableEq

namespace TokenKind

/-- The characters that are tokens by themselves. -/
def punctuation : List (Char × TokenKind) :=
  [('@', .atSign), ('(', .leftParen), (')', .rightParen), (',', .comma), ('=', .equals),
   ('{', .leftBrace), ('}', .rightBrace), (';', .semicolon)]

/-- The kind of a punctuation character. -/
def ofPunctuation? (c : Char) : Option TokenKind :=
  punctuation.lookup c

/-- The label that a kind is known by. -/
def label : TokenKind → String
  | atSign => "AT"
  | leftParen => "LPAREN"
  | rightParen => "RPAREN"
  | comma => "COMMA"
  | equals => "EQUALS"
  | leftBrace => "LBRACE"
  | rightBrace => "RBRACE"
  | semicolon => "SEMICOLON"
  | identifier => "IDENT"
  | string => "STRING"
  | newline => "NEWLINE"
  | endOfInput => "EOF"
  | stray => "ERROR"
  | custom label => label

/-- The kinds that a query can hold. -/
def all : List TokenKind :=
  [atSign, leftParen, rightParen, comma, equals, leftBrace, rightBrace, semicolon, identifier,
   string, newline, endOfInput, stray]

/-- The kind known by a label; a label that is not in use names a kind of the caller's own. -/
def ofLabel (name : String) : TokenKind :=
  (all.find? fun kind => kind.label == name).getD (custom name)

/-- What a diagnostic calls the kinds whose text need not be shown. -/
def title? : TokenKind → Option String
  | atSign => some "'@'"
  | leftParen => some "'('"
  | rightParen => some "')'"
  | comma => some "','"
  | equals => some "'='"
  | leftBrace => some "'\x7b'"
  | rightBrace => some "'\x7d'"
  | semicolon => some "';'"
  | identifier => some "identifier"
  | string => some "quoted string"
  | newline => some "newline"
  | endOfInput => some "end of input"
  | stray => none
  | custom _ => none

/-- The kinds that end a statement. -/
def terminators : List TokenKind := [newline, semicolon]

/-- A label stands for one kind only. -/
theorem ofLabel_label_of_mem {kind : TokenKind} (h : kind ∈ all) : ofLabel kind.label = kind := by
  simp only [all, List.mem_cons, List.not_mem_nil, or_false] at h
  rcases h with h | h | h | h | h | h | h | h | h | h | h | h | h <;> subst h <;> decide

end TokenKind

/-- A token of a query. -/
structure Token where
  kind : TokenKind
  value : String
  location : Location := {}
deriving DecidableEq

namespace Token

/-- How a diagnostic speaks of a token: names and stray characters are quoted, a string is shown as
    it was written, and any other token goes by the title of its kind. -/
def describe (token : Token) : String :=
  match token.kind with
  | .identifier => Text.quote token.value
  | .stray => Text.quote token.value
  | .string => "\"" ++ token.value ++ "\""
  | kind => kind.title?.getD kind.label

instance : ToString Token where
  toString token := s!"Token({token.kind.label}, {token.value})"

end Token

end ScopedQuery
