import Mathlib.Data.List.Basic
import ScopedQuery.Proofs.Agreement
import ScopedQuery.Token.Scan

namespace ScopedQuery

open Text

/-!
# The phrase of a tree

    statements  = statement (";" statement)*
    statement   = verb* ("{" statements "}")?
    verb        = "@" name ("(" argument ("," argument)* ")")?  |  string
    argument    = name "=" string

* `Query.phrase` — the tokens by which the grammar spells a tree, without places.
* `eraseBreaks` — a sequence of tokens with the line breaks left out that mean nothing, and with
  the others written as semicolons.
* `Query.WellFormed` — the trees that can be written: no list of statements is empty
  (`Query.IsFilled`), names are names, and no string holds a double quote (`Query.IsSpelled`).
* `Query.filled` — the tree with a statement put into every empty list.
-/

/-! ### Tokens without places -/

/-- The text of every token of a kind, if there is one. -/
def TokenKind.fixedText? : TokenKind → Option String
  | atSign => some "@"
  | leftParen => some "("
  | rightParen => some ")"
  | comma => some ","
  | equals => some "="
  | leftBrace => some "\x7b"
  | rightBrace => some "\x7d"
  | semicolon => some ";"
  | endOfInput => some "EOF"
  | _ => none

/-- The token of a kind that has one text only. -/
def TokenKind.mark (kind : TokenKind) : Token := ⟨kind, kind.fixedText?.getD "", {}⟩

@[simp] theorem TokenKind.kind_mark (kind : TokenKind) : kind.mark.kind = kind := rfl

namespace Token

/-- The token without its place. -/
def unplaced (t : Token) : Token := { t with location := {} }

/-- What a token is to the grammar: its kind, and its text where the kind leaves a choice. -/
def terminal (t : Token) : Token := ⟨t.kind, t.kind.fixedText?.getD t.value, {}⟩

@[simp] theorem kind_unplaced (t : Token) : t.unplaced.kind = t.kind := rfl

@[simp] theorem kind_terminal (t : Token) : t.terminal.kind = t.kind := rfl

/-- A character that is a token by itself, though it begins none that the grammar knows. -/
def IsStray [NameTable] (c : Char) : Prop :=
  Cursor.isBlank c = false ∧ c ≠ '\r' ∧ c ≠ '\n' ∧ c ≠ '"' ∧ isNameStart c = false ∧
    TokenKind.ofPunctuation? c = none

/-- The text of a token is one that a query can hold for its kind. -/
def IsSpelled [NameTable] (t : Token) : Prop :=
  match t.kind with
  | .identifier => isName t.value.toList = true
  | .string => '"' ∉ t.value.toList
  | .newline => t.value ∈ ["\n", "\r", "\r\n"]
  | .stray => ∃ c, t.value = String.ofList [c] ∧ IsStray c
  | .custom _ => False
  | kind => kind.fixedText? = some t.value

/-- For a spelled token the terminal is the token without its place. -/
theorem terminal_eq_unplaced [NameTable] {t : Token} (h : t.IsSpelled) :
    t.terminal = t.unplaced := by
  obtain ⟨kind, value, location⟩ := t
  cases kind <;> simp_all [IsSpelled, terminal, unplaced, TokenKind.fixedText?]

end Token

/-- The tokens with their line breaks settled, read from inside or from outside of parentheses: a
    line break between an opening parenthesis and the next closing one is left out, any other one
    becomes a semicolon. -/
def eraseBreaks (inside : Bool) : List Token → List Token
  | [] => []
  | t :: rest =>
    if t.kind = .newline then
      -- without a closing parenthesis further on, the line break is not in an argument list
      if inside ∧ ∃ u ∈ rest, u.kind = .rightParen then eraseBreaks inside rest
      else { t with kind := .semicolon, value := ";" } :: eraseBreaks inside rest
    else if t.kind = .leftParen then t :: eraseBreaks true rest
    else if t.kind = .rightParen then t :: eraseBreaks false rest
    else t :: eraseBreaks inside rest

/-! ### Phrases -/

/-- The phrase of an argument. -/
def Argument.phrase (a : Argument) : List Token :=
  [⟨.identifier, a.name, {}⟩, TokenKind.equals.mark, ⟨.string, a.value, {}⟩]

/-- The phrase of an argument list; nothing at all if there are no arguments. -/
def Argument.listPhrase : List Argument → List Token
  | [] => []
  | a :: rest =>
    TokenKind.leftParen.mark :: a.phrase
      ++ rest.flatMap (fun b => TokenKind.comma.mark :: b.phrase) ++ [TokenKind.rightParen.mark]

/-- The phrase of a verb. -/
def Verb.phrase : Verb → List Token
  | .named name arguments _ =>
    TokenKind.atSign.mark :: ⟨.identifier, name, {}⟩ :: Argument.listPhrase arguments
  | .filter pattern _ => [⟨.string, pattern, {}⟩]

mutual

/-- The phrase of a statement. -/
def Statement.phrase : Statement → List Token
  | .plain verbs _ => verbs.flatMap Verb.phrase
  | .nested verbs body _ _ =>
    verbs.flatMap Verb.phrase
      ++ TokenKind.leftBrace.mark :: Statement.listPhrase body ++ [TokenKind.rightBrace.mark]

/-- The phrase of a list of statements. -/
def Statement.listPhrase : List Statement → List Token
  | [] => []
  | s :: rest => s.phrase ++ Statement.tailPhrase rest

/-- The phrases of statements behind another one. -/
def Statement.tailPhrase : List Statement → List Token
  | [] => []
  | s :: rest => TokenKind.semicolon.mark :: s.phrase ++ Statement.tailPhrase rest

end

/-- The phrase of a query. -/
def Query.phrase (q : Query) : List Token := Statement.listPhrase q.statements

/-! ### Trees that can be written -/

mutual

/-- The verbs of a statement and of its scope, at any depth. -/
def Statement.allVerbs : Statement → List Verb
  | .plain verbs _ => verbs
  | .nested verbs body _ _ => verbs ++ Statement.allVerbsIn body

/-- The verbs of the statements of a list, at any depth. -/
def Statement.allVerbsIn : List Statement → List Verb
  | [] => []
  | s :: rest => s.allVerbs ++ Statement.allVerbsIn rest

end

/-- The verbs of a query, at any depth. -/
def Query.allVerbs (q : Query) : List Verb := Statement.allVerbsIn q.statements

mutual

/-- The lists of statements in a statement, at any depth. -/
def Statement.allLists : Statement → List (List Statement)
  | .plain _ _ => []
  | .nested _ body _ _ => body :: Statement.allListsIn body

/-- The lists of statements in the statements of a list, at any depth. -/
def Statement.allListsIn : List Statement → List (List Statement)
  | [] => []
  | s :: rest => s.allLists ++ Statement.allListsIn rest

end

/-- The lists of statements of a query, at any depth. -/
def Query.allLists (q : Query) : List (List Statement) :=
  q.statements :: Statement.allListsIn q.statements

/-- The name is a name, and the value has no double quote. -/
def Argument.IsSpelled (a : Argument) : Prop :=
  isName a.name.toList = true ∧ '"' ∉ a.value.toList

/-- The names are names, and the strings have no double quotes. -/
def Verb.IsSpelled : Verb → Prop
  | .named name arguments _ => isName name.toList = true ∧ ∀ a ∈ arguments, a.IsSpelled
  | .filter pattern _ => '"' ∉ pattern.toList

/-- All names in the query are names, and its strings have no double quotes. -/
def Query.IsSpelled (q : Query) : Prop := ∀ v ∈ q.allVerbs, v.IsSpelled

/-- Every scope in the statement has at least one statement. -/
def Statement.IsFilled (s : Statement) : Prop := ∀ list ∈ s.allLists, list ≠ []

/-- The query and every scope in it have at least one statement. -/
def Query.IsFilled (q : Query) : Prop := ∀ list ∈ q.allLists, list ≠ []

/-- A query that can be written as it is. -/
structure Query.WellFormed (q : Query) : Prop where
  filled : q.IsFilled
  spelled : q.IsSpelled

instance (a : Argument) : Decidable a.IsSpelled :=
  inferInstanceAs (Decidable (_ ∧ _))

instance (v : Verb) : Decidable v.IsSpelled :=
  match v with
  | .named _ _ _ => inferInstanceAs (Decidable (_ ∧ _))
  | .filter _ _ => inferInstanceAs (Decidable (_ ∉ _))

instance (q : Query) : Decidable q.IsSpelled :=
  inferInstanceAs (Decidable (∀ v ∈ q.allVerbs, v.IsSpelled))

instance (q : Query) : Decidable q.IsFilled :=
  inferInstanceAs (Decidable (∀ list ∈ q.allLists, list ≠ []))

/-- The list, or one statement without verbs and without a scope if it is empty. -/
def Statement.orEmpty : List Statement → List Statement
  | [] => [.plain [] {}]
  | s :: rest => s :: rest

mutual

/-- The statement with a statement put into every empty list. -/
def Statement.filled : Statement → Statement
  | .plain verbs location => .plain verbs location
  | .nested verbs body opened location =>
    .nested verbs (Statement.orEmpty (Statement.filledAll body)) opened location

/-- The statements with a statement put into every empty list in them. -/
def Statement.filledAll : List Statement → List Statement
  | [] => []
  | s :: rest => s.filled :: Statement.filledAll rest

end

/-- The query with a statement put into every empty list. -/
def Query.filled (q : Query) : Query :=
  ⟨Statement.orEmpty (Statement.filledAll q.statements), q.location⟩

/-! ### Lists of statements as lists -/

/-- Each statement but the first one has a semicolon in front of it. -/
theorem Statement.tailPhrase_eq_flatMap (body : List Statement) :
    Statement.tailPhrase body = body.flatMap fun s => TokenKind.semicolon.mark :: s.phrase := by
  induction body with
  | nil => rfl
  | cons s rest ih => simp [Statement.tailPhrase, ih]

/-- The verbs of a list are those of its statements, in order. -/
theorem Statement.allVerbsIn_eq_flatMap (body : List Statement) :
    Statement.allVerbsIn body = body.flatMap Statement.allVerbs := by
  induction body with
  | nil => rfl
  | cons s rest ih => simp [Statement.allVerbsIn, ih]

/-- The lists in a list are those of its statements, in order. -/
theorem Statement.allListsIn_eq_flatMap (body : List Statement) :
    Statement.allListsIn body = body.flatMap Statement.allLists := by
  induction body with
  | nil => rfl
  | cons s rest ih => simp [Statement.allListsIn, ih]

@[simp] theorem Statement.isFilled_plain (verbs : List Verb) (location : Location) :
    (Statement.plain verbs location).IsFilled := by
  simp [Statement.IsFilled, Statement.allLists]

/-- A statement is filled if its body is not empty and holds filled statements only. -/
theorem Statement.isFilled_nested {verbs : List Verb} {body : List Statement}
    {opened location : Location} : (Statement.nested verbs body opened location).IsFilled ↔
      body ≠ [] ∧ ∀ s ∈ body, s.IsFilled := by
  simp only [Statement.IsFilled, Statement.allLists, Statement.allListsIn_eq_flatMap,
    List.forall_mem_cons, List.forall_mem_flatMap]

theorem Query.isFilled_iff {q : Query} :
    q.IsFilled ↔ q.statements ≠ [] ∧ ∀ s ∈ q.statements, s.IsFilled := by
  simp only [Query.IsFilled, Statement.IsFilled, Query.allLists, Statement.allListsIn_eq_flatMap,
    List.forall_mem_cons, List.forall_mem_flatMap]

/-- A list is filled statement by statement. -/
theorem Statement.filledAll_eq_map (body : List Statement) :
    Statement.filledAll body = body.map Statement.filled := by
  induction body with
  | nil => rfl
  | cons s rest ih => simp [Statement.filledAll, ih]

/-! ### What does not depend on places -/

@[simp] theorem Argument.phrase_unplaced (a : Argument) : a.unplaced.phrase = a.phrase := rfl

@[simp] theorem Verb.phrase_unplaced (v : Verb) : v.unplaced.phrase = v.phrase := by
  cases v with
  | filter pattern location => rfl
  | named name arguments location =>
    cases arguments with
    | nil => rfl
    | cons a rest => simp [Verb.unplaced, Verb.phrase, Argument.listPhrase, List.flatMap_map]

/-- A map that keeps the phrase of each statement keeps the phrase of the list. -/
theorem Statement.listPhrase_map {f : Statement → Statement} (body : List Statement)
    (h : ∀ s ∈ body, (f s).phrase = s.phrase) :
    Statement.listPhrase (body.map f) = Statement.listPhrase body := by
  cases body with
  | nil => rfl
  | cons s rest =>
    have htail : (rest.map f).flatMap (fun s => TokenKind.semicolon.mark :: s.phrase)
        = rest.flatMap fun s => TokenKind.semicolon.mark :: s.phrase := by
      rw [List.flatMap_map]
      exact List.flatMap_congr fun s hs => by rw [h s (by simp [hs])]
    simp only [List.map_cons, Statement.listPhrase, Statement.tailPhrase_eq_flatMap, htail,
      h s (by simp)]

@[simp] theorem Statement.phrase_unplaced (s : Statement) : s.unplaced.phrase = s.phrase := by
  induction s using Statement.inductionOn with
  | plain verbs location => simp [Statement.unplaced, Statement.phrase, List.flatMap_map]
  | nested verbs body opened location ih =>
    simp only [Statement.unplaced, Statement.phrase, Statement.unplacedAll_eq_map,
      Statement.listPhrase_map body ih, List.flatMap_map, Verb.phrase_unplaced]

@[simp] theorem Query.phrase_unplaced (q : Query) : q.unplaced.phrase = q.phrase := by
  simp only [Query.phrase, Query.unplaced, Statement.unplacedAll_eq_map]
  exact Statement.listPhrase_map q.statements fun s _ => Statement.phrase_unplaced s

/-- Without places, the lists in a statement are the same lists without places. -/
theorem Statement.allLists_unplaced (s : Statement) :
    s.unplaced.allLists = s.allLists.map (·.map Statement.unplaced) := by
  induction s using Statement.inductionOn with
  | plain verbs location => rfl
  | nested verbs body opened location ih =>
    simp only [Statement.unplaced, Statement.allLists, Statement.unplacedAll_eq_map,
      Statement.allListsIn_eq_flatMap, List.map_cons, List.flatMap_map, List.map_flatMap,
      List.cons.injEq, true_and]
    exact List.flatMap_congr ih

/-- So places have no part in being filled. -/
theorem Query.isFilled_unplaced (q : Query) : q.unplaced.IsFilled ↔ q.IsFilled := by
  have hlists : q.unplaced.allLists = q.allLists.map (·.map Statement.unplaced) := by
    simp only [Query.allLists, Query.unplaced, Statement.unplacedAll_eq_map,
      Statement.allListsIn_eq_flatMap, List.map_cons, List.flatMap_map, List.map_flatMap,
      Statement.allLists_unplaced]
  simp [Query.IsFilled, hlists]

/-! ### What holds of the tokens of a phrase -/

/-- The tokens of an argument whose text is its own. -/
def Argument.texts (a : Argument) : List Token :=
  [⟨.identifier, a.name, {}⟩, ⟨.string, a.value, {}⟩]

/-- The tokens of a verb whose text is its own. -/
def Verb.texts : Verb → List Token
  | .named name arguments _ => ⟨.identifier, name, {}⟩ :: arguments.flatMap Argument.texts
  | .filter pattern _ => [⟨.string, pattern, {}⟩]

section Texts

variable {P : Token → Prop}
  (hmark : ∀ kind : TokenKind, kind.fixedText?.isSome = true → P kind.mark)
include hmark

/-- A property of all marks holds of the phrase of an argument if it holds of its texts. -/
theorem Argument.forall_phrase_iff (a : Argument) :
    (∀ t ∈ a.phrase, P t) ↔ ∀ t ∈ a.texts, P t := by
  have hequals := hmark .equals rfl
  simp only [Argument.phrase, Argument.texts, List.forall_mem_cons, hequals, true_and]

/-- The same is true of a list of arguments, since brackets and commas are marks. -/
theorem Argument.forall_listPhrase_iff (arguments : List Argument) :
    (∀ t ∈ Argument.listPhrase arguments, P t) ↔ ∀ a ∈ arguments, ∀ t ∈ a.texts, P t := by
  have hparens : P TokenKind.leftParen.mark ∧ P TokenKind.rightParen.mark :=
    ⟨hmark _ rfl, hmark _ rfl⟩
  have hcomma := hmark .comma rfl
  cases arguments with
  | nil => simp [Argument.listPhrase]
  | cons a rest =>
    simp only [Argument.listPhrase, List.forall_mem_append, List.forall_mem_cons,
      List.forall_mem_flatMap, List.cons_append, List.not_mem_nil, false_imp_iff, implies_true,
      hparens, hcomma, true_and, and_true, Argument.forall_phrase_iff hmark]

/-- The same is true of a verb. -/
theorem Verb.forall_phrase_iff (v : Verb) : (∀ t ∈ v.phrase, P t) ↔ ∀ t ∈ v.texts, P t := by
  have hsign := hmark .atSign rfl
  cases v with
  | filter pattern location => rfl
  | named name arguments location =>
    simp only [Verb.phrase, Verb.texts, List.forall_mem_cons, List.forall_mem_flatMap,
      Argument.forall_listPhrase_iff hmark, hsign, true_and]

/-- For a list of statements it is enough to look at each of them. -/
theorem Statement.forall_listPhrase_iff (body : List Statement) :
    (∀ t ∈ Statement.listPhrase body, P t) ↔ ∀ s ∈ body, ∀ t ∈ s.phrase, P t := by
  have hsemicolon := hmark .semicolon rfl
  cases body with
  | nil => simp [Statement.listPhrase]
  | cons s rest =>
    simp only [Statement.listPhrase, Statement.tailPhrase_eq_flatMap, List.forall_mem_append,
      List.forall_mem_flatMap, List.forall_mem_cons, hsemicolon, true_and]

/-- By induction over the scopes, only the texts of the verbs in a statement matter. -/
theorem Statement.forall_phrase_iff (s : Statement) :
    (∀ t ∈ s.phrase, P t) ↔ ∀ v ∈ s.allVerbs, ∀ t ∈ v.texts, P t := by
  -- the braces of a scope are marks, so they have the property in any case
  have hbraces : P TokenKind.leftBrace.mark ∧ P TokenKind.rightBrace.mark :=
    ⟨hmark _ rfl, hmark _ rfl⟩
  induction s using Statement.inductionOn with
  | plain verbs location =>
    simp only [Statement.phrase, Statement.allVerbs, List.forall_mem_flatMap,
      Verb.forall_phrase_iff hmark]
  | nested verbs body opened location ih =>
    simp only [Statement.phrase, Statement.allVerbs, Statement.allVerbsIn_eq_flatMap,
      List.forall_mem_append, List.forall_mem_flatMap, List.forall_mem_cons,
      List.not_mem_nil, false_imp_iff, implies_true, Verb.forall_phrase_iff hmark,
      Statement.forall_listPhrase_iff hmark, hbraces, true_and, and_true]
    exact and_congr_right fun _ => forall₂_congr ih

/-- The tokens of a phrase are marks, and the tokens of the verbs that have texts of their own. -/
theorem Query.forall_phrase_iff (q : Query) :
    (∀ t ∈ q.phrase, P t) ↔ ∀ v ∈ q.allVerbs, ∀ t ∈ v.texts, P t := by
  simp only [Query.phrase, Query.allVerbs, Statement.allVerbsIn_eq_flatMap,
    List.forall_mem_flatMap, Statement.forall_listPhrase_iff hmark,
    Statement.forall_phrase_iff hmark]

end Texts

/-- A mark is spelled if its kind has one text only; the mark of the strings is the empty one. -/
theorem TokenKind.isSpelled_mark (kind : TokenKind) :
    kind.mark.IsSpelled ↔ kind.fixedText?.isSome = true ∨ kind = .string := by
  cases kind <;> simp [mark, fixedText?, Token.IsSpelled, isName, ← String.toList_inj]

/-- An argument is spelled if its texts are spelled tokens. -/
theorem Argument.isSpelled_iff (a : Argument) : a.IsSpelled ↔ ∀ t ∈ a.texts, t.IsSpelled := by
  rw [Argument.texts, List.forall_mem_cons, List.forall_mem_singleton]
  rfl

/-- So is a verb. -/
theorem Verb.isSpelled_iff (v : Verb) : v.IsSpelled ↔ ∀ t ∈ v.texts, t.IsSpelled := by
  cases v with
  | named name arguments location =>
    rw [Verb.texts, List.forall_mem_cons, List.forall_mem_flatMap]
    simp only [← Argument.isSpelled_iff]
    rfl
  | filter pattern location =>
    rw [Verb.texts, List.forall_mem_singleton]
    rfl

theorem Query.isSpelled_iff (q : Query) : q.IsSpelled ↔ ∀ t ∈ q.phrase, t.IsSpelled := by
  rw [Query.forall_phrase_iff fun kind hkind => (TokenKind.isSpelled_mark kind).mpr (.inl hkind)]
  simp only [Query.IsSpelled, Verb.isSpelled_iff]

/-- There are no line breaks in a phrase. -/
theorem Query.kind_ne_newline_of_mem_phrase (q : Query) : ∀ t ∈ q.phrase, t.kind ≠ .newline := by
  rw [Query.forall_phrase_iff (by rintro kind hkind rfl; cases hkind)]
  intro v _ t ht
  cases v with
  | named name arguments location =>
    simp only [Verb.texts, List.mem_cons, List.mem_flatMap, Argument.texts, List.not_mem_nil,
      or_false] at ht
    rcases ht with rfl | ⟨a, -, rfl | rfl⟩ <;> simp
  | filter pattern location =>
    rw [List.mem_singleton.mp ht]
    simp

/-! ### Filled trees -/

/-- A list that stands for another one in the grammar is never empty. -/
theorem Statement.orEmpty_ne_nil (body : List Statement) : Statement.orEmpty body ≠ [] := by
  cases body <;> simp [Statement.orEmpty]

/-- The statement that is put into an empty list adds nothing to what is gathered from a list. -/
theorem Statement.flatMap_orEmpty {α : Type} {f : Statement → List α} (h : f (.plain [] {}) = [])
    (body : List Statement) : (Statement.orEmpty body).flatMap f = body.flatMap f := by
  cases body with
  | nil => simp [Statement.orEmpty, h]
  | cons s rest => rfl

/-- What holds of an empty statement and of all in a list holds of what stands for the list. -/
theorem Statement.forall_mem_orEmpty {P : Statement → Prop} (h : P (.plain [] {}))
    (body : List Statement) (hbody : ∀ s ∈ body, P s) : ∀ s ∈ Statement.orEmpty body, P s := by
  cases body with
  | nil => simpa [Statement.orEmpty] using h
  | cons s rest => exact hbody

/-- To fill a statement adds no verbs. -/
theorem Statement.allVerbs_filled (s : Statement) : s.filled.allVerbs = s.allVerbs := by
  induction s using Statement.inductionOn with
  | plain verbs location => rfl
  | nested verbs body opened location ih =>
    simp only [Statement.filled, Statement.allVerbs, Statement.allVerbsIn_eq_flatMap,
      Statement.filledAll_eq_map]
    rw [Statement.flatMap_orEmpty rfl, List.flatMap_map, List.flatMap_congr ih]

/-- So a filled query is spelled as the query is. -/
theorem Query.isSpelled_filled (q : Query) : q.filled.IsSpelled ↔ q.IsSpelled := by
  simp only [Query.IsSpelled, Query.allVerbs, Query.filled, Statement.allVerbsIn_eq_flatMap,
    Statement.filledAll_eq_map]
  rw [Statement.flatMap_orEmpty rfl, List.flatMap_map]
  simp only [Statement.allVerbs_filled]

/-- A statement that was filled is filled. -/
theorem Statement.isFilled_filled (s : Statement) : s.filled.IsFilled := by
  induction s using Statement.inductionOn with
  | plain verbs location => exact Statement.isFilled_plain verbs location
  | nested verbs body opened location ih =>
    rw [Statement.filled, Statement.isFilled_nested]
    exact ⟨Statement.orEmpty_ne_nil _, Statement.forall_mem_orEmpty (by simp) _ (by
      simpa [Statement.filledAll_eq_map] using ih)⟩

theorem Query.isFilled_filled (q : Query) : q.filled.IsFilled := by
  rw [Query.isFilled_iff]
  exact ⟨Statement.orEmpty_ne_nil _, Statement.forall_mem_orEmpty (by simp) _ (by
    simpa [Statement.filledAll_eq_map] using fun s _ => Statement.isFilled_filled s)⟩

end ScopedQuery
