import ScopedQuery.Token.Scan

namespace ScopedQuery

/-!
# Where tokens come from

A reader of queries asks for one token at a time.

* `TokenFeed` — what it asks of its source.  A feed runs dry: each token other than the end of the
  input lowers `remaining`, and a fault does not raise it.
* A `Cursor` is a feed, which finds the tokens of its text as they are asked for.
* A `TokenList` is a feed whose tokens are known beforehand.
-/

/-- A source of tokens; `ε` tells why a token may be missing. -/
class TokenFeed (σ : Type) (ε : outParam Type) where
  /-- The next token and the feed behind it. -/
  next : σ → Except ε Token × σ
  /-- The query that the tokens are from, as it is shown in diagnostics. -/
  text : σ → String
  /-- A bound on the number of tokens before the end of the input. -/
  remaining : σ → Nat
  remaining_lt {s s' : σ} {token : Token} :
    next s = (.ok token, s') → token.kind ≠ .endOfInput → remaining s' < remaining s
  remaining_le {s s' : σ} {fault : ε} : next s = (.error fault, s') → remaining s' ≤ remaining s

instance [Text.NameTable] : TokenFeed Cursor ScanFault where
  next := Cursor.nextToken
  text := Cursor.text
  remaining c := c.rest.length
  remaining_lt := Cursor.length_rest_nextToken_lt
  remaining_le {c d fault} h := by
    have hle := (Cursor.reaches_nextToken c).length_rest_le
    rwa [h] at hle

/-- Tokens that are known beforehand, and the text they are from. -/
structure TokenList where
  tokens : List Token
  text : String := ""

/-- A token was asked for behind the last one. -/
inductive Exhausted
  | noMoreTokens
deriving DecidableEq

namespace TokenList

/-- The first token of the list. -/
def next : TokenList → Except Exhausted Token × TokenList
  | ⟨[], text⟩ => (.error .noMoreTokens, ⟨[], text⟩)
  | ⟨token :: rest, text⟩ => (.ok token, ⟨rest, text⟩)

/-- A list that gives a token is one token shorter. -/
theorem length_tokens_next_lt {list list' : TokenList} {token : Token}
    (h : list.next = (.ok token, list')) : list'.tokens.length < list.tokens.length := by
  match list with
  | ⟨[], _⟩ => simp [next] at h
  | ⟨_ :: rest, _⟩ =>
    simp only [next, Prod.mk.injEq] at h
    simp [← h.2]

end TokenList

instance : TokenFeed TokenList Exhausted where
  next := TokenList.next
  text := TokenList.text
  remaining list := list.tokens.length
  remaining_lt h _ := TokenList.length_tokens_next_lt h
  remaining_le {list list' fault} h := by
    match list with
    | ⟨[], _⟩ =>
      simp only [TokenList.next, Prod.mk.injEq] at h
      simp [← h.2]
    | ⟨_ :: _, _⟩ => simp [TokenList.next] at h

end ScopedQuery
