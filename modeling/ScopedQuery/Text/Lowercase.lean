namespace ScopedQuery.Text

/-!
# Lower case

Names of styles are compared without regard to case.  The mapping covers ASCII, Latin-1, and the
two letters outside of them whose lower case reaches back into ASCII: the Kelvin sign and the
capital I with a dot.
-/

/-- The lower case of a character; the capital I with a dot becomes two characters. -/
def lowercaseChar (c : Char) : List Char :=
  if c.toNat < 128 then [c.toLower]
  else if 0xC0 ≤ c.toNat ∧ c.toNat ≤ 0xDE ∧ c.toNat ≠ 0xD7 then [Char.ofNat (c.toNat + 32)]
  else if c = '\u212a' then ['k']
  else if c = '\u0130' then ['i', '\u0307']
  else [c]

/-- The lower case of a text. -/
def lowercase (text : String) : String :=
  String.ofList (text.toList.flatMap lowercaseChar)

end ScopedQuery.Text
