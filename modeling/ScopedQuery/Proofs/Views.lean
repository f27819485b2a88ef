import ScopedQuery.Formatter
import ScopedQuery.Proofs.Carry
import ScopedQuery.Proofs.Lexing
import ScopedQuery.Proofs.Phrase
import ScopedQuery.Proofs.Placed
import ScopedQuery.Proofs.RoundTrip

namespace ScopedQuery

open Text

/-!
# The tree view loses nothing but offsets

Strings are shown as they are in the view, and may hold line breaks and whole lines that look like
lines of a view.  Still the tree can be told from its view: reading forward, names end where no name
goes on, strings at a double quote and numbers where no digit follows, and the blanks in front of a
line show which lists end there.

* `run_unique`, `toString_unique` — how far characters of one kind go.
* `Carrier.view` — what the view keeps of a tree.
* `viewLine_unique` — a line of the view.
* `OpensAt`, `EndsAbove` — what the next line is.
* `EndsList`, `flatMap_unique` — where the members of a list end, and lists of parts at one level.
* `Statement.view_unique` and its like — the parts of a tree.
* `agrees_of_view_eq` — trees with the same view.
-/

/-! ### Characters of one kind -/

section Runs

variable {p : Char → Bool} {us vs x y : List Char}

/-- Characters of one kind are followed by the same if nothing of that kind follows. -/
theorem run_unique (hus : ∀ c ∈ us, p c = true) (hvs : ∀ c ∈ vs, p c = true)
    (hx : ∀ c ∈ x.head?, p c = false) (hy : ∀ c ∈ y.head?, p c = false)
    (hsame : us ++ x = vs ++ y) : us = vs ∧ x = y := by
  -- both are what is taken of the same list as long as `p` holds
  have htake := congrArg (List.takeWhile p) hsame
  rw [takeWhile_append_eq hus hx, takeWhile_append_eq hvs hy] at htake
  rw [htake] at hsame
  exact ⟨htake, List.append_cancel_left hsame⟩

/-- A string without double quotes ends at the first one. -/
theorem string_unique {s t : String} (hs : '"' ∉ s.toList) (ht : '"' ∉ t.toList)
    (hsame : s.toList ++ '"' :: x = t.toList ++ '"' :: y) : s = t ∧ x = y := by
  have hplain {u : String} (hu : '"' ∉ u.toList) : ∀ c ∈ u.toList, (c != '"') = true := by
    intro c hc
    have hne : c ≠ '"' := fun heq => hu (heq ▸ hc)
    simpa using hne
  obtain ⟨hchars, hrest⟩ := run_unique (hplain hs) (hplain ht) (by simp) (by simp) hsame
  exact ⟨String.toList_inj.mp hchars, (List.cons.inj hrest).2⟩

/-- A name ends where no name goes on. -/
theorem name_unique {s t : String} (hs : isName s.toList = true) (ht : isName t.toList = true)
    (hx : EndsName x) (hy : EndsName y) (hsame : s.toList ++ x = t.toList ++ y) :
    s = t ∧ x = y := by
  have hplain {u : String} (hu : isName u.toList = true) :
      ∀ c ∈ u.toList, isNameContinue c = true := by
    rcases hcons : u.toList with _ | ⟨first, rest⟩
    · simp
    · rw [hcons, isName, Bool.and_eq_true, List.all_eq_true] at hu
      rw [List.forall_mem_cons]
      exact ⟨isNameContinue_of_isNameStart hu.1, hu.2⟩
  obtain ⟨hchars, hrest⟩ := run_unique (hplain hs) (hplain ht) hx hy hsame
  exact ⟨String.toList_inj.mp hchars, hrest⟩

end Runs

/-! ### Numbers -/

/-- The characters of integers. -/
def isNumeralChar (c : Char) : Bool := c.isDigit || c == '-'

theorem toList_toString_ofNat (n : Nat) : (toString (Int.ofNat n)).toList = Nat.toDigits 10 n :=
  (congrArg String.toList Nat.toString_eq_ofList_toDigits).trans String.toList_ofList

theorem toList_toString_negSucc (n : Nat) :
    (toString (Int.negSucc n)).toList = '-' :: Nat.toDigits 10 (n + 1) := by
  show ("-" ++ toString (n + 1)).toList = _
  simp

theorem isDigit_of_mem_digits {n : Nat} : ∀ c ∈ Nat.toDigits 10 n, c.isDigit = true :=
  fun _ hc => Nat.isDigit_of_mem_toDigits (by decide) (by decide) hc

/-- A number is known by its digits. -/
theorem digits_inj {m n : Nat} (h : Nat.toDigits 10 m = Nat.toDigits 10 n) : m = n := by
  rw [← Nat.ofDigitChars_ten_toDigits (n := m), h, Nat.ofDigitChars_ten_toDigits]

/-- Numbers that are written alike are equal. -/
theorem toString_inj {m n : Int} (h : (toString m).toList = (toString n).toList) : m = n := by
  -- a sign tells negative numbers from the others, since no digit is one
  have hne (k l : Nat) : Nat.toDigits 10 k ≠ '-' :: Nat.toDigits 10 l := by
    intro hsame
    have hdigit := isDigit_of_mem_digits '-' (hsame ▸ List.mem_cons_self)
    exact absurd hdigit (by decide)
  cases m with
  | ofNat m =>
    cases n with
    | ofNat n =>
      rw [toList_toString_ofNat, toList_toString_ofNat] at h
      rw [digits_inj h]
    | negSucc n =>
      rw [toList_toString_ofNat, toList_toString_negSucc] at h
      exact absurd h (hne m (n + 1))
  | negSucc m =>
    cases n with
    | ofNat n =>
      rw [toList_toString_ofNat, toList_toString_negSucc] at h
      exact absurd h.symm (hne n (m + 1))
    | negSucc n =>
      rw [toList_toString_negSucc, toList_toString_negSucc] at h
      rw [Nat.succ.inj (digits_inj (List.cons.inj h).2)]

/-- Only digits and the sign stand in a number. -/
theorem isNumeralChar_of_mem (n : Int) : ∀ c ∈ (toString n).toList, isNumeralChar c = true := by
  cases n with
  | ofNat n =>
    rw [toList_toString_ofNat]
    intro c hc
    rw [isNumeralChar, isDigit_of_mem_digits c hc, Bool.true_or]
  | negSucc n =>
    rw [toList_toString_negSucc, List.forall_mem_cons]
    refine ⟨by decide, fun c hc => ?_⟩
    rw [isNumeralChar, isDigit_of_mem_digits c hc, Bool.true_or]

/-- A number ends where no digit follows. -/
theorem toString_unique {m n : Int} {x y : List Char} (hx : ∀ c ∈ x.head?, isNumeralChar c = false)
    (hy : ∀ c ∈ y.head?, isNumeralChar c = false)
    (hsame : (toString m).toList ++ x = (toString n).toList ++ y) : m = n ∧ x = y := by
  obtain ⟨hchars, hrest⟩ :=
    run_unique (isNumeralChar_of_mem m) (isNumeralChar_of_mem n) hx hy hsame
  exact ⟨toString_inj hchars, hrest⟩

/-! ### Lines -/

/-- What the view keeps of a tree: all but the offsets. -/
def Carrier.view : Carrier where
  text := id
  place l := { l with offset := 0 }

/-- The characters of lines behind another line. -/
def lineChars (lines : List String) : List Char := lines.flatMap fun line => '\n' :: line.toList

/-- The characters of a line behind its text. -/
def placeChars (l : Location) : List Char :=
  ' ' :: '@' :: ((toString l.line).toList ++ ':' :: (toString l.col).toList)

/-- A line is its indentation, its text and its place. -/
theorem toList_viewLine (level : Nat) (text : String) (l : Location) :
    (viewLine level text l).toList =
      List.replicate (2 * level) ' ' ++ (text.toList ++ placeChars l) := by
  have hplace : s!" @{l.line}:{l.col}" = " @" ++ toString l.line ++ ":" ++ toString l.col := rfl
  unfold viewLine
  rw [hplace]
  simp [placeChars]

/-- The text has nothing more, or another line follows. -/
def EndsLine (x : List Char) : Prop := ∀ c ∈ x.head?, c = '\n'

/-- Two lines that go on alike with a place have the same line and column, and go on alike behind
    it. -/
theorem placeChars_unique {l l' : Location} {x y : List Char} (hx : EndsLine x) (hy : EndsLine y)
    (hsame : placeChars l ++ x = placeChars l' ++ y) :
    Carrier.view.place l = Carrier.view.place l' ∧ x = y := by
  have hend {z : List Char} (hz : EndsLine z) : ∀ c ∈ z.head?, isNumeralChar c = false := by
    intro c hc
    rw [hz c hc]
    decide
  simp only [placeChars, List.cons_append, List.append_assoc, List.cons.injEq, true_and] at hsame
  obtain ⟨hline, hsame⟩ := toString_unique (by simp [isNumeralChar]) (by simp [isNumeralChar]) hsame
  obtain ⟨hcol, hrest⟩ := toString_unique (hend hx) (hend hy) (List.cons.inj hsame).2
  refine ⟨?_, hrest⟩
  show Location.mk 0 l.line l.col = Location.mk 0 l'.line l'.col
  rw [hline, hcol]

/-- The characters of a line at a level. -/
def levelChars (level : Nat) (text : String) (l : Location) : List Char :=
  '\n' :: (List.replicate (2 * level) ' ' ++ (text.toList ++ placeChars l))

/-- Lines are written one behind the other, each with its break in front. -/
theorem lineChars_viewLine (level : Nat) (text : String) (l : Location) (rest : List String) :
    lineChars (viewLine level text l :: rest) = levelChars level text l ++ lineChars rest := by
  rw [lineChars, List.flatMap_cons, toList_viewLine]
  rfl

theorem lineChars_append (lines rest : List String) :
    lineChars (lines ++ rest) = lineChars lines ++ lineChars rest := List.flatMap_append

/-! ### What the next line is -/

/-- The next line is at a level, and `c` stands there. -/
def OpensAt (level : Nat) (c : Char) (x : List Char) : Prop :=
  c ≠ ' ' ∧ ∃ rest, x = '\n' :: (List.replicate (2 * level) ' ' ++ c :: rest)

/-- There is no other line, or the next line is above a level. -/
def EndsAbove (level : Nat) (x : List Char) : Prop := x = [] ∨ ∃ k < level, ∃ c, OpensAt k c x

section Opens

variable {level k n : Nat} {c d : Char} {x y : List Char}

/-- A line opens at one level with one letter. -/
theorem OpensAt.unique (h : OpensAt level c x) (h' : OpensAt k d x) : level = k ∧ c = d := by
  obtain ⟨hc, rest, rfl⟩ := h
  obtain ⟨hd, rest', hsame⟩ := h'
  have hblank (m : Nat) : ∀ b ∈ List.replicate (2 * m) ' ', (b == ' ') = true := by
    intro b hb
    rw [List.eq_of_mem_replicate hb]
    rfl
  obtain ⟨hblanks, hrest⟩ := run_unique (hblank level) (hblank k) (by simpa using hc)
    (by simpa using hd) (List.cons.inj hsame).2
  have hlength := congrArg List.length hblanks
  simp only [List.length_replicate] at hlength
  exact ⟨by omega, (List.cons.inj hrest).1⟩

/-- A line that opens further out ends what is inside. -/
theorem OpensAt.endsAbove (h : OpensAt k c x) (hlt : k < level) : EndsAbove level x :=
  .inr ⟨k, hlt, c, h⟩

theorem EndsAbove.mono (h : EndsAbove k x) (hle : k ≤ level) : EndsAbove level x := by
  rcases h with rfl | ⟨m, hlt, c, hopens⟩
  · exact .inl rfl
  · exact hopens.endsAbove (Nat.lt_of_lt_of_le hlt hle)

/-- What ends above a level opens no line at it. -/
theorem EndsAbove.not_opensAt (h : EndsAbove level x) : ¬ OpensAt level c x := by
  intro hopens
  rcases h with rfl | ⟨k, hlt, d, hopens'⟩
  · obtain ⟨-, rest, hnil⟩ := hopens
    cases hnil
  · have hlevel := (hopens.unique hopens').1
    omega

/-- It ends the line before it in any case. -/
theorem EndsAbove.endsLine (h : EndsAbove level x) : EndsLine x := by
  rcases h with rfl | ⟨k, -, d, -, rest, rfl⟩
  · exact fun c hc => nomatch hc
  · intro c hc
    exact (Option.some.inj hc).symm

/-- A line opens with its text. -/
theorem opensAt_levelChars {text : String} {l : Location} (htext : text.toList.head? = some c)
    (hc : c ≠ ' ') : OpensAt level c (levelChars level text l ++ x) := by
  obtain ⟨tail, htail⟩ := List.head?_eq_some_iff.mp htext
  refine ⟨hc, tail ++ (placeChars l ++ x), ?_⟩
  simp [levelChars, htail]

end Opens

/-! ### Lists of parts -/

section Lists

variable {α β : Type} {text : α → List Char} {key : α → β} {as bs : List α} {level : Nat}
  {letters : List Char} {x y : List Char}

/-- The members of a list at a level end, which open with one of the letters. -/
def EndsList (level : Nat) (letters : List Char) (x : List Char) : Prop :=
  EndsAbove (level + 1) x ∧ ∀ c ∈ letters, ¬ OpensAt level c x

/-- It ends a list at its level, whatever letters the items open with. -/
theorem EndsAbove.endsList (h : EndsAbove level x) : EndsList level letters x :=
  ⟨h.mono (Nat.le_succ level), fun _ _ => h.not_opensAt⟩

/-- Items of a list end what is deeper inside, and so does what follows the list. -/
theorem endsAbove_flatMap (hopens : ∀ a x, ∃ c ∈ letters, OpensAt level c (text a ++ x))
    (hx : EndsAbove (level + 1) x) : EndsAbove (level + 1) (as.flatMap text ++ x) := by
  cases as with
  | nil => exact hx
  | cons a as =>
    obtain ⟨c, -, hc⟩ := hopens a (as.flatMap text ++ x)
    rw [List.flatMap_cons, List.append_assoc]
    exact hc.endsAbove (Nat.lt_succ_self level)

/-- The members of a list are told apart one by one. -/
theorem flatMap_unique (hopens : ∀ a x, ∃ c ∈ letters, OpensAt level c (text a ++ x))
    (hmember : ∀ a ∈ as, ∀ b ∈ bs, ∀ x y, EndsAbove (level + 1) x → EndsAbove (level + 1) y →
      text a ++ x = text b ++ y → key a = key b ∧ x = y)
    (hx : EndsList level letters x) (hy : EndsList level letters y)
    (hsame : as.flatMap text ++ x = bs.flatMap text ++ y) : as.map key = bs.map key ∧ x = y := by
  induction as generalizing bs with
  | nil =>
    cases bs with
    | nil => exact ⟨rfl, hsame⟩
    | cons b bs =>
      -- one more member would open where the other list ends
      obtain ⟨c, hc, hopen⟩ := hopens b (bs.flatMap text ++ y)
      rw [List.flatMap_nil, List.nil_append, List.flatMap_cons, List.append_assoc] at hsame
      exact absurd (hsame ▸ hopen) (hx.2 c hc)
  | cons a as ih =>
    cases bs with
    | nil =>
      obtain ⟨c, hc, hopen⟩ := hopens a (as.flatMap text ++ x)
      rw [List.flatMap_nil, List.nil_append, List.flatMap_cons, List.append_assoc] at hsame
      exact absurd (hsame ▸ hopen) (hy.2 c hc)
    | cons b bs =>
      rw [List.flatMap_cons, List.flatMap_cons, List.append_assoc, List.append_assoc] at hsame
      -- the first members end above their level on both sides, so that they can be compared
      obtain ⟨hkey, htail⟩ := hmember a List.mem_cons_self b List.mem_cons_self _ _
        (endsAbove_flatMap hopens hx.1) (endsAbove_flatMap hopens hy.1) hsame
      obtain ⟨hkeys, hrest⟩ := ih (fun a ha b hb => hmember a (List.mem_cons_of_mem _ ha) b
        (List.mem_cons_of_mem _ hb)) htail
      exact ⟨by rw [List.map_cons, List.map_cons, hkey, hkeys], hrest⟩

end Lists

/-! ### Parts of a tree -/

section Parts

variable {level : Nat} {x y : List Char}

/-- Two lines of the same level that start alike have texts that go on alike. -/
theorem levelChars_cancel {text text' : String} {l l' : Location}
    (hsame : levelChars level text l ++ x = levelChars level text' l' ++ y) :
    text.toList ++ (placeChars l ++ x) = text'.toList ++ (placeChars l' ++ y) := by
  simp only [levelChars, List.cons_append, List.append_assoc] at hsame
  exact List.append_cancel_left (List.cons.inj hsame).2

/-- The characters of an argument in the view. -/
def Argument.viewChars (level : Nat) (a : Argument) : List Char := lineChars (a.viewLines level)

/-- The characters of a verb in the view. -/
def Verb.viewChars (level : Nat) (v : Verb) : List Char := lineChars (v.viewLines level)

/-- The characters of a statement in the view. -/
def Statement.viewChars (level : Nat) (s : Statement) : List Char := lineChars (s.viewLines level)

theorem lineChars_flatMap {α : Type} (lines : α → List String) (as : List α) :
    lineChars (as.flatMap lines) = as.flatMap fun a => lineChars (lines a) :=
  List.flatMap_assoc

/-- An argument is one line. -/
theorem Argument.viewChars_eq (level : Nat) (a : Argument) :
    a.viewChars level
      = levelChars level ("arg " ++ a.name ++ "=\"" ++ a.value ++ "\"") a.location := by
  rw [viewChars, viewLines, lineChars_viewLine]
  exact List.append_nil _

/-- A verb with a name is a line and its arguments one level deeper. -/
theorem Verb.viewChars_named (level : Nat) (name : String) (arguments : List Argument)
    (l : Location) : Verb.viewChars level (.named name arguments l)
      = levelChars level ("verb @" ++ name) l
        ++ arguments.flatMap (Argument.viewChars (level + 1)) := by
  rw [viewChars, viewLines, lineChars_viewLine, lineChars_flatMap]
  rfl

/-- A filter is one line. -/
theorem Verb.viewChars_filter (level : Nat) (pattern : String) (l : Location) :
    Verb.viewChars level (.filter pattern l)
      = levelChars level ("filter \"" ++ pattern ++ "\"") l := by
  rw [viewChars, viewLines, lineChars_viewLine]
  exact List.append_nil _

/-- What the line of a statement says. -/
def statementTitle (verbs : List Verb) : String :=
  if verbs = [] then "statement (empty)" else "statement"

/-- A statement without a scope is a line and its verbs one level deeper. -/
theorem Statement.viewChars_plain (level : Nat) (verbs : List Verb) (l : Location) :
    Statement.viewChars level (.plain verbs l)
      = levelChars level (statementTitle verbs) l
        ++ verbs.flatMap (Verb.viewChars (level + 1)) := by
  cases verbs with
  | nil =>
    rw [viewChars, viewLines, lineChars_viewLine]
    rfl
  | cons v verbs =>
    rw [viewChars, viewLines, lineChars_viewLine, lineChars_flatMap]
    · rfl
    · simp

/-- The lines of a list are those of its statements. -/
theorem Statement.viewLinesAll_eq_flatMap (level : Nat) (body : List Statement) :
    Statement.viewLinesAll level body = body.flatMap (Statement.viewLines level) := by
  induction body with
  | nil => rfl
  | cons s rest ih => rw [viewLinesAll, ih, List.flatMap_cons]

/-- A statement with a scope has a line for that behind its verbs, and the body two levels deeper.
    -/
theorem Statement.viewChars_nested (level : Nat) (verbs : List Verb) (body : List Statement)
    (opened l : Location) : Statement.viewChars level (.nested verbs body opened l)
      = levelChars level "statement" l ++ (verbs.flatMap (Verb.viewChars (level + 1)) ++
        (levelChars (level + 1) "scope" opened ++
          body.flatMap (Statement.viewChars (level + 2)))) := by
  rw [viewChars, viewLines, viewLinesAll_eq_flatMap, List.cons_append, lineChars_viewLine,
    lineChars_append, lineChars_viewLine, lineChars_flatMap, lineChars_flatMap]
  rfl

/-! ### Parts are told apart -/

/-- The line of an argument opens with its letter at its level. -/
theorem Argument.opensAt (a : Argument) :
    ∃ c ∈ ['a'], OpensAt level c (a.viewChars level ++ x) := by
  refine ⟨'a', List.mem_singleton_self _, ?_⟩
  rw [viewChars_eq]
  exact opensAt_levelChars (by simp) (by decide)

/-- The line of a verb opens with the letter of its kind. -/
theorem Verb.opensAt (v : Verb) :
    ∃ c ∈ ['v', 'f'], OpensAt level c (v.viewChars level ++ x) := by
  cases v with
  | named name arguments l =>
    refine ⟨'v', List.mem_cons_self, ?_⟩
    rw [viewChars_named, List.append_assoc]
    exact opensAt_levelChars (by simp) (by decide)
  | filter pattern l =>
    refine ⟨'f', by simp, ?_⟩
    rw [viewChars_filter]
    exact opensAt_levelChars (by simp) (by decide)

/-- The line of a statement opens with its letter. -/
theorem Statement.opensAt (s : Statement) :
    ∃ c ∈ ['s'], OpensAt level c (s.viewChars level ++ x) := by
  refine ⟨'s', List.mem_singleton_self _, ?_⟩
  cases s with
  | plain verbs l =>
    rw [viewChars_plain, List.append_assoc]
    exact opensAt_levelChars (by cases verbs <;> simp [statementTitle]) (by decide)
  | nested verbs body opened l =>
    rw [viewChars_nested, List.append_assoc]
    exact opensAt_levelChars (by simp) (by decide)

/-- A place puts an end to the name before it. -/
theorem endsName_placeChars (l : Location) : EndsName (placeChars l ++ x) :=
  endsName_cons (by decide +kernel)

/-- Arguments that are shown alike are equal up to offsets, and the texts go on alike behind them.
    -/
theorem Argument.view_unique {a b : Argument} (ha : a.IsSpelled) (hb : b.IsSpelled)
    (hx : EndsLine x) (hy : EndsLine y) (hsame : a.viewChars level ++ x = b.viewChars level ++ y) :
    a.carry .view = b.carry .view ∧ x = y := by
  have hequals : "=\"".toList = ['=', '"'] := by simp
  have hquote : "\"".toList = ['"'] := by simp
  have hends {rest : List Char} : EndsName ('=' :: rest) := endsName_cons (by decide +kernel)
  rw [viewChars_eq, viewChars_eq] at hsame
  have htexts := levelChars_cancel hsame
  simp only [String.toList_append, List.append_assoc, hequals, hquote, List.cons_append,
    List.nil_append] at htexts
  -- the equals sign ends the name, the closing quote the text, and the line the place
  obtain ⟨hname, htexts⟩ := name_unique ha.1 hb.1 hends hends (List.append_cancel_left htexts)
  simp only [List.cons.injEq, true_and] at htexts
  obtain ⟨hvalue, htexts⟩ := string_unique ha.2 hb.2 htexts
  obtain ⟨hplace, hrest⟩ := placeChars_unique hx hy htexts
  refine ⟨?_, hrest⟩
  rw [carry, carry, hname, hvalue, hplace]

/-- A verb with a name is never shown as a filter is. -/
theorem Verb.named_ne_filter {name pattern : String} {arguments : List Argument}
    {l l' : Location} : Verb.viewChars level (.named name arguments l) ++ x
      ≠ Verb.viewChars level (.filter pattern l') ++ y := by
  intro hsame
  have hnamed : OpensAt level 'v' (Verb.viewChars level (.named name arguments l) ++ x) := by
    rw [viewChars_named, List.append_assoc]
    exact opensAt_levelChars (by simp) (by decide)
  have hfilter : OpensAt level 'f' (Verb.viewChars level (.filter pattern l') ++ y) := by
    rw [viewChars_filter]
    exact opensAt_levelChars (by simp) (by decide)
  exact absurd (hnamed.unique (hsame ▸ hfilter)).2 (by decide)

/-- Verbs that are shown alike are equal up to offsets.  A list of arguments ends where a line opens
    further out, so behind equal titles the lists are compared as wholes. -/
theorem Verb.view_unique {v w : Verb} (hv : v.IsSpelled) (hw : w.IsSpelled)
    (hx : EndsAbove (level + 1) x) (hy : EndsAbove (level + 1) y)
    (hsame : v.viewChars level ++ x = w.viewChars level ++ y) :
    v.carry .view = w.carry .view ∧ x = y := by
  cases v with
  | named name arguments l =>
    cases w with
    | named name' arguments' l' =>
      -- the arguments are one level deeper
      have hends {as : List Argument} {z : List Char} (hz : EndsAbove (level + 1) z) :
          EndsLine (as.flatMap (Argument.viewChars (level + 1)) ++ z) :=
        (endsAbove_flatMap (fun a _ => a.opensAt) (hz.mono (Nat.le_succ _))).endsLine
      rw [viewChars_named, viewChars_named, List.append_assoc, List.append_assoc] at hsame
      have htexts := levelChars_cancel hsame
      simp only [String.toList_append, List.append_assoc] at htexts
      obtain ⟨hname, htexts⟩ := name_unique hv.1 hw.1 (endsName_placeChars l)
        (endsName_placeChars l') (List.append_cancel_left htexts)
      obtain ⟨hplace, htexts⟩ := placeChars_unique (hends hx) (hends hy) htexts
      obtain ⟨harguments, hrest⟩ := flatMap_unique (fun a _ => a.opensAt)
        (fun a ha b hb _ _ hx hy hsame =>
          Argument.view_unique (hv.2 a ha) (hw.2 b hb) hx.endsLine hy.endsLine hsame)
        hx.endsList hy.endsList htexts
      refine ⟨?_, hrest⟩
      rw [carry, carry, hname, hplace, harguments]
    | filter pattern l' => exact absurd hsame named_ne_filter
  | filter pattern l =>
    cases w with
    | named name' arguments' l' => exact absurd hsame.symm named_ne_filter
    | filter pattern' l' =>
      have hquote : "\"".toList = ['"'] := by simp
      rw [viewChars_filter, viewChars_filter] at hsame
      have htexts := levelChars_cancel hsame
      simp only [String.toList_append, List.append_assoc, hquote, List.cons_append,
        List.nil_append] at htexts
      obtain ⟨hpattern, htexts⟩ := string_unique hv hw (List.append_cancel_left htexts)
      obtain ⟨hplace, hrest⟩ := placeChars_unique hx.endsLine hy.endsLine htexts
      refine ⟨?_, hrest⟩
      rw [carry, carry, hpattern, hplace]

/-- The verbs of a statement are told apart from each other and from what follows them. -/
theorem Verb.views_unique {vs ws : List Verb} (hvs : ∀ v ∈ vs, v.IsSpelled)
    (hws : ∀ w ∈ ws, w.IsSpelled) (hx : EndsList level ['v', 'f'] x)
    (hy : EndsList level ['v', 'f'] y)
    (hsame : vs.flatMap (Verb.viewChars level) ++ x = ws.flatMap (Verb.viewChars level) ++ y) :
    vs.map (Verb.carry .view) = ws.map (Verb.carry .view) ∧ x = y :=
  flatMap_unique (fun v _ => v.opensAt)
    (fun v hv w hw _ _ hx hy hsame => view_unique (hvs v hv) (hws w hw) hx hy hsame) hx hy hsame

/-- A statement says in its line whether it has anything. -/
theorem statementTitle_unique {title title' : String} {l l' : Location}
    (htitle : title = "statement" ∨ title = "statement (empty)")
    (htitle' : title' = "statement" ∨ title' = "statement (empty)") (hx : EndsLine x)
    (hy : EndsLine y)
    (hsame : levelChars level title l ++ x = levelChars level title' l' ++ y) :
    Carrier.view.place l = Carrier.view.place l' ∧ x = y := by
  have htexts := levelChars_cancel hsame
  have hlong : "statement (empty)".toList = "statement".toList ++ " (empty)".toList := by decide
  have hne {z z' : List Char} {l : Location} : " (empty)".toList ++ z ≠ placeChars l ++ z' := by
    simp [placeChars]
  -- one title is the start of the other, so only what follows tells them apart
  rcases htitle with rfl | rfl <;> rcases htitle' with rfl | rfl
  · exact placeChars_unique hx hy (List.append_cancel_left htexts)
  · rw [hlong, List.append_assoc] at htexts
    exact absurd (List.append_cancel_left htexts).symm hne
  · rw [hlong, List.append_assoc] at htexts
    exact absurd (List.append_cancel_left htexts) hne
  · exact placeChars_unique hx hy (List.append_cancel_left htexts)

/-- There are two titles that a statement may have. -/
theorem statementTitle_eq (verbs : List Verb) :
    statementTitle verbs = "statement" ∨ statementTitle verbs = "statement (empty)" := by
  unfold statementTitle
  split
  · exact .inr rfl
  · exact .inl rfl

/-- The verbs in front of a scope end there. -/
theorem endsList_scope (level : Nat) (opened : Location) (x : List Char) :
    EndsList level ['v', 'f'] (levelChars level "scope" opened ++ x) := by
  have hscope : OpensAt level 's' (levelChars level "scope" opened ++ x) :=
    opensAt_levelChars (by simp) (by decide)
  refine ⟨hscope.endsAbove (Nat.lt_succ_self level), fun c hc hopens => ?_⟩
  obtain rfl := (hscope.unique hopens).2
  exact absurd hc (by decide)

/-- Behind verbs, or where there are none, a line is at its end. -/
theorem Verb.endsLine_views {vs : List Verb} (hx : EndsAbove (level + 1) x) :
    EndsLine (vs.flatMap (Verb.viewChars level) ++ x) :=
  (endsAbove_flatMap (fun v _ => v.opensAt) hx).endsLine

/-- Where the verbs of a statement end there is no scope, or one is opened. -/
theorem Statement.plain_ne_nested {verbs verbs' : List Verb} {body : List Statement}
    {opened l l' : Location} (hverbs : ∀ v ∈ verbs, v.IsSpelled)
    (hverbs' : ∀ v ∈ verbs', v.IsSpelled) (hx : EndsAbove (level + 1) x) :
    Statement.viewChars level (.plain verbs l) ++ x
      ≠ Statement.viewChars level (.nested verbs' body opened l') ++ y := by
  intro hsame
  have hscope := endsList_scope (level + 1) opened
    (body.flatMap (Statement.viewChars (level + 2)) ++ y)
  simp only [viewChars_plain, viewChars_nested, List.append_assoc] at hsame
  obtain ⟨-, hsame⟩ := statementTitle_unique (statementTitle_eq verbs) (.inl rfl)
    (Verb.endsLine_views (hx.mono (Nat.le_succ _))) (Verb.endsLine_views hscope.1) hsame
  obtain ⟨-, rfl⟩ := Verb.views_unique hverbs hverbs' hx.endsList hscope hsame
  -- so the line of the scope stands where no other line is at its level
  have hopens : OpensAt (level + 1) 's' (levelChars (level + 1) "scope" opened
      ++ (body.flatMap (Statement.viewChars (level + 2)) ++ y)) :=
    opensAt_levelChars (by simp) (by decide)
  exact hx.not_opensAt hopens

/-- Statements that are shown alike are equal up to offsets.  By induction over the scopes: the
    titles are equal, then the verbs, and then there is a scope on both sides or on neither, since
    the line of a scope opens with a letter of its own. -/
theorem Statement.view_unique {s s' : Statement} (hs : ∀ v ∈ s.allVerbs, v.IsSpelled)
    (hs' : ∀ v ∈ s'.allVerbs, v.IsSpelled) (hx : EndsAbove (level + 1) x)
    (hy : EndsAbove (level + 1) y) (hsame : s.viewChars level ++ x = s'.viewChars level ++ y) :
    s.carry .view = s'.carry .view ∧ x = y := by
  induction s using Statement.inductionOn generalizing s' level x y with
  | plain verbs l =>
    rw [allVerbs] at hs
    cases s' with
    -- without a scope only the title and the verbs are compared
    | plain verbs' l' =>
      rw [allVerbs] at hs'
      simp only [viewChars_plain, List.append_assoc] at hsame
      obtain ⟨hplace, hsame⟩ := statementTitle_unique (statementTitle_eq verbs)
        (statementTitle_eq verbs') (Verb.endsLine_views (hx.mono (Nat.le_succ _)))
        (Verb.endsLine_views (hy.mono (Nat.le_succ _))) hsame
      obtain ⟨hverbs, hrest⟩ := Verb.views_unique hs hs' hx.endsList hy.endsList hsame
      exact ⟨by rw [carry, carry, hplace, hverbs], hrest⟩
    | nested verbs' body' opened' l' =>
      exact absurd hsame (plain_ne_nested hs (fun v hv => hs' v (List.mem_append_left _ hv)) hx)
  | nested verbs body opened l ih =>
    cases s' with
    | plain verbs' l' =>
      exact absurd hsame.symm
        (plain_ne_nested hs' (fun v hv => hs v (List.mem_append_left _ hv)) hy)
    | nested verbs' body' opened' l' =>
      rw [allVerbs, List.forall_mem_append, allVerbsIn_eq_flatMap, List.forall_mem_flatMap]
        at hs hs'
      -- the line of the scope ends the verbs
      have hscope := endsList_scope (level + 1) opened
        (body.flatMap (Statement.viewChars (level + 2)) ++ x)
      have hscope' := endsList_scope (level + 1) opened'
        (body'.flatMap (Statement.viewChars (level + 2)) ++ y)
      have hends {list : List Statement} {z : List Char} (hz : EndsAbove (level + 1) z) :
          EndsLine (list.flatMap (Statement.viewChars (level + 2)) ++ z) :=
        (endsAbove_flatMap (fun s _ => s.opensAt) (hz.mono (by omega))).endsLine
      simp only [viewChars_nested, List.append_assoc] at hsame
      obtain ⟨hplace, hsame⟩ := statementTitle_unique (.inl rfl) (.inl rfl)
        (Verb.endsLine_views hscope.1) (Verb.endsLine_views hscope'.1) hsame
      obtain ⟨hverbs, hsame⟩ := Verb.views_unique hs.1 hs'.1 hscope hscope' hsame
      obtain ⟨hopened, hsame⟩ := placeChars_unique (hends hx) (hends hy)
        (List.append_cancel_left (levelChars_cancel hsame))
      -- the statements of the scope are two levels deeper
      obtain ⟨hbody, hrest⟩ := flatMap_unique (fun s _ => s.opensAt)
        (fun s hmem s' hmem' _ _ hx hy hsame =>
          ih s hmem (hs.2 s hmem) (hs'.2 s' hmem') hx hy hsame)
        (hx.mono (Nat.le_succ _)).endsList (hy.mono (Nat.le_succ _)).endsList hsame
      refine ⟨?_, hrest⟩
      rw [carry, carry, carryAll_eq_map, carryAll_eq_map, hplace, hverbs, hopened, hbody]

end Parts

/-! ### Places -/

section Places

variable (m : Carrier)

/-- The places of a verb told again are its places told again. -/
theorem Verb.places_carry (v : Verb) : (v.carry m).places = v.places.map m.place := by
  cases v with
  | named name arguments l =>
    rw [carry, places, places, List.map_cons, List.map_map, List.map_map]
    rfl
  | filter pattern l => rfl

theorem Verb.flatMap_places_carry (verbs : List Verb) :
    (verbs.map (Verb.carry m)).flatMap Verb.places = (verbs.flatMap Verb.places).map m.place := by
  rw [List.flatMap_map, List.map_flatMap]
  exact List.flatMap_congr fun v _ => v.places_carry m

/-- By induction over the scopes, the same holds for a statement. -/
theorem Statement.places_carry (s : Statement) : (s.carry m).places = s.places.map m.place := by
  induction s using Statement.inductionOn with
  | plain verbs l =>
    rw [carry, places, places, List.map_cons, Verb.flatMap_places_carry]
  | nested verbs body opened l ih =>
    have hbody : placesIn (body.map (carry m)) = (placesIn body).map m.place := by
      rw [placesIn_eq_flatMap, placesIn_eq_flatMap, List.flatMap_map, List.map_flatMap]
      exact List.flatMap_congr ih
    rw [carry, places, places, carryAll_eq_map, hbody, Verb.flatMap_places_carry, List.map_cons,
      List.map_append, List.map_cons]

/-- The places of a query told again are its places told again. -/
theorem Query.placesIn_carry (q : Query) :
    Statement.placesIn (q.carry m).statements = (Statement.placesIn q.statements).map m.place := by
  rw [carry, Statement.placesIn_eq_flatMap, Statement.placesIn_eq_flatMap, List.flatMap_map,
    List.map_flatMap]
  exact List.flatMap_congr fun s _ => s.places_carry m

end Places

/-! ### Queries -/

/-- The characters of a query in the view, behind one more line feed. -/
theorem Query.lineFeed_cons_format (q : Query) :
    '\n' :: (q.format .tree).toList = levelChars 0 "query" q.location
      ++ q.statements.flatMap (Statement.viewChars 1) := by
  have hformat : q.format .tree = "\n".intercalate q.viewLines := rfl
  have hbehind (lines : List String) :
      (lines.map String.toList).flatMap (fun line => "\n".toList ++ line) = lineChars lines := by
    rw [List.flatMap_map]
    rfl
  rw [hformat, String.toList_intercalate, Query.viewLines, List.map_cons,
    intercalate_cons_eq_flatMap, hbehind, toList_viewLine, Statement.viewLinesAll_eq_flatMap,
    lineChars_flatMap]
  rfl

/-- Queries with the same view are the same but for their offsets. -/
theorem Query.view_unique {a b : Query} (ha : a.IsSpelled) (hb : b.IsSpelled)
    (hsame : a.format .tree = b.format .tree) : a.carry .view = b.carry .view := by
  -- nothing stands behind a query, which ends every list in it
  have hend : EndsAbove 1 [] := .inl rfl
  have hends (list : List Statement) : EndsLine (list.flatMap (Statement.viewChars 1) ++ []) :=
    (endsAbove_flatMap (fun s _ => s.opensAt) (hend.mono (Nat.le_succ _))).endsLine
  have hchars : levelChars 0 "query" a.location
        ++ (a.statements.flatMap (Statement.viewChars 1) ++ [])
      = levelChars 0 "query" b.location
        ++ (b.statements.flatMap (Statement.viewChars 1) ++ []) := by
    rw [List.append_nil, List.append_nil, ← a.lineFeed_cons_format, ← b.lineFeed_cons_format,
      hsame]
  rw [IsSpelled, allVerbs, Statement.allVerbsIn_eq_flatMap, List.forall_mem_flatMap] at ha hb
  obtain ⟨hplace, hchars⟩ := placeChars_unique (hends _) (hends _)
    (List.append_cancel_left (levelChars_cancel hchars))
  obtain ⟨hstatements, -⟩ := flatMap_unique (fun s _ => s.opensAt)
    (fun s hs s' hs' _ _ hx hy hsame =>
      Statement.view_unique (ha s hs) (hb s' hs') hx hy hsame)
    hend.endsList hend.endsList hchars
  rw [carry, carry, hplace, hstatements]

/-- The views of queries show all lines and columns. -/
theorem Query.lineCols_of_view_eq {a b : Query} (h : a.carry .view = b.carry .view) :
    (a.location :: Statement.placesIn a.statements).map (fun l => (l.line, l.col))
      = (b.location :: Statement.placesIn b.statements).map (fun l => (l.line, l.col)) := by
  have hplaces (q : Query) :
      (q.location :: Statement.placesIn q.statements).map (fun l => (l.line, l.col))
        = ((q.carry .view).location :: Statement.placesIn (q.carry .view).statements).map
          (fun l => (l.line, l.col)) := by
    rw [Query.placesIn_carry, List.map_cons, List.map_cons, List.map_map]
    rfl
  rw [hplaces a, hplaces b, h]

/-- Queries of which the view keeps the same agree. -/
theorem Query.agrees_of_carry_view_eq {a b : Query} (h : a.carry .view = b.carry .view) :
    a.agrees b = true := by
  have ha := (Query.agrees_iff _ _).mp (Query.agrees_carry (m := .view) rfl a)
  have hb := (Query.agrees_iff _ _).mp (Query.agrees_carry (m := .view) rfl b)
  rw [Query.agrees_iff, ← ha, ← hb, h]

/-- **The tree view loses nothing but offsets.**  Two queries of any depth, with any places, whose
    names are names and whose strings hold no double quote: if their views are the same, then the
    queries agree, and all their nodes have the same lines and columns in turn.  All queries that
    are read from texts are such ones. -/
theorem agrees_of_view_eq :
    (∀ a b : Query, a.IsSpelled → b.IsSpelled → a.format .tree = b.format .tree →
      a.agrees b = true ∧
      (a.location :: Statement.placesIn a.statements).map (fun l => (l.line, l.col))
        = (b.location :: Statement.placesIn b.statements).map (fun l => (l.line, l.col))) ∧
    ∀ source q, Query.ofText source = .ok q → q.IsSpelled := by
  refine ⟨fun a b ha hb hsame => ?_, fun source q hq => ?_⟩
  · have hview : a.carry .view = b.carry .view := Query.view_unique ha hb hsame
    exact ⟨Query.agrees_of_carry_view_eq hview, Query.lineCols_of_view_eq hview⟩
  · exact (phrase_of_ofText hq).1.spelled

/-- A string that looks like the end of its line and the line of a scope, behind two line breaks of
    which one is longer. -/
theorem agrees_of_view_eq_of_breaks :
    ∃ a b, Query.ofText "\n\"x @1:1\n    scope @1:2\"\x7b\x7d" = .ok a ∧
      Query.ofText "\r\n\"x @1:1\n    scope @1:2\"\x7b\x7d" = .ok b ∧ a.agrees b = true ∧
      (a.location :: Statement.placesIn a.statements).map (fun l => (l.line, l.col))
        = (b.location :: Statement.placesIn b.statements).map (fun l => (l.line, l.col)) := by
  obtain ⟨hviews, hspelled⟩ := agrees_of_view_eq
  obtain ⟨a, ha⟩ : ∃ q, Query.ofText "\n\"x @1:1\n    scope @1:2\"\x7b\x7d" = .ok q :=
    exists_of_isOk (by decide +kernel)
  obtain ⟨b, hb⟩ : ∃ q, Query.ofText "\r\n\"x @1:1\n    scope @1:2\"\x7b\x7d" = .ok q :=
    exists_of_isOk (by decide +kernel)
  have hsame : (Query.ofText "\n\"x @1:1\n    scope @1:2\"\x7b\x7d").toOption.map (·.format .tree)
      = (Query.ofText "\r\n\"x @1:1\n    scope @1:2\"\x7b\x7d").toOption.map (·.format .tree) := by
    decide +kernel
  rw [ha, hb] at hsame
  exact ⟨a, b, ha, hb, hviews a b (hspelled _ a ha) (hspelled _ b hb) (Option.some.inj hsame)⟩

end ScopedQuery
