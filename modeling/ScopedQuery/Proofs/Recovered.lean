import Mathlib.Data.Option.Basic
import Mathlib.Data.List.Forall2
import ScopedQuery.CommandLine.Run
import ScopedQuery.Proofs.JsonReading

namespace ScopedQuery

/-!
# Queries recovered from JSON values

A tree is found again in the JSON value of a query, with all the places in it.  The members of an
object are looked up by their keys, so their order does not matter.

* `Json.Same` — the same value, whatever the order of the members of objects.
* `Query.ofJson?`, `Statement.ofJson?`, … — the part of a tree that a value stands for.
* `Query.ofJson_of_same` — the value of a query stands for that query only.
* `json_determines_query` — two texts denote the same value just if the queries are the same.
-/

namespace Json

/-! ### The same value -/

/-- The same value: arrays go by their items in order, objects by what is found under each key. -/
inductive Same : Json → Json → Prop
  | null : Same .null .null
  | int (n : Int) : Same (.int n) (.int n)
  | string (text : String) : Same (.string text) (.string text)
  | array {items items' : List Json} (h : List.Forall₂ Same items items') :
      Same (.array items) (.array items')
  | object {members members' : List (String × Json)}
      (h : ∀ key, Option.Rel Same (members.lookup key) (members'.lookup key)) :
      Same (.object members) (.object members')

/-- What stands under a key of an object. -/
def member? (v : Json) (key : String) : Option Json :=
  match v with
  | .object members => members.lookup key
  | _ => none

def int? : Json → Option Int
  | .int n => some n
  | _ => none

def string? : Json → Option String
  | .string text => some text
  | _ => none

def array? : Json → Option (List Json)
  | .array items => some items
  | _ => none

/-- The number under a key. -/
def intAt? (v : Json) (key : String) : Option Int := (v.member? key).bind int?

/-- The string under a key. -/
def stringAt? (v : Json) (key : String) : Option String := (v.member? key).bind string?

/-- The items of the array under a key. -/
def arrayAt? (v : Json) (key : String) : Option (List Json) := (v.member? key).bind array?

theorem mem_of_lookup {members : List (String × Json)} {key : String} {v : Json}
    (h : members.lookup key = some v) : (key, v) ∈ members := by
  obtain ⟨before, after, rfl, -⟩ := List.lookup_eq_some_iff.mp h
  simp

/-- By induction over its parts, every value is the same as itself. -/
theorem Same.refl (v : Json) : Same v v := by
  induction v using inductionOn with
  | null => exact .null
  | int n => exact .int n
  | string text => exact .string text
  | array items hitems => exact .array (List.forall₂_same.mpr hitems)
  | object members hmembers =>
    refine .object fun key => ?_
    cases h : members.lookup key with
    | none => exact .none
    | some v => exact .some (hmembers (key, v) (mem_of_lookup h))

/-- A member is smaller than its object, so that a reader may go on inside of it. -/
theorem sizeOf_member? {v w : Json} {key : String} (h : v.member? key = some w) :
    sizeOf w < sizeOf v := by
  cases v with
  | object members =>
    have hlt : sizeOf w < sizeOf members := sizeOf_member_lt (mem_of_lookup h)
    rw [object.sizeOf_spec]
    omega
  | _ => cases h

/-- So are the items of a member. -/
theorem sizeOf_arrayAt? {v : Json} {items : List Json} {key : String}
    (h : v.arrayAt? key = some items) : sizeOf items < sizeOf v := by
  obtain ⟨w, hmember, hitems⟩ := Option.bind_eq_some_iff.mp h
  have hlt := sizeOf_member? hmember
  cases w with
  | array items' =>
    cases hitems
    rw [array.sizeOf_spec] at hlt
    omega
  | _ => cases hitems

section Members

variable {v w : Json}

/-- Values that are the same have the same members under every name, or none. -/
theorem Same.member? (h : Same v w) (key : String) :
    Option.Rel Same (v.member? key) (w.member? key) := by
  cases h with
  | object h => exact h key
  | _ => exact .none

/-- In particular, a member that one of them has is a member of the other. -/
theorem Same.exists_member? (h : Same v w) (key : String) {v' : Json}
    (hv : v.member? key = some v') : ∃ w', w.member? key = some w' ∧ Same v' w' := by
  have hrel := h.member? key
  rw [hv] at hrel
  generalize w.member? key = b at hrel ⊢
  obtain ⟨hsame⟩ := hrel
  exact ⟨_, rfl, hsame⟩

/-- What is told of values that are the same is told of members that are. -/
theorem Same.bind_member? {α : Type} {f : Json → Option α} (h : Same v w)
    (hf : ∀ {v w : Json}, Same v w → f v = f w) (key : String) :
    (v.member? key).bind f = (w.member? key).bind f := by
  have hrel := h.member? key
  revert hrel
  generalize v.member? key = a
  generalize w.member? key = b
  rintro (h | _)
  · exact hf h
  · rfl

theorem Same.intAt? (h : Same v w) (key : String) : v.intAt? key = w.intAt? key :=
  h.bind_member? (fun h => by cases h <;> rfl) key

theorem Same.stringAt? (h : Same v w) (key : String) : v.stringAt? key = w.stringAt? key :=
  h.bind_member? (fun h => by cases h <;> rfl) key

/-- The items under a name are the same one by one, in order. -/
theorem Same.arrayAt? (h : Same v w) (key : String) {items : List Json}
    (hitems : v.arrayAt? key = some items) :
    ∃ items', w.arrayAt? key = some items' ∧ List.Forall₂ Same items items' := by
  obtain ⟨v', hv, hitems⟩ := Option.bind_eq_some_iff.mp hitems
  obtain ⟨w', hw, hsame⟩ := h.exists_member? key hv
  cases hsame with
  | array hall =>
    cases hitems
    exact ⟨_, by rw [Json.arrayAt?, hw]; rfl, hall⟩
  | _ => cases hitems

end Members

end Json

/-! ### Trees from values -/

/-- The place that the last members of an object stand for. -/
def Location.ofJson? (v : Json) : Option Location := do
  let line ← v.intAt? "line"
  let col ← v.intAt? "col"
  let offset ← v.intAt? "offset"
  return { offset, line, col }

/-- The argument that a value stands for. -/
def Argument.ofJson? (v : Json) : Option Argument := do
  guard (v.stringAt? "kind" = some "argument")
  let name ← v.stringAt? "name"
  let value ← v.stringAt? "value"
  return { name, value, location := ← Location.ofJson? v }

/-- The verb that a value stands for; its kind tells what else it holds. -/
def Verb.ofJson? (v : Json) : Option Verb := do
  let kind ← v.stringAt? "kind"
  let location ← Location.ofJson? v
  if kind = "generic_verb" then
    let name ← v.stringAt? "name"
    let arguments ← v.arrayAt? "arguments"
    return .named name (← arguments.mapM Argument.ofJson?) location
  else
    guard (kind = "filter")
    return .filter (← v.stringAt? "pattern") location

mutual

/-- The query that a value stands for. -/
def Query.ofJson? (v : Json) : Option Query := do
  guard (v.stringAt? "kind" = some "query")
  let location ← Location.ofJson? v
  match h : v.arrayAt? "statements" with
  | some items =>
    have : sizeOf items < sizeOf v := Json.sizeOf_arrayAt? h
    return { statements := ← Statement.ofJsonAll? items, location }
  | none => none
termination_by sizeOf v

/-- The statement that a value stands for. -/
def Statement.ofJson? (v : Json) : Option Statement := do
  guard (v.stringAt? "kind" = some "statement")
  let location ← Location.ofJson? v
  let verbs ← v.arrayAt? "verbs"
  let verbs ← verbs.mapM Verb.ofJson?
  match h : v.member? "scope" with
  | some .null => return .plain verbs location
  | some scope =>
    have : sizeOf scope < sizeOf v := Json.sizeOf_member? h
    let body ← Query.ofJson? scope
    return .nested verbs body.statements body.location location
  | none => none
termination_by sizeOf v

/-- The statements that the items of an array stand for. -/
def Statement.ofJsonAll? (items : List Json) : Option (List Statement) :=
  match items with
  | [] => some []
  | v :: rest => do return (← Statement.ofJson? v) :: (← Statement.ofJsonAll? rest)
termination_by sizeOf items

end

/-! ### Trees recovered -/

section Recovered

open Json (Same)

variable {w : Json}

/-- The place of a part is found if no other member has one of its keys. -/
theorem Location.ofJson_of_same {kind : String} {members : List (String × Json)} {l : Location}
    (hmembers : ∀ key ∈ ["line", "col", "offset"], members.lookup key = none)
    (h : Same (partObject kind members l) w) : Location.ofJson? w = some l := by
  -- in the layout of a part the place is behind its other members
  have hplace (key : String) (hkey : key ∈ ["line", "col", "offset"]) :
      (partObject kind members l).member? key = l.members.lookup key := by
    have hne : ∀ key ∈ ["line", "col", "offset"], (key == "kind") = false := by decide
    show List.lookup key (("kind", Json.string kind) :: (members ++ l.members)) = _
    rw [List.lookup_cons, hne key hkey, List.lookup_append, hmembers key hkey]
    rfl
  have hline : w.intAt? "line" = some l.line := by
    rw [← h.intAt?, Json.intAt?, hplace "line" (by decide)]
    rfl
  have hcol : w.intAt? "col" = some l.col := by
    rw [← h.intAt?, Json.intAt?, hplace "col" (by decide)]
    rfl
  have hoffset : w.intAt? "offset" = some l.offset := by
    rw [← h.intAt?, Json.intAt?, hplace "offset" (by decide)]
    rfl
  rw [Location.ofJson?, hline, hcol, hoffset]
  rfl

/-- An argument is found in each value that is the same as its own. -/
theorem Argument.ofJson_of_same (a : Argument) (h : Same a.toJson w) :
    Argument.ofJson? w = some a := by
  have hkind : w.stringAt? "kind" = some "argument" := by rw [← h.stringAt?]; rfl
  have hname : w.stringAt? "name" = some a.name := by rw [← h.stringAt?]; rfl
  have hvalue : w.stringAt? "value" = some a.value := by rw [← h.stringAt?]; rfl
  have hlocation : Location.ofJson? w = some a.location := Location.ofJson_of_same (by simp) h
  rw [Argument.ofJson?, hkind, hname, hvalue, hlocation]
  rfl

/-- Parts are recovered one after another. -/
theorem mapM_of_same {α : Type} {toJson : α → Json} {ofJson? : Json → Option α}
    (hof : ∀ x w, Same (toJson x) w → ofJson? w = some x) {xs : List α} {ws : List Json}
    (h : List.Forall₂ Same (xs.map toJson) ws) : ws.mapM ofJson? = some xs := by
  induction xs generalizing ws with
  | nil =>
    cases h
    rfl
  | cons x xs ih =>
    obtain ⟨w, ws, hw, hws, rfl⟩ := List.forall₂_cons_left_iff.mp h
    rw [List.mapM_cons, hof x w hw, ih hws]
    rfl

/-- A verb is found too: the kind that its value names tells which of the two it is. -/
theorem Verb.ofJson_of_same (v : Verb) (h : Same v.toJson w) : Verb.ofJson? w = some v := by
  cases v with
  | named name arguments l =>
    have hkind : w.stringAt? "kind" = some "generic_verb" := by rw [← h.stringAt?]; rfl
    have hname : w.stringAt? "name" = some name := by rw [← h.stringAt?]; rfl
    obtain ⟨ws, hws, hsame⟩ := h.arrayAt? "arguments" (by rfl)
    have hlocation : Location.ofJson? w = some l := Location.ofJson_of_same (by simp) h
    -- the arguments are in order in either value, so they are found one by one
    have harguments : ws.mapM Argument.ofJson? = some arguments :=
      mapM_of_same (fun a w h => a.ofJson_of_same h) hsame
    rw [Verb.ofJson?, hkind, hlocation, hname, hws]
    show (ws.mapM Argument.ofJson?).bind _ = _
    rw [harguments]
    rfl
  | filter pattern l =>
    have hkind : w.stringAt? "kind" = some "filter" := by rw [← h.stringAt?]; rfl
    have hpattern : w.stringAt? "pattern" = some pattern := by rw [← h.stringAt?]; rfl
    have hlocation : Location.ofJson? w = some l := Location.ofJson_of_same (by simp) h
    rw [Verb.ofJson?, hkind, hlocation, hpattern]
    rfl

/-- A query is recovered if its statements are. -/
theorem queryObject_of_same {body : List Statement} {l : Location}
    (hbody : ∀ ws, List.Forall₂ Same (Statement.toJsonAll body) ws →
      Statement.ofJsonAll? ws = some body)
    (h : Same (queryObject (Statement.toJsonAll body) l) w) : Query.ofJson? w = some ⟨body, l⟩ := by
  have hkind : w.stringAt? "kind" = some "query" := by rw [← h.stringAt?]; rfl
  obtain ⟨ws, hws, hsame⟩ := h.arrayAt? "statements" (by rfl)
  have hlocation : Location.ofJson? w = some l := Location.ofJson_of_same (by simp) h
  rw [Query.ofJson?, hkind, hlocation]
  simp only [guard_true, Option.pure_def, Option.bind_eq_bind, Option.bind_some]
  split
  · next items hitems =>
    cases hws.symm.trans hitems
    rw [hbody ws hsame]
    rfl
  · next hnone => cases hws.symm.trans hnone

/-- A statement is recovered if its scope is. -/
theorem statementObject_of_same {verbs : List Verb} {scope : Json} {l : Location}
    (h : Same (statementObject verbs scope l) w) :
    ∃ scope', Same scope scope' ∧
      (scope' = .null → Statement.ofJson? w = some (.plain verbs l)) ∧
      (scope' ≠ .null → ∀ q, Query.ofJson? scope' = some q →
        Statement.ofJson? w = some (.nested verbs q.statements q.location l)) := by
  have hkind : w.stringAt? "kind" = some "statement" := by rw [← h.stringAt?]; rfl
  have hlocation : Location.ofJson? w = some l := Location.ofJson_of_same (by simp) h
  obtain ⟨ws, hws, hall⟩ := h.arrayAt? "verbs" (by rfl)
  have hverbs : ws.mapM Verb.ofJson? = some verbs :=
    mapM_of_same (fun v w h => v.ofJson_of_same h) hall
  obtain ⟨scope', hscope, hsame⟩ := h.exists_member? "scope" (by rfl)
  rw [Statement.ofJson?, hkind, hlocation, hws]
  simp only [guard_true, Option.pure_def, Option.bind_eq_bind, Option.bind_some, hverbs]
  -- the statement has a scope just if its value is not the null value
  refine ⟨scope', hsame, fun hnull => ?_, fun hne q hq => ?_⟩
  · split
    · rfl
    · next hne h₁ => exact absurd (Option.some.inj (h₁.symm.trans hscope) ▸ hnull) hne
    · next h₁ => cases hscope.symm.trans h₁
  · split
    · next h₁ => exact absurd (Option.some.inj (hscope.symm.trans h₁)) hne
    · next h₁ =>
      cases hscope.symm.trans h₁
      rw [hq]
      rfl
    · next h₁ => cases hscope.symm.trans h₁

mutual

/-- A statement is found with its scope, or with none where the scope is null. -/
theorem Statement.ofJson_of_same (s : Statement) (w : Json) (h : Same s.toJson w) :
    Statement.ofJson? w = some s := by
  cases s with
  | plain verbs l =>
    obtain ⟨scope, hsame, hplain, -⟩ := statementObject_of_same h
    cases hsame
    exact hplain rfl
  | nested verbs body opened l =>
    obtain ⟨scope, hsame, -, hnested⟩ := statementObject_of_same h
    have hquery := queryObject_of_same (Statement.ofJsonAll_of_same body) hsame
    exact hnested (by rintro rfl; cases hsame) _ hquery

/-- The statements of a list are found one by one. -/
theorem Statement.ofJsonAll_of_same (body : List Statement) (ws : List Json)
    (h : List.Forall₂ Same (Statement.toJsonAll body) ws) :
    Statement.ofJsonAll? ws = some body := by
  cases body with
  | nil =>
    cases h
    rw [Statement.ofJsonAll?]
  | cons s rest =>
    obtain ⟨w, ws, hw, hws, rfl⟩ := List.forall₂_cons_left_iff.mp h
    rw [Statement.ofJsonAll?, s.ofJson_of_same w hw, Statement.ofJsonAll_of_same rest ws hws]
    rfl

end

/-- **The value of a query stands for that query only, whatever the order of its members.** -/
theorem Query.ofJson_of_same (q : Query) (h : Same q.toJson w) : Query.ofJson? w = some q :=
  queryObject_of_same (Statement.ofJsonAll_of_same q.statements) h

end Recovered

/-! ### Texts -/

namespace Json

/-- An indentation for which there is a layout, where `holds` tells for how many blanks there is
    room. -/
def Indentation.IsUsable (holds : Nat → Bool) : Indentation → Prop
  | .inline => True
  | .blanks count => Index.fits count = true ∧ holds count.toNat = true
  | .unusable => False

/-- There are layouts for just the indentations that can be used. -/
theorem exists_layout_iff (holds : Nat → Bool) (indent : Indentation) :
    (∃ layout, Layout.ofIndentation holds indent = .ok layout) ↔ indent.IsUsable holds := by
  cases indent with
  | inline => exact ⟨fun _ => trivial, fun _ => ⟨_, rfl⟩⟩
  | blanks count =>
    unfold Layout.ofIndentation Indentation.IsUsable
    -- a number has to be an index first, and then there has to be room for so many blanks
    by_cases hfits : Index.fits count = true
    · by_cases hroom : holds count.toNat = true
      · simp [hfits, hroom]
      · simp [hfits, hroom]
    · simp [hfits]
  | unusable =>
    refine ⟨fun h => ?_, False.elim⟩
    obtain ⟨layout, hlayout⟩ := h
    cases hlayout

end Json

section Written

open CommandLine

variable {holds : Nat → Bool} {q : Query} {indent : Json.Indentation} {text : String}

/-- What is written for a query is its text in the layout for the indentation. -/
theorem exists_layout_of_write (h : OutputFormat.json.write holds indent q = .ok text) :
    ∃ layout, Json.Layout.ofIndentation holds indent = .ok layout ∧
      q.toJson.text layout = text := by
  rw [OutputFormat.write] at h
  cases hlayout : Json.Layout.ofIndentation holds indent with
  | error fault => rw [hlayout] at h; cases h
  | ok layout => rw [hlayout] at h; cases h; exact ⟨layout, rfl, rfl⟩

/-- A query is written with just the indentations that can be used. -/
theorem exists_write_iff :
    (∃ text, OutputFormat.json.write holds indent q = .ok text) ↔ indent.IsUsable holds := by
  rw [← Json.exists_layout_iff]
  constructor
  · rintro ⟨text, h⟩
    obtain ⟨layout, hlayout, -⟩ := exists_layout_of_write h
    exact ⟨layout, hlayout⟩
  · rintro ⟨layout, hlayout⟩
    exact ⟨q.toJson.text layout, by rw [OutputFormat.write, hlayout]; rfl⟩

/-- **A JSON text determines the query with all its places.**  In every layout the text of a query
    denotes the value of the query, and the query is found in that value, in whatever order its
    members are.  So texts of two queries, each in a layout of its own, denote the same value just
    if the queries are the same.  What is written for a query is its text in the layout for the
    indentation, and there is one for every indentation that can be used, however much room there
    is for blanks. -/
theorem json_determines_query (q : Query) :
    (∀ layout, Json.ofText? (q.toJson.text layout) = some q.toJson) ∧
      (∀ v, q.toJson.Same v → Query.ofJson? v = some q) ∧
      (∀ q' layout layout',
        (∃ v v', Json.ofText? (q.toJson.text layout) = some v ∧
          Json.ofText? (q'.toJson.text layout') = some v' ∧ v.Same v') ↔ q = q') ∧
      (∀ holds indent text, OutputFormat.json.write holds indent q = .ok text →
        ∃ layout, Json.Layout.ofIndentation holds indent = .ok layout ∧
          q.toJson.text layout = text) ∧
      ∀ holds indent,
        (∃ text, OutputFormat.json.write holds indent q = .ok text) ↔ indent.IsUsable holds := by
  refine ⟨fun layout => Json.ofText_text layout q.toJson, fun v => q.ofJson_of_same,
    fun q' layout layout' => ?_, fun holds indent text => exists_layout_of_write,
    fun holds indent => exists_write_iff⟩
  rw [Json.ofText_text, Json.ofText_text]
  constructor
  · rintro ⟨_, _, ⟨⟩, ⟨⟩, hsame⟩
    -- the second value stands for both queries
    exact Option.some.inj ((q.ofJson_of_same hsame).symm.trans (q'.ofJson_of_same (.refl _)))
  · rintro rfl
    exact ⟨_, _, rfl, rfl, .refl _⟩

end Written

end ScopedQuery
