import ScopedQuery.Query.Agreement

namespace ScopedQuery

/-!
# Agreement is equality without places

* `Statement.inductionOn` — a property of all statements follows from one step for each form of
  statement, where the body of a scope has the property already.
* `Statement.agrees_iff`, `Query.agrees_iff` — trees agree when they are the same once their places
  are left out.
-/

/-- Induction on a statement and on the statements of its scope. -/
@[elab_as_elim] theorem Statement.inductionOn {motive : Statement → Prop}
    (plain : ∀ verbs location, motive (.plain verbs location))
    (nested : ∀ verbs body opened location, (∀ s ∈ body, motive s) →
      motive (.nested verbs body opened location)) (s : Statement) : motive s :=
  match s with
  | .plain verbs location => plain verbs location
  | .nested verbs body opened location =>
    nested verbs body opened location fun s _ => Statement.inductionOn plain nested s

/-- Lists agree member by member when they are the same under a map, if that holds of each of
    their members. -/
theorem agreePairwise_iff {α β : Type} {agrees : α → α → Bool} {f : α → β} (as bs : List α)
    (h : ∀ a ∈ as, ∀ b, agrees a b = true ↔ f a = f b) :
    agreePairwise agrees as bs = true ↔ as.map f = bs.map f := by
  induction as generalizing bs with
  | nil => cases bs <;> simp [agreePairwise]
  | cons a as ih =>
    cases bs with
    | nil => simp [agreePairwise]
    | cons b bs =>
      have htail := ih bs fun a ha => h a (by simp [ha])
      simp only [agreePairwise, Bool.and_eq_true, htail, List.map_cons, List.cons.injEq,
        h a (by simp) b]

/-- Arguments agree if their names and values do; this is equality without places. -/
theorem Argument.agrees_iff (a b : Argument) :
    a.agrees b = true ↔ a.unplaced = b.unplaced := by
  simp [Argument.agrees, Argument.unplaced]

/-- The same holds for verbs, whose arguments count in order. -/
theorem Verb.agrees_iff (v w : Verb) : v.agrees w = true ↔ v.unplaced = w.unplaced := by
  have hlist (as bs : List Argument) :=
    agreePairwise_iff as bs fun a _ b => Argument.agrees_iff a b
  cases v <;> cases w <;> simp [Verb.agrees, Verb.unplaced, hlist]

/-- Lists of verbs agree if they are equal without places. -/
theorem Verb.agreeAll_iff (vs ws : List Verb) :
    agreePairwise Verb.agrees vs ws = true ↔ vs.map Verb.unplaced = ws.map Verb.unplaced :=
  agreePairwise_iff vs ws fun v _ w => Verb.agrees_iff v w

/-- The comparison of two bodies, which recurses through statements, goes member by member. -/
theorem Statement.agreeAll_eq_agreePairwise (as bs : List Statement) :
    Statement.agreeAll as bs = agreePairwise Statement.agrees as bs := by
  induction as generalizing bs with
  | nil => cases bs <;> simp [Statement.agreeAll, agreePairwise]
  | cons a as ih => cases bs <;> simp [Statement.agreeAll, agreePairwise, ih]

/-- By induction over the scopes, statements agree if they are equal without places. -/
theorem Statement.agrees_iff (a b : Statement) :
    a.agrees b = true ↔ a.unplaced = b.unplaced := by
  induction a using Statement.inductionOn generalizing b with
  | plain verbs location =>
    cases b <;> simp [Statement.agrees, Statement.unplaced, Verb.agreeAll_iff]
  | nested verbs body opened location ih =>
    cases b with
    | plain verbs' location' => simp [Statement.agrees, Statement.unplaced]
    | nested verbs' body' opened' location' =>
      simp only [Statement.agrees, Statement.unplaced, Bool.and_eq_true, Verb.agreeAll_iff,
        Statement.agreeAll_eq_agreePairwise, agreePairwise_iff body body' ih,
        Statement.unplacedAll_eq_map, Statement.nested.injEq, and_true]

/-- Queries agree exactly if they are equal without places. -/
theorem Query.agrees_iff (a b : Query) : a.agrees b = true ↔ a.unplaced = b.unplaced := by
  simp only [Query.agrees, Statement.agreeAll_eq_agreePairwise, Query.unplaced, Query.mk.injEq,
    agreePairwise_iff _ _ fun a _ b => Statement.agrees_iff a b, Statement.unplacedAll_eq_map,
    and_true]

end ScopedQuery
