import Mathlib.Data.List.Dedup
import LazyFrame.Proofs.Sql.Hygiene

/-!
# What a statement draws

`Statement.aliases` are all aliases that a statement prints: those behind the items of its FROM, at
any depth, and those in front of the columns of every SELECT and every join. They are the first
words of the supply, as many as there are different ones (`Query.mem_aliases_iff`). This holds of
every query that has a statement, well formed or not: a relation that is read twice only means that
an alias is printed twice.

The proof goes down the source. A SELECT binds the relations it reads and draws an alias for each
one that is new (`Scope.bindAll_draws`), and then its subqueries draw from where it has stopped
(`Alias.DrawnAll.append`). A column prints what a scope has bound, so it adds no alias to those of
the FROM.
-/

namespace LazyFrame

namespace Alias

theorem advance_add (a b n : Nat) : advance (a + b) n = advance b (advance a n) := by
  induction a generalizing n with
  | zero => rw [Nat.zero_add, advance]
  | succ a ih => rw [Nat.succ_add, advance, advance, ih]

theorem take_add (a b n : Nat) : take (a + b) n = take a n ++ take b (advance a n) := by
  induction a generalizing n with
  | zero => rw [Nat.zero_add, advance, take, List.nil_append]
  | succ a ih => rw [Nat.succ_add, take, advance, take, ih, List.cons_append]

/-- These words, in any order, are all that is drawn from one number up to another. -/
def DrawnAll (first last : Nat) (words : List String) : Prop :=
  ∃ count, last = advance count first ∧ ∀ w, w ∈ words ↔ w ∈ take count first

namespace DrawnAll

variable {a b c : Nat} {xs ys : List String}

theorem nil : DrawnAll a a [] := ⟨0, rfl, fun _ => Iff.rfl⟩

theorem append (hx : DrawnAll a b xs) (hy : DrawnAll b c ys) : DrawnAll a c (xs ++ ys) := by
  obtain ⟨k, rfl, hk⟩ := hx
  obtain ⟨l, rfl, hl⟩ := hy
  refine ⟨k + l, (advance_add k l a).symm, fun w => ?_⟩
  rw [List.mem_append, hk, hl, take_add, List.mem_append]

end DrawnAll

end Alias

/-! ## Scopes -/

namespace Scope

variable {scope : Scope} {relations : List Relation} {n : Nat}

theorem lookup_bindAll {r : Relation} {w : String} (h : scope.lookup r = some w) :
    (scope.bindAll relations n).1.lookup r = some w := by
  induction relations generalizing scope n with
  | nil => exact h
  | cons first rest ih =>
    have hbind : (scope.bind first n).1.lookup r = some w := by
      unfold bind
      cases scope.lookup first with
      | some _ => exact h
      | none => rw [List.lookup_append, h, Option.some_or]
    exact ih hbind

/-- Binding draws one alias for every relation that is new, and no other. -/
theorem bindAll_draws (scope : Scope) (relations : List Relation) (n : Nat) :
    ∃ count, (scope.bindAll relations n).2 = Alias.advance count n ∧
      ∀ w, w ∈ Alias.take count n ↔
        ∃ r ∈ relations, scope.lookup r = none ∧
          (scope.bindAll relations n).1.lookup r = some w := by
  -- the induction is on the relations; the scope and the counter grow with each new one
  induction relations generalizing scope n with
  | nil => exact ⟨0, rfl, fun w => by simp [Alias.take]⟩
  | cons first rest ih =>
    cases hfirst : scope.lookup first with
    | some other =>
      have hbind : scope.bind first n = (scope, n) := by rw [bind, hfirst]
      obtain ⟨count, hcount, hmem⟩ := ih scope n
      have hall : scope.bindAll (first :: rest) n = scope.bindAll rest n := by rw [bindAll, hbind]
      rw [hall]
      refine ⟨count, hcount, fun w => (hmem w).trans ⟨?_, ?_⟩⟩
      · rintro ⟨r, hr, hnew, hlookup⟩
        exact ⟨r, List.mem_cons_of_mem _ hr, hnew, hlookup⟩
      · rintro ⟨r, hr, hnew, hlookup⟩
        have hne : r ≠ first := by
          rintro rfl
          rw [hfirst] at hnew
          cases hnew
        exact ⟨r, List.mem_of_ne_of_mem hne hr, hnew, hlookup⟩
    | none =>
      have hbind : scope.bind first n =
          (scope ++ [(first, Alias.word (Alias.next n))], Alias.next n + 1) := by
        rw [bind, hfirst]
      obtain ⟨count, hcount, hmem⟩ :=
        ih (scope ++ [(first, Alias.word (Alias.next n))]) (Alias.next n + 1)
      have hall : scope.bindAll (first :: rest) n =
          bindAll (scope ++ [(first, Alias.word (Alias.next n))]) rest (Alias.next n + 1) := by
        rw [bindAll, hbind]
      -- no later binding takes this alias from its relation
      have hown : (bindAll (scope ++ [(first, Alias.word (Alias.next n))]) rest
          (Alias.next n + 1)).1.lookup first = some (Alias.word (Alias.next n)) :=
        lookup_bindAll (by rw [List.lookup_append, hfirst]; simp)
      rw [hall]
      refine ⟨count + 1, hcount, fun w => ?_⟩
      rw [Alias.take, List.mem_cons, hmem]
      constructor
      · rintro (rfl | ⟨r, hr, hnew, hlookup⟩)
        · exact ⟨first, List.mem_cons_self .., hfirst, hown⟩
        · rw [List.lookup_append, Option.or_eq_none_iff] at hnew
          exact ⟨r, List.mem_cons_of_mem _ hr, hnew.1, hlookup⟩
      · rintro ⟨r, hr, hnew, hlookup⟩
        by_cases hsame : r = first
        · rw [hsame, hown] at hlookup
          exact .inl (Option.some.inj hlookup).symm
        · refine .inr ⟨r, List.mem_of_ne_of_mem hsame hr, ?_, hlookup⟩
          rw [List.lookup_append, hnew]
          simp [hsame]

/-- Nothing else is bound. -/
theorem lookup_or_mem_of_bindAll {r : Relation} {w : String}
    (h : (scope.bindAll relations n).1.lookup r = some w) :
    scope.lookup r = some w ∨ r ∈ relations := by
  induction relations generalizing scope n with
  | nil => exact .inl h
  | cons first rest ih =>
    by_cases hsame : r = first
    · exact .inr (hsame ▸ List.mem_cons_self ..)
    · have hbind : (scope.bind first n).1.lookup r = scope.lookup r := by
        unfold bind
        cases scope.lookup first with
        | some _ => rfl
        | none => simp [List.lookup_append, List.lookup_cons, beq_false_of_ne hsame]
      rcases ih h with hlookup | hmem
      · exact .inl (hbind ▸ hlookup)
      · exact .inr (List.mem_cons_of_mem _ hmem)

/-- The aliases of a new scope are those of its relations, and all that were drawn. -/
theorem exists_drawn (relations : List Relation) (n : Nat) :
    ∃ count, (Scope.bindAll [] relations n).2 = Alias.advance count n ∧
      (∀ w, w ∈ Alias.take count n ↔
        ∃ r ∈ relations, (Scope.bindAll [] relations n).1.lookup r = some w) ∧
      ∀ r w, (Scope.bindAll [] relations n).1.lookup r = some w → w ∈ Alias.take count n := by
  obtain ⟨count, hcount, hmem⟩ := bindAll_draws [] relations n
  have hmem' : ∀ w, w ∈ Alias.take count n ↔
      ∃ r ∈ relations, (Scope.bindAll [] relations n).1.lookup r = some w := by
    simpa using hmem
  refine ⟨count, hcount, hmem', fun r w h => (hmem' w).mpr ⟨r, ?_, h⟩⟩
  rcases lookup_or_mem_of_bindAll h with hnil | hr
  · cases hnil
  · exact hr

theorem Prints.exists_lookup {refs : List ColumnRef} {printed : List (String × String)}
    (h : scope.Prints refs printed) {column : String × String} (hcolumn : column ∈ printed) :
    ∃ r, scope.lookup r = some column.1 := by
  obtain ⟨ref, _, hlookup, _⟩ := Attempt.exists_of_mem_right h hcolumn
  exact ⟨ref.relation, hlookup⟩

end Scope

/-! ## Statements -/

/-- The columns that the SELECTs and the joins of a FROM print, at any depth. -/
def FromItem.columns : FromItem → List (String × String)
  | table _ _ => []
  | select clauses source _ => clauses.columns ++ source.columns
  | join _ left right conjuncts =>
    left.columns ++ right.columns ++ conjuncts.flatMap Conjunct.columns

/-- Every alias that a statement prints: behind an item of a FROM, or in front of a column. -/
def Statement.aliases (s : Statement) : List String :=
  s.source.aliases ++ (s.clauses.columns ++ s.source.columns).map (·.1)

/-- What a source draws between two numbers of the supply when it becomes a FROM item in a scope. -/
structure Source.Draws (scope : Scope) (n n' : Nat) (s : Source) (item : FromItem) : Prop where
  owners : ∀ w, w ∈ item.owners ↔ ∃ r ∈ s.visible, scope.lookup r = some w
  nested : Alias.DrawnAll n n' item.nested
  columns : ∀ column ∈ item.columns, (∃ r, scope.lookup r = some column.1) ∨ column.1 ∈ item.nested

/-- What a SELECT draws with everything in it. -/
structure Selection.Draws (n n' : Nat) (clauses : Clauses) (item : FromItem) : Prop where
  aliases : Alias.DrawnAll n n' item.aliases
  columns : ∀ column ∈ clauses.columns ++ item.columns, column.1 ∈ item.aliases

theorem Selection.draws {source : Source} {selection : Selection} {n n' : Nat} {clauses : Clauses}
    {item : FromItem} (hsource : ∀ {scope : Scope} {n n' : Nat} {item : FromItem},
      source.resolve scope n = .ok (item, n') → source.Draws scope n n' item)
    (h : selection.resolve source.visible source.resolve n = .ok (clauses, item, n')) :
    Selection.Draws n n' clauses item := by
  obtain ⟨_, fields, filter?, hfields, hitem, hfilter, _, rfl⟩ := Selection.resolve_eq_ok.mp h
  obtain ⟨count, hcount, hmem, hlookup⟩ := Scope.exists_drawn source.visible n
  have hdraws := hsource hitem
  have howners : ∀ w, w ∈ item.owners ↔ w ∈ Alias.take count n :=
    fun w => (hdraws.owners w).trans (hmem w).symm
  have hscope :
      ∀ column : String × String, (∃ r, (Scope.bindAll [] source.visible n).1.lookup r =
        some column.1) →
      column.1 ∈ item.aliases := by
    rintro column ⟨r, hr⟩
    exact List.mem_append_left _ ((howners _).mpr (hlookup r _ hr))
  have hprinted :=
    (Scope.prints_flatMap (Attempt.mapM_eq_ok.mp hfields) fun _ _ => Output.prints).append
    (Selection.prints_filter hfilter)
  refine ⟨Alias.DrawnAll.append ⟨count, hcount, howners⟩ hdraws.nested, fun column hcolumn => ?_⟩
  rcases List.mem_append.mp hcolumn with hclause | hitem
  · exact hscope column (hprinted.exists_lookup hclause)
  · rcases hdraws.columns column hitem with hvisible | hnested
    · exact hscope column hvisible
    · exact List.mem_append_right _ hnested

/-- By induction over the source. -/
theorem Source.draws {s : Source} {scope : Scope} {n n' : Nat} {item : FromItem}
    (hr : s.resolve scope n = .ok (item, n')) : s.Draws scope n n' item := by
  induction s generalizing scope n n' item with
  | table id name columns =>
    obtain ⟨owner, howner, hr⟩ := Attempt.bind_eq_ok.mp hr
    cases hr
    have hlookup := Scope.owner_eq_ok_iff.mp howner
    refine ⟨fun w => ?_, .nil, fun _ h => by cases h⟩
    simp [FromItem.owners, visible, hlookup, eq_comm]
  | derived id source selection ih =>
    obtain ⟨⟨clauses, inner, m⟩, hinner, hr⟩ := Attempt.bind_eq_ok.mp hr
    obtain ⟨owner, howner, hr⟩ := Attempt.bind_eq_ok.mp hr
    cases hr
    have hlookup := Scope.owner_eq_ok_iff.mp howner
    have hdraws := Selection.draws (fun h => ih h) hinner
    refine ⟨fun w => ?_, hdraws.aliases, fun column hcolumn => .inr (hdraws.columns column hcolumn)⟩
    simp [FromItem.owners, visible, hlookup, eq_comm]
  | join left right kind keys condition? ihl ihr =>
    obtain ⟨⟨l, n₁⟩, hleft, hr⟩ := Attempt.bind_eq_ok.mp hr
    obtain ⟨⟨r, n₂⟩, hright, hr⟩ := Attempt.bind_eq_ok.mp hr
    obtain ⟨equalities, hequalities, hr⟩ := Attempt.bind_eq_ok.mp hr
    obtain ⟨extra, hextra, hr⟩ := Attempt.bind_eq_ok.mp hr
    cases hr
    have hl := ihl hleft
    have hr := ihr hright
    have hprinted :=
      (Scope.prints_flatMap (Attempt.mapM_eq_ok.mp hequalities) fun _ _ => JoinKey.prints).append
      (prints_condition hextra)
    refine ⟨fun w => ?_, hl.nested.append hr.nested, fun column hcolumn => ?_⟩
    · -- the join shows what its sides show
      simp only [FromItem.owners, visible, List.mem_append, hl.owners, hr.owners,
        or_and_right, exists_or]
    · simp only [FromItem.columns, FromItem.nested, List.flatMap_append,
        List.mem_append] at hcolumn ⊢
      rcases hcolumn with (hleft | hright) | hkeys
      · exact (hl.columns column hleft).imp_right .inl
      · exact (hr.columns column hright).imp_right .inr
      · -- the condition is printed in the scope of the join itself
        exact .inl (hprinted.exists_lookup (List.mem_append.mpr hkeys))

/-- The aliases of a statement are the first ones of the supply, as many as it has different
ones. -/
theorem Query.mem_aliases_iff {q : Query} {s : Statement} (hs : q.statement = .ok s) (w : String) :
    w ∈ s.aliases ↔ w ∈ Alias.take s.source.aliases.dedup.length 1 := by
  obtain ⟨⟨clauses, item, n⟩, h, hs⟩ := Attempt.bind_eq_ok.mp hs
  cases hs
  obtain ⟨⟨count, _, hmem⟩, hcolumns⟩ := Selection.draws (fun h => Source.draws h) h
  have hperm : item.aliases.dedup.Perm (Alias.take count 1) := by
    refine (List.perm_ext_iff_of_nodup (List.nodup_dedup _) (Alias.drawn_take count 1).nodup).mpr
      fun w => ?_
    rw [List.mem_dedup, hmem]
  rw [hperm.length_eq, Alias.length_take, ← hmem, Statement.aliases, List.mem_append]
  refine ⟨fun h => h.elim id fun h => ?_, .inl⟩
  obtain ⟨column, hcolumn, rfl⟩ := List.mem_map.mp h
  exact hcolumns column hcolumn

end LazyFrame
