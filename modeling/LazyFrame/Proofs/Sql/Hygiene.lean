import LazyFrame.Proofs.Scope.Session
import LazyFrame.Proofs.Sql.Writable

/-!
# Alias hygiene

A FROM gives an alias to each of its items (`FromItem.owners`), and the subqueries in it give
aliases to theirs (`FromItem.nested`). The statement of a well-formed query is *hygienic*
(`Statement.Hygienic`): it has one alias for every table and subquery, no alias twice, and every
column that a SELECT prints carries the alias that the FROM of this very SELECT gives to the
relation the column belongs to.

The proof goes down the source together with its FROM item. `Source.Resolved` is what holds of
every pair: the aliases of subqueries are drawn from the supply between the numbers before and
after, and the items of the SELECT itself have the aliases of its scope. That a scope is the visible
relations beside the aliases of the FROM, in this order, is only known once both are there
(`Scope.owners_eq`); it is where binding and printing meet.
-/

namespace LazyFrame

/-! ## What a statement prints -/

/-- The columns a term prints, from left to right: an alias and a name each. A text that was handed
in prints none. -/
def Term.columns : Term → List (String × String)
  | column owner name => [(owner, name)]
  | binary _ left right => left.columns ++ right.columns
  | unary _ operand => operand.columns
  | aggregate _ operand => operand.columns
  | literal _ | countRows | ready _ _ => []

/-- The columns that the outputs and the WHERE of a SELECT print. -/
def Clauses.columns (c : Clauses) : List (String × String) :=
  c.fields.flatMap (·.term.columns) ++ c.filter?.toList.flatMap Term.columns

/-- The columns that a conjunct of an ON prints. -/
def Conjunct.columns : Conjunct → List (String × String)
  | equal left right => left.columns ++ right.columns
  | holds term => term.columns

/-- The columns that the outputs and the filter of a selection refer to. -/
def Selection.columns (s : Selection) : List ColumnRef :=
  s.outputs.flatMap (·.expr.columns) ++ s.filter?.toList.flatMap Expr.columns

/-- The columns that a join key refers to. -/
def JoinKey.columns (key : JoinKey) : List ColumnRef := key.left.columns ++ key.right.columns

namespace FromItem

/-- The aliases of the items of a FROM, in order. -/
def owners : FromItem → List String
  | table _ owner => [owner]
  | select _ _ owner => [owner]
  | join _ left right _ => left.owners ++ right.owners

/-- The aliases that the subqueries of a FROM introduce, at any depth. -/
def nested : FromItem → List String
  | table _ _ => []
  | select _ source _ => source.owners ++ source.nested
  | join _ left right _ => left.nested ++ right.nested

/-- All aliases that a FROM introduces. -/
def aliases (item : FromItem) : List String := item.owners ++ item.nested

end FromItem

/-- The number of tables and subqueries in the FROM of a source, at any depth. -/
def Source.itemCount : Source → Nat
  | table _ _ _ => 1
  | derived _ source _ => source.itemCount + 1
  | join left right _ _ _ => left.itemCount + right.itemCount

/-! ## Hygiene -/

/-- The columns that are printed for references carry the aliases that a scope gives to their
relations. -/
def Scope.Prints (scope : Scope) (refs : List ColumnRef)
    (printed : List (String × String)) : Prop :=
  List.Forall₂ (fun ref column => scope.lookup ref.relation = some column.1 ∧
    column.2 = ref.name) refs printed

/-- The item of every table and subquery has the alias of its relation, and the ON of a join prints
the aliases of the scope. Inside a subquery the scope is that of its own FROM: the relations it
reads beside the aliases it gives them. -/
def Source.Hygienic (scope : Scope) : Source → FromItem → Prop
  | table id name columns, .table shown owner =>
    shown = name ∧ scope.lookup ⟨id, .table name, columns⟩ = some owner
  | derived id source selection, .select clauses item owner =>
    scope.lookup ⟨id, .derived, selection.names⟩ = some owner ∧
      Scope.Prints (source.visible.zip item.owners) selection.columns clauses.columns ∧
      source.Hygienic (source.visible.zip item.owners) item
  | join left right kind keys condition?, .join shown l r conjuncts =>
    shown = kind ∧ left.Hygienic scope l ∧ right.Hygienic scope r ∧
      scope.Prints (keys.flatMap JoinKey.columns ++ condition?.toList.flatMap Expr.columns)
        (conjuncts.flatMap Conjunct.columns)
  | _, _ => False

/-- A statement has one alias for each table and subquery of its query and none twice, and every
SELECT in it prints the aliases of its own FROM. -/
structure Statement.Hygienic (q : Query) (s : Statement) : Prop where
  one_each : s.source.aliases.length = q.source.itemCount
  owners_length : s.source.owners.length = q.source.visible.length
  nodup : s.source.aliases.Nodup
  columns :
  Scope.Prints (q.source.visible.zip s.source.owners) q.selection.columns s.clauses.columns
  source : q.source.Hygienic (q.source.visible.zip s.source.owners) s.source

/-! ## Printing -/

namespace Scope

variable {scope : Scope}

theorem Prints.append {refs refs' : List ColumnRef} {printed printed' : List (String × String)}
    (h : scope.Prints refs printed) (h' : scope.Prints refs' printed') :
    scope.Prints (refs ++ refs') (printed ++ printed') :=
  List.rel_append h h'

/-- What is printed piece by piece is printed. -/
theorem prints_flatMap {α β : Type} {R : α → β → Prop} {f : α → List ColumnRef}
    {g : β → List (String × String)} {as : List α} {bs : List β} (h : List.Forall₂ R as bs)
    (hR : ∀ a b, R a b → scope.Prints (f a) (g b)) :
    scope.Prints (as.flatMap f) (bs.flatMap g) := by
  induction h with
  | nil => exact .nil
  | cons hfirst _ ih => exact (hR _ _ hfirst).append ih

end Scope

section Printing

variable {scope : Scope}

/-- A term prints the columns of its expression, in the same order. -/
theorem Expr.prints {e : Expr} {t : Term} (h : e.resolve scope = .ok t) :
    scope.Prints e.columns t.columns := by
  -- the induction is on the expression; resolution goes through it in the order of its columns
  induction e generalizing t with
  | column r name =>
    obtain ⟨owner, howner, h⟩ := Attempt.bind_eq_ok.mp h
    split at h
    · cases h
      exact .cons ⟨Scope.owner_eq_ok_iff.mp howner, rfl⟩ .nil
    · cases h
  | literal v =>
    obtain ⟨_, _, h⟩ := Attempt.bind_eq_ok.mp h
    cases h
    exact .nil
  | binary op l r ihl ihr =>
    obtain ⟨tl, htl, h⟩ := Attempt.bind_eq_ok.mp h
    obtain ⟨tr, htr, h⟩ := Attempt.bind_eq_ok.mp h
    cases h
    exact (ihl htl).append (ihr htr)
  | unary op e ih | aggregate fn e ih =>
    obtain ⟨t', ht', h⟩ := Attempt.bind_eq_ok.mp h
    cases h
    have hoperand := ih ht'
    exact hoperand
  | countRows =>
    cases h
    exact .nil
  | given v =>
    obtain ⟨_, _, h⟩ := Attempt.bind_eq_ok.mp h
    cases h
    exact .nil

theorem Output.prints {o : Output} {f : Field} (h : o.resolve scope = .ok f) :
    scope.Prints o.expr.columns f.term.columns := by
  obtain ⟨t, ht, h⟩ := Attempt.bind_eq_ok.mp h
  cases h
  exact Expr.prints ht

theorem JoinKey.prints {key : JoinKey} {c : Conjunct} (h : key.resolve scope = .ok c) :
    scope.Prints key.columns c.columns := by
  obtain ⟨l, hl, h⟩ := Attempt.bind_eq_ok.mp h
  obtain ⟨r, hr, h⟩ := Attempt.bind_eq_ok.mp h
  cases h
  exact (Expr.prints hl).append (Expr.prints hr)

theorem Source.prints_condition {condition? : Option Expr} {cs : List Conjunct}
    (h : resolveCondition scope condition? = .ok cs) :
    scope.Prints (condition?.toList.flatMap Expr.columns) (cs.flatMap Conjunct.columns) := by
  cases condition? with
  | none =>
    cases h
    exact .nil
  | some e =>
    obtain ⟨t, ht, h⟩ := Attempt.bind_eq_ok.mp h
    cases h
    simpa [Conjunct.columns] using Expr.prints ht

theorem Selection.prints_filter {s : Selection} {filter? : Option Term}
    (h : s.resolveFilter scope = .ok filter?) :
    scope.Prints (s.filter?.toList.flatMap Expr.columns) (filter?.toList.flatMap Term.columns) := by
  unfold resolveFilter at h
  cases hfilter : s.filter? with
  | none =>
    rw [hfilter] at h
    cases h
    exact .nil
  | some e =>
    simp only [hfilter, Attempt.error_bind, Attempt.guard_eq_ok, Attempt.bind_eq_ok] at h
    obtain ⟨_, t, ht, h⟩ := h
    cases h
    simpa using Expr.prints ht

end Printing

/-! ## The source and its FROM -/

/-- What holds of a source and the FROM item it becomes between two numbers of the supply. -/
structure Source.Resolved (scope : Scope) (n n' : Nat) (s : Source) (item : FromItem) : Prop where
  le : n ≤ n'
  nested : Alias.Drawn n n' item.nested
  owners : List.Forall₂ (fun r owner => scope.lookup r = some owner) s.visible item.owners
  count : item.aliases.length = s.itemCount
  hygienic : s.Hygienic scope item

/-- A list of different relations beside a list of names pairs each with its own. -/
theorem Scope.forall₂_lookup_zip {relations : List Relation} {names : List String}
    (hnodup : relations.Nodup) (hlength : names.length = relations.length) :
    List.Forall₂ (fun r name => (relations.zip names).lookup r = some name) relations names := by
  induction relations generalizing names with
  | nil =>
    rw [List.length_eq_zero_iff.mp hlength]
    exact .nil
  | cons r rest ih =>
    obtain ⟨hr, hrest⟩ := List.nodup_cons.mp hnodup
    cases names with
    | nil => cases hlength
    | cons name names =>
      have hothers : ∀ other ∈ rest, other ≠ r := fun other hother h => hr (h ▸ hother)
      have htail := (List.forall₂_and_left _ _).mpr ⟨hothers, ih hrest (Nat.succ.inj hlength)⟩
      refine .cons (by simp) (htail.imp fun other name ⟨hne, hlookup⟩ => ?_)
      rw [List.zip_cons_cons, List.lookup_cons, beq_false_of_ne hne]
      exact hlookup

/-- The FROM of a SELECT gives its relations the aliases they are bound to. -/
theorem Scope.owners_eq {relations : List Relation} {names owners : List String}
    (hnodup : relations.Nodup) (hlength : names.length = relations.length)
    (h : List.Forall₂ (fun r owner => (relations.zip names).lookup r =
      some owner) relations owners) :
    owners = names :=
  List.right_unique_forall₂' (fun _ _ _ h h' => Option.some.inj (h.symm.trans h')) h
    (Scope.forall₂_lookup_zip hnodup hlength)

/-- A SELECT in the middle of the supply: its clauses print the aliases of its FROM, and all aliases
are drawn here. -/
structure Selection.Resolved (n n' : Nat) (source : Source) (selection : Selection)
    (clauses : Clauses) (item : FromItem) : Prop where
  le : n ≤ n'
  aliases : Alias.Drawn n n' item.aliases
  owners_length : item.owners.length = source.visible.length
  count : item.aliases.length = source.itemCount
  columns : Scope.Prints (source.visible.zip item.owners) selection.columns clauses.columns
  hygienic : source.Hygienic (source.visible.zip item.owners) item

/-- The aliases of a SELECT are drawn before those of its subqueries. -/
theorem Selection.resolved {source : Source} {selection : Selection} {n n' : Nat}
    {clauses : Clauses} {item : FromItem} (hnodup : source.visible.Nodup)
    (hsource : ∀ {scope : Scope} {n n' : Nat} {item : FromItem},
      source.resolve scope n = .ok (item, n') → source.Resolved scope n n' item)
    (h : selection.resolve source.visible source.resolve n = .ok (clauses, item, n')) :
    selection.Resolved n n' source clauses item := by
  obtain ⟨_, fields, filter?, hfields, hitem, hfilter, _, rfl⟩ := Selection.resolve_eq_ok.mp h
  rw [Scope.bindAll_nil hnodup] at hfields hitem hfilter
  have hlength := Alias.length_take source.visible.length n
  have hresolved := hsource hitem
  -- the FROM gives the very aliases that the scope was bound to before it was made
  have howners := Scope.owners_eq hnodup hlength hresolved.owners
  have houtputs : Scope.Prints (source.visible.zip item.owners)
      (selection.outputs.flatMap (·.expr.columns)) (fields.flatMap (·.term.columns)) := by
    rw [howners]
    exact Scope.prints_flatMap (Attempt.mapM_eq_ok.mp hfields) fun _ _ => Output.prints
  have hdrawn := Alias.drawn_take source.visible.length n
  have hadvance := Alias.le_advance source.visible.length n
  refine ⟨Nat.le_trans hadvance hresolved.le, ?_, by rw [howners, hlength], hresolved.count, ?_, ?_⟩
  · rw [FromItem.aliases, howners]
    exact hdrawn.append hresolved.nested hadvance hresolved.le
  · rw [howners] at houtputs ⊢
    exact houtputs.append (Selection.prints_filter hfilter)
  · rw [howners]
    exact hresolved.hygienic

/-- The FROM of a well-formed source, by induction over the source. -/
theorem Source.resolved {s : Source} (h : s.WellFormed) {scope : Scope} {n n' : Nat}
    {item : FromItem} (hr : s.resolve scope n = .ok (item, n')) : s.Resolved scope n n' item := by
  induction s generalizing scope n n' item with
  | table id name columns =>
    obtain ⟨owner, howner, hr⟩ := Attempt.bind_eq_ok.mp hr
    cases hr
    have hlookup := Scope.owner_eq_ok_iff.mp howner
    exact ⟨Nat.le_refl n, .nil, .cons hlookup .nil, rfl, rfl, hlookup⟩
  | derived id source selection ih =>
    obtain ⟨hsource, hnodup, _⟩ := h
    obtain ⟨⟨clauses, inner, m⟩, hinner, hr⟩ := Attempt.bind_eq_ok.mp hr
    obtain ⟨owner, howner, hr⟩ := Attempt.bind_eq_ok.mp hr
    cases hr
    have hlookup := Scope.owner_eq_ok_iff.mp howner
    -- all aliases of the subquery become nested ones; its own is that of the outer scope
    have hresolved := Selection.resolved hnodup (ih hsource) hinner
    refine ⟨hresolved.le, hresolved.aliases, .cons hlookup .nil, ?_, hlookup, hresolved.columns,
      hresolved.hygienic⟩
    exact congrArg (· + 1) hresolved.count
  | join left right kind keys condition? ihl ihr =>
    obtain ⟨hl, hr', _⟩ := h
    obtain ⟨⟨l, n₁⟩, hleft, hr⟩ := Attempt.bind_eq_ok.mp hr
    obtain ⟨⟨r, n₂⟩, hright, hr⟩ := Attempt.bind_eq_ok.mp hr
    obtain ⟨equalities, hequalities, hr⟩ := Attempt.bind_eq_ok.mp hr
    obtain ⟨extra, hextra, hr⟩ := Attempt.bind_eq_ok.mp hr
    cases hr
    -- the subqueries on the right draw from where those on the left have stopped
    have hleft := ihl hl hleft
    have hright := ihr hr' hright
    refine ⟨Nat.le_trans hleft.le hright.le, hleft.nested.append hright.nested hleft.le hright.le,
      List.rel_append hleft.owners hright.owners, ?_, rfl, hleft.hygienic, hright.hygienic, ?_⟩
    · have hcountl := hleft.count
      have hcountr := hright.count
      simp only [FromItem.aliases, FromItem.owners, FromItem.nested, List.length_append,
        itemCount] at *
      omega
    · rw [List.flatMap_append]
      exact (Scope.prints_flatMap (Attempt.mapM_eq_ok.mp hequalities) fun _ _ =>
        JoinKey.prints).append (prints_condition hextra)

/-! ## Statements -/

/-- The statement of a query whose columns are in scope is hygienic; the outputs may be
aggregates. -/
theorem Query.hygienic_statement {q : Query} (hsource : q.source.WellFormed)
    (hnodup : q.source.visible.Nodup) {s : Statement} (hs : q.statement = .ok s) :
    s.Hygienic q := by
  obtain ⟨⟨clauses, item, n⟩, h, hs⟩ := Attempt.bind_eq_ok.mp hs
  cases hs
  have hresolved := Selection.resolved hnodup (Source.resolved hsource) h
  exact ⟨hresolved.count, hresolved.owners_length, hresolved.aliases.nodup, hresolved.columns,
    hresolved.hygienic⟩

/-- A well-formed query whose literals can be written is rendered, in every dialect, as a hygienic
statement. -/
theorem Query.WellFormed.hygienic {q : Query} (h : q.WellFormed) (hw : q.IsWritable) :
    ∃ s, q.statement = .ok s ∧ (∀ d, q.sql d = .ok (s.text d)) ∧ s.Hygienic q := by
  obtain ⟨s, hs⟩ := (Query.exists_statement_iff h.source h.visible_nodup h.selection.inScope).mpr hw
  refine ⟨s, hs, fun d => ?_, Query.hygienic_statement h.source h.visible_nodup hs⟩
  rw [sql, hs, Attempt.ok_bind]

/-- The distinct tracks merged with themselves: two subqueries and a table in each of them. -/
theorem Query.WellFormed.hygienic_selfMerge : ∃ (q : Query) (s : Statement),
    q.WellFormed ∧ q.IsWritable ∧ q.statement = .ok s ∧ s.source.aliases.length = 4 ∧
    s.Hygienic q := by
  have hdistinct := Session.step Session.tracks (.distinct (.head _) rfl)
  have hmerge := Session.step hdistinct
    (@Step.merge _ _ _ _ ⟨some ["TrackId"], none, none, none⟩ _ _ (.head _) (.head _) rfl)
  have hwf := ((hmerge.wellFormed Catalog.wellFormed_music).2 _ (.head _)).1
  have hw :=
    (Query.exists_statement_iff hwf.source hwf.visible_nodup hwf.selection.inScope).mp ⟨_, rfl⟩
  obtain ⟨s, hs, _, hygienic⟩ := Query.WellFormed.hygienic hwf hw
  refine ⟨_, s, hwf, hw, hs, ?_, hygienic⟩
  obtain rfl := Except.ok.inj hs
  rfl

end LazyFrame
