import LazyFrame.Proofs.Scope.Session
import LazyFrame.Proofs.Sql.Writable

/-!
# The early check and the resolution of an expression

What an expression refers to is looked at twice: when an operation takes it (`Query.checkScope`),
and when its term is made in the scope of a SELECT (`Expr.resolve`). The first goes over the list of
its columns, the second down the expression. As far as columns are concerned the second is a walk
over the same list (`Expr.resolve_walks_columns`), so in a scope that knows exactly what the query
shows both stop at the same column (`Query.checkScope_agrees_with_resolve`).
-/

namespace LazyFrame

/-! ## Scopes that know certain relations -/

namespace Scope

/-- Exactly these relations have an alias. -/
def Binds (scope : Scope) (relations : List Relation) : Prop :=
  ∀ r, (scope.lookup r).isSome ↔ r ∈ relations

theorem Binds.bind {scope : Scope} {relations : List Relation} (h : scope.Binds relations)
    (r : Relation) (n : Nat) : (scope.bind r n).1.Binds (relations ++ [r]) := by
  intro s
  rw [List.mem_append, List.mem_singleton, ← h s]
  unfold Scope.bind
  cases hr : scope.lookup r with
  | some name =>
    -- it is bound already, so it is among the relations
    constructor
    · exact .inl
    · intro hs
      rcases hs with hs | rfl
      · exact hs
      · simp [hr]
  | none =>
    have hnew : ([(r, Alias.word (Alias.next n))] : Scope).lookup s = none ↔ s ≠ r := by
      simp [List.lookup_eq_none_iff]
    rw [List.lookup_append, Option.isSome_or, Bool.or_eq_true]
    refine or_congr_right ?_
    rw [← not_iff_not, Option.not_isSome_iff_eq_none, hnew]

theorem Binds.bindAll {scope : Scope} {relations : List Relation} (h : scope.Binds relations)
    (rs : List Relation) (n : Nat) : (scope.bindAll rs n).1.Binds (relations ++ rs) := by
  induction rs generalizing scope relations n with
  | nil => rwa [List.append_nil]
  | cons r rest ih =>
    have hrest := ih (h.bind r n) (scope.bind r n).2
    rwa [List.append_assoc] at hrest

theorem binds_nil : Binds [] [] := by
  intro r
  simp

/-- The scope of a SELECT knows what its source shows. -/
theorem binds_bindAll (relations : List Relation) (n : Nat) :
    (Scope.bindAll [] relations n).1.Binds relations :=
  binds_nil.bindAll relations n

/-- The check of one column in a scope. -/
def checkColumn (scope : Scope) (ref : ColumnRef) : Attempt Unit := do
  let _ ← scope.owner ref.relation
  if ref.relation.exposes ref.name then .ok ()
  else .error (.invalidExpression (.noColumn ref.name ref.relation.origin))

end Scope

/-! ## Expressions -/

/-- An expression of builders whose literals can be written fails to resolve only by its columns,
and by the first of them that does not pass. -/
theorem Expr.resolve_walks_columns (scope : Scope) {e : Expr} (hbuilt : e.isBuilt = true)
    (hwritable : e.IsWritable) :
    (e.resolve scope).map (fun _ => ()) = e.columns.forM scope.checkColumn := by
  induction e with
  | column r name =>
    change _ = (scope.checkColumn ⟨r, name⟩ >>= fun _ => .ok ())
    unfold resolve Scope.checkColumn
    cases scope.owner r with
    | error f => rfl
    | ok owner =>
      rw [Attempt.ok_bind, Attempt.ok_bind, Attempt.map_ite]
      split <;> rfl
  | literal v =>
    obtain ⟨text, htext⟩ := Dialect.exists_literal_iff.mpr hwritable
    rw [resolve, htext]
    rfl
  | binary op l r ihl ihr =>
    -- the right operand is resolved only if the left one is, as the columns are walked
    obtain ⟨hl, hr⟩ := (Bool.and_eq_true ..).mp hbuilt
    rw [columns, Attempt.forM_append, ← ihl hl hwritable.1, ← ihr hr hwritable.2, resolve,
      Attempt.bind_map, Attempt.map_bind]
    refine congrArg _ (funext fun t => ?_)
    rw [Attempt.map_bind]
    cases r.resolve scope <;> rfl
  | unary op e ih | aggregate fn e ih =>
    rw [columns, ← ih hbuilt hwritable, resolve, Attempt.map_bind]
    cases e.resolve scope <;> rfl
  | countRows => rfl
  | given v => cases hbuilt

theorem Query.checkScope_of_built (q : Query) {e : Expr} (hbuilt : e.isBuilt = true) :
    q.checkScope e = e.columns.forM fun ref => q.checkReference (.known ref) := by
  rw [checkScope, Expr.references_of_isBuilt hbuilt, Attempt.ok_bind, Attempt.forM_map]

/-! ## Stray columns -/

/-- A column of a relation that is read, and one that the relation has. -/
def ColumnRef.isIn (relations : List Relation) (ref : ColumnRef) : Bool :=
  relations.contains ref.relation && ref.relation.exposes ref.name

/-- The first column of an expression, from left to right, that is not in scope. -/
def Expr.firstStray? (relations : List Relation) (e : Expr) : Option ColumnRef :=
  e.columns.find? fun ref => !ref.isIn relations

/-- What is wrong with a column that is not in scope, as the early check and as resolution say
it. -/
inductive ColumnRef.Strays (relations : List Relation) (ref : ColumnRef) :
    ExpressionFlaw → ExpressionFlaw → Prop where
  | foreign (hrelation : ref.relation ∉ relations) :
    Strays relations ref (.foreignColumn ref.name ref.relation.origin)
      (.notInQuery ref.relation.origin)
  | unknown (hrelation : ref.relation ∈ relations) (hname : ref.name ∉ ref.relation.columns) :
    Strays relations ref (.noColumn ref.name ref.relation.origin)
      (.noColumn ref.name ref.relation.origin)

section Agreement

variable {q : Query} {scope : Scope}

theorem checks_of_isIn (hscope : scope.Binds q.source.visible) {ref : ColumnRef}
    (h : ref.isIn q.source.visible = true) :
    q.checkReference (.known ref) = .ok () ∧ scope.checkColumn ref = .ok () := by
  obtain ⟨hrelation, hname⟩ := (Bool.and_eq_true ..).mp h
  have hmem : ref.relation ∈ q.source.visible := List.contains_iff_mem.mp hrelation
  obtain ⟨owner, howner⟩ := Option.isSome_iff_exists.mp ((hscope ref.relation).mpr hmem)
  refine ⟨Query.checkReference_eq_ok.mpr ⟨ref, rfl, hmem, List.contains_iff_mem.mp hname⟩, ?_⟩
  rw [Scope.checkColumn, Scope.owner, howner, Attempt.ok_bind, if_pos hname]

theorem checks_of_not_isIn (hscope : scope.Binds q.source.visible) {ref : ColumnRef}
    (h : ref.isIn q.source.visible = false) : ∃ early late, ref.Strays q.source.visible early late ∧
      q.checkReference (.known ref) = .error (.invalidExpression early) ∧
      scope.checkColumn ref = .error (.invalidExpression late) := by
  by_cases hrelation : ref.relation ∈ q.source.visible
  · have hname : ref.relation.exposes ref.name = false := by
      simpa [ColumnRef.isIn, hrelation] using h
    obtain ⟨owner, howner⟩ := Option.isSome_iff_exists.mp ((hscope ref.relation).mpr hrelation)
    refine ⟨_, _, .unknown hrelation (by simpa [Relation.exposes] using hname), ?_, ?_⟩
    · simp [Query.checkReference, hrelation, hname]
    · simp [Scope.checkColumn, Scope.owner, howner, hname]
  · have hnone : scope.lookup ref.relation = none := by
      rw [← Option.not_isSome_iff_eq_none, hscope]
      exact hrelation
    refine ⟨_, _, .foreign hrelation, ?_, ?_⟩
    · simp [Query.checkReference, hrelation]
    · simp [Scope.checkColumn, Scope.owner, hnone]

/-- Both walks end at the first stray column, or both get to the end. -/
theorem Expr.checks_cases (hscope : scope.Binds q.source.visible) {e : Expr}
    (hbuilt : e.isBuilt = true) (hwritable : e.IsWritable) :
    (q.checkScope e = .ok () ∧ ∃ t, e.resolve scope = .ok t) ∨
      ∃ ref early late, e.firstStray? q.source.visible = some ref ∧
        ref.Strays q.source.visible early late ∧
        q.checkScope e = .error (.invalidExpression early) ∧
        e.resolve scope = .error (.invalidExpression late) := by
  have hwalk := Expr.resolve_walks_columns scope hbuilt hwritable
  rw [q.checkScope_of_built hbuilt]
  -- both checks walk the same columns, so the first stray one decides both
  cases hstray : e.firstStray? q.source.visible with
  | none =>
    have hall : ∀ ref ∈ e.columns, ref.isIn q.source.visible = true := by
      simpa [firstStray?] using hstray
    have hlate : e.columns.forM scope.checkColumn = .ok () :=
      Attempt.forM_eq_ok.mpr fun ref href => (checks_of_isIn hscope (hall ref href)).2
    refine .inl
      ⟨Attempt.forM_eq_ok.mpr fun ref href => (checks_of_isIn hscope (hall ref href)).1, ?_⟩
    cases hresolve : e.resolve scope with
    | ok t => exact ⟨t, rfl⟩
    | error f =>
      rw [hresolve, hlate] at hwalk
      cases hwalk
  | some ref =>
    obtain ⟨hout, before, after, hcolumns, hbefore⟩ := List.find?_eq_some_iff_append.mp hstray
    have hpass : ∀ c ∈ before, c.isIn q.source.visible = true := fun c hc => by
      simpa using hbefore c hc
    have hstray : ref.isIn q.source.visible = false := by simpa using hout
    obtain ⟨early, late, hstrays, hearly, hlate⟩ := checks_of_not_isIn hscope hstray
    have hchecked : e.columns.forM (fun ref => q.checkReference (.known ref)) =
        .error (.invalidExpression early) :=
      Attempt.forM_eq_error.mpr
        ⟨before, ref, after, hcolumns, fun c hc => (checks_of_isIn hscope (hpass c hc)).1, hearly⟩
    have hwalked : e.columns.forM scope.checkColumn = .error (.invalidExpression late) :=
      Attempt.forM_eq_error.mpr
        ⟨before, ref, after, hcolumns, fun c hc => (checks_of_isIn hscope (hpass c hc)).2, hlate⟩
    refine .inr ⟨ref, early, late, rfl, hstrays, hchecked, ?_⟩
    cases hresolve : e.resolve scope with
    | ok t =>
      rw [hresolve, hwalked] at hwalk
      cases hwalk
    | error f =>
      rw [hresolve, hwalked] at hwalk
      cases hwalk
      rfl

/-- An expression is refused early exactly when it cannot be resolved where the relations of the
query are in scope, both times as an invalid expression and because of its first stray column. -/
theorem Query.checkScope_agrees_with_resolve (hscope : scope.Binds q.source.visible) {e : Expr}
    (hbuilt : e.isBuilt = true) (hwritable : e.IsWritable) :
    ((∃ f, q.checkScope e = .error f) ↔ ∃ g, e.resolve scope = .error g) ∧
      ∀ f g, q.checkScope e = .error f → e.resolve scope = .error g →
        ∃ ref early late, e.firstStray? q.source.visible = some ref ∧
          ref.Strays q.source.visible early late ∧
          f = .invalidExpression early ∧ g = .invalidExpression late := by
  obtain ⟨hchecked, t, hresolved⟩ | ⟨ref, early, late, hfirst, hstrays, hchecked, hresolved⟩ :=
    Expr.checks_cases hscope hbuilt hwritable
  · rw [hchecked, hresolved]
    refine ⟨⟨fun h => ?_, fun h => ?_⟩, fun f g hf => by cases hf⟩
    · obtain ⟨_, h⟩ := h
      cases h
    · obtain ⟨_, h⟩ := h
      cases h
  · rw [hchecked, hresolved]
    refine ⟨⟨fun _ => ⟨_, rfl⟩, fun _ => ⟨_, rfl⟩⟩, fun f g hf hg => ?_⟩
    cases hf
    cases hg
    exact ⟨ref, early, late, hfirst, hstrays, rfl, rfl⟩

end Agreement

/-- A track on an album of a table that is not read, without a rating, which no track has: two stray
columns. -/
def Expr.unrated : Expr :=
  .binary .and
    (.binary .eq (.column ⟨0, .table "tracks", ["TrackId", "AlbumId", "Name"]⟩ "AlbumId")
      (.column ⟨1, .table "albums", ["AlbumId", "Title"]⟩ "AlbumId"))
    (.unary .isNull (.column ⟨0, .table "tracks", ["TrackId", "AlbumId", "Name"]⟩ "Rating"))

theorem Query.checkScope_agrees_with_resolve_unrated : ∃ f g,
    (Scope.bindAll [] Plan.tracks.query.source.visible 1).1.Binds Plan.tracks.query.source.visible ∧
      Expr.unrated.isBuilt = true ∧ Expr.unrated.IsWritable ∧
      Plan.tracks.query.checkScope Expr.unrated = .error f ∧
      Expr.unrated.resolve (Scope.bindAll [] Plan.tracks.query.source.visible 1).1 = .error g ∧
      ∃ early late, ColumnRef.Strays Plan.tracks.query.source.visible
          ⟨⟨1, .table "albums", ["AlbumId", "Title"]⟩, "AlbumId"⟩ early late ∧
        f = .invalidExpression early ∧ g = .invalidExpression late := by
  have hscope := Scope.binds_bindAll Plan.tracks.query.source.visible 1
  have hwritable : Expr.unrated.IsWritable := ⟨⟨trivial, trivial⟩, trivial⟩
  obtain ⟨hiff, hsame⟩ :=
    Query.checkScope_agrees_with_resolve (q := Plan.tracks.query) hscope rfl hwritable
  have hearly : ∃ f, Plan.tracks.query.checkScope Expr.unrated = .error f := ⟨_, rfl⟩
  obtain ⟨f, hf⟩ := hearly
  obtain ⟨g, hg⟩ := hiff.mp ⟨f, hf⟩
  obtain ⟨ref, early, late, hfirst, hstrays, hflaw⟩ := hsame f g hf hg
  cases hfirst
  exact ⟨f, g, hscope, rfl, hwritable, hf, hg, early, late, hstrays, hflaw⟩

end LazyFrame
