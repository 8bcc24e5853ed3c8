import LazyFrame.Proofs.Scope.Preservation
import LazyFrame.Proofs.Sql.Scope

/-!
# What can be written

A literal can be written when it is nothing, a text, a truth value or a finite number
(`Value.isWritten`, `Dialect.exists_literal_iff`). A query is *writable* when all of its literals
are, in outputs, filters, keys and conditions and down into every subquery.

The main statement is `Query.exists_statement_iff`: when the columns of a query are in scope, it
has a statement exactly if it is writable. So nothing else can go wrong: no column is out of
scope, no SELECT is without outputs, no filter holds an aggregate, and no bound is left that cannot
be written. It is stated for queries whose outputs may be aggregates, so that it covers the counts
and the aggregates over a well-formed plan too.
-/

namespace LazyFrame

/-! ## Literals -/

/-- Whether a value can be written as a literal. -/
def Value.isWritten : Value → Bool
  | .null | .text _ | .bool _ | .integer _ => true
  | .number n => n.isFinite
  | _ => false

/-- A value that is no literal fails, whatever its text is. -/
theorem Dialect.not_literal_of_asText {v : Value} {t : String} (h : v.isWritten = false)
    (ht : Dialect.literal v = .ok t) : False := by
  have hother : ∀ {x : Attempt String},
      (x >>= fun shown => (.error (.invalidExpression (.nonFinite shown)) : Attempt String)) ≠
        .ok t := by
    intro x hx
    obtain ⟨_, _, hx⟩ := Attempt.bind_eq_ok.mp hx
    cases hx
  cases v with
  | null | text _ | bool _ | integer _ => cases h
  | number n =>
    cases n with
    | finite _ | negZero => cases h
    | nan | infinity _ => exact hother ht
  | missing | half _ | instant _ | list _ | record _ => exact hother ht

/-- A literal has a text exactly if its value is one that is written. -/
theorem Dialect.exists_literal_iff {v : Value} :
    (∃ t, Dialect.literal v = .ok t) ↔ v.isWritten = true := by
  constructor
  · intro h
    obtain ⟨t, ht⟩ := h
    cases h : v.isWritten
    · exact absurd ht (Dialect.not_literal_of_asText h)
    · rfl
  · intro h
    cases v with
    | null | text _ | bool _ | integer _ => exact ⟨_, rfl⟩
    | number n =>
      cases n with
      | finite _ | negZero => exact ⟨_, rfl⟩
      | nan | infinity _ => cases h
    | missing | half _ | instant _ | list _ | record _ => cases h

/-! ## Writable queries -/

/-- All literals of an expression can be written, and a value in the place of one has a text. -/
def Expr.IsWritable : Expr → Prop
  | .column _ _ => True
  | .literal v => v.isWritten = true
  | .binary _ l r => l.IsWritable ∧ r.IsWritable
  | .unary _ e => e.IsWritable
  | .aggregate _ e => e.IsWritable
  | .countRows => True
  | .given v => ∃ t, Given.text v = .ok t

theorem Expr.forall_isWritable_some {e : Expr} : (∀ e' ∈ some e, e'.IsWritable) ↔ e.IsWritable := by
  constructor
  · intro h
    exact h e rfl
  · intro h e' he'
    cases he'
    exact h

/-- All outputs and the filter can be written. -/
structure Selection.IsWritable (s : Selection) : Prop where
  outputs : ∀ o ∈ s.outputs, o.expr.IsWritable
  filter : ∀ e ∈ s.filter?, e.IsWritable

/-- All subqueries can be written, and all keys and conditions of joins. -/
def Source.IsWritable : Source → Prop
  | .table _ _ _ => True
  | .derived _ source selection => source.IsWritable ∧ selection.IsWritable
  | .join left right _ keys condition? =>
    left.IsWritable ∧ right.IsWritable ∧
    (∀ key ∈ keys, key.left.IsWritable ∧ key.right.IsWritable) ∧
      ∀ e ∈ condition?, e.IsWritable

/-- The source and the selection of a query can be written. -/
structure Query.IsWritable (q : Query) : Prop where
  source : q.source.IsWritable
  selection : q.selection.IsWritable

/-! ## Expressions have terms -/

section Expressions

variable {scope : Scope} {relations : List Relation}

/-- An expression in scope is resolved exactly if its literals can be written. -/
theorem Expr.exists_resolve_iff (hscope : scope.Covers relations) {e : Expr}
    (h : e.InScope relations) : (∃ t, e.resolve scope = .ok t) ↔ e.IsWritable := by
  induction e with
  | column r name =>
    obtain ⟨hr, hname⟩ := h ⟨r, name⟩ (List.mem_singleton_self _)
    obtain ⟨owner, howner⟩ := hscope r hr
    have hexposes : r.exposes name = true := by simpa [Relation.exposes] using hname
    refine ⟨fun _ => trivial, fun _ => ⟨.column owner name, ?_⟩⟩
    rw [resolve, howner, Attempt.ok_bind, if_pos hexposes]
  | literal v =>
    rw [IsWritable, ← Dialect.exists_literal_iff]
    exact Attempt.exists_bind_ok_iff
  | binary op l r ihl ihr =>
    have hl : l.InScope relations := fun ref href => h ref (List.mem_append_left _ href)
    have hr : r.InScope relations := fun ref href => h ref (List.mem_append_right _ href)
    rw [IsWritable, ← ihl hl, ← ihr hr]
    exact Attempt.exists_bind_both_iff
  | unary op e ih | aggregate fn e ih =>
    rw [IsWritable, ← ih h]
    exact Attempt.exists_bind_ok_iff
  | countRows => exact ⟨fun _ => trivial, fun _ => ⟨_, rfl⟩⟩
  | given v =>
    rw [IsWritable]
    exact Attempt.exists_bind_ok_iff

/-- So is an output. -/
theorem Output.exists_resolve_iff (hscope : scope.Covers relations) {o : Output}
    (h : o.expr.InScope relations) : (∃ f, o.resolve scope = .ok f) ↔ o.expr.IsWritable := by
  rw [← Expr.exists_resolve_iff hscope h]
  exact Attempt.exists_bind_ok_iff

/-- So are the two sides of a key. -/
theorem JoinKey.exists_resolve_iff (hscope : scope.Covers relations) {key : JoinKey}
    (hl : key.left.InScope relations) (hr : key.right.InScope relations) :
    (∃ c, key.resolve scope = .ok c) ↔ key.left.IsWritable ∧ key.right.IsWritable := by
  rw [← Expr.exists_resolve_iff hscope hl, ← Expr.exists_resolve_iff hscope hr]
  exact Attempt.exists_bind_both_iff

/-- So is the condition of a join. -/
theorem Source.exists_resolveCondition_iff (hscope : scope.Covers relations)
    {condition? : Option Expr} (h : ∀ e ∈ condition?, e.InScope relations) :
    (∃ cs, resolveCondition scope condition? = .ok cs) ↔ ∀ e ∈ condition?, e.IsWritable := by
  cases condition? with
  | none => exact ⟨fun _ e he => (by cases he), fun _ => ⟨_, rfl⟩⟩
  | some e =>
    rw [Expr.forall_isWritable_some, ← Expr.exists_resolve_iff hscope (h e rfl)]
    exact Attempt.exists_bind_ok_iff

end Expressions

/-! ## Queries have statements -/

/-- Outputs and filter of a selection are in scope, the outputs perhaps as aggregates. -/
structure Selection.InScope (relations : List Relation) (s : Selection) : Prop where
  outputs_ne_nil : s.outputs ≠ []
  outputs : ∀ o ∈ s.outputs, o.expr.InScope relations
  filter : ∀ e ∈ s.filter?, e.IsScalarOver relations
  limit : ∀ b ∈ s.limit?, b.IsCount
  offset : ∀ b ∈ s.offset?, b.IsCount

/-- The outputs and the filter of a well-formed selection are in scope. -/
theorem Selection.WellFormed.inScope {relations : List Relation} {s : Selection}
    (h : s.WellFormed relations) : s.InScope relations :=
  ⟨h.outputs_ne_nil, fun o ho => (h.outputs o ho).inScope, h.filter, h.limit, h.offset⟩

/-- Bounds that count rows pass the check. -/
theorem Bound.checkBoth_eq_ok {limit? offset? : Option Bound} (hl : ∀ b ∈ limit?, b.IsCount)
    (ho : ∀ b ∈ offset?, b.IsCount) : Bound.checkBoth limit? offset? = .ok () := by
  have hcheck : ∀ {bound? : Option Bound}, (∀ b ∈ bound?, b.IsCount) →
      (bound?.forM check : Attempt Unit) = .ok () := by
    intro bound? h
    cases bound? with
    | none => rfl
    | some b =>
      obtain ⟨n, rfl⟩ := h b rfl
      rfl
  unfold checkBoth
  rw [hcheck hl, Attempt.ok_bind]
  exact hcheck ho

namespace Selection

/-- A filter in scope is resolved exactly if its literals can be written. -/
theorem exists_resolveFilter_iff {scope : Scope} {relations : List Relation}
    (hscope : scope.Covers relations) {s : Selection}
    (h : ∀ e ∈ s.filter?, e.IsScalarOver relations) :
    (∃ f, s.resolveFilter scope = .ok f) ↔ ∀ e ∈ s.filter?, e.IsWritable := by
  unfold resolveFilter
  cases hfilter : s.filter? with
  | none => exact ⟨fun _ e he => (by cases he), fun _ => ⟨_, rfl⟩⟩
  | some e =>
    have he := h e hfilter
    rw [Expr.forall_isWritable_some, ← Expr.exists_resolve_iff hscope he.inScope]
    simp only [he.scalar, Bool.false_eq_true, if_false]
    exact Attempt.exists_bind_ok_iff

/-- What the resolution of a SELECT puts together when it succeeds. -/
theorem resolve_eq_ok {s : Selection} {visible : List Relation}
    {source : Scope → Nat → Attempt (FromItem × Nat)} {n : Nat} {clauses : Clauses}
    {item : FromItem} {next : Nat} :
    s.resolve visible source n = .ok (clauses, item, next) ↔ s.outputs ≠ [] ∧ ∃ fields filter?,
      s.outputs.mapM (Output.resolve (Scope.bindAll [] visible n).1) = .ok fields ∧
      source (Scope.bindAll [] visible n).1 (Scope.bindAll [] visible n).2 = .ok (item, next) ∧
      s.resolveFilter (Scope.bindAll [] visible n).1 = .ok filter? ∧
      Bound.checkBoth s.limit? s.offset? = .ok () ∧
      clauses = ⟨fields, filter?, s.distinct, s.limit?, s.offset?⟩ := by
  unfold resolve
  simp only [Attempt.error_bind, Attempt.guard_eq_ok, List.isEmpty_iff, Attempt.bind_eq_ok]
  constructor
  · intro h
    obtain ⟨hne, fields, hfields, ⟨item', next'⟩, hitem, filter?, hfilter, _, hbounds, h⟩ := h
    cases h
    exact ⟨hne, fields, filter?, hfields, hitem, hfilter, hbounds, rfl⟩
  · intro h
    obtain ⟨hne, fields, filter?, hfields, hitem, hfilter, hbounds, rfl⟩ := h
    exact ⟨hne, fields, hfields, (item, next), hitem, filter?, hfilter, (), hbounds, rfl⟩

/-- A SELECT has clauses and a FROM when it can be written and its source has one. -/
theorem exists_resolve_iff {s : Selection} {visible : List Relation}
    {source : Scope → Nat → Attempt (FromItem × Nat)} {n : Nat} {written : Prop}
    (hnodup : visible.Nodup) (h : s.InScope visible)
    (hsource : ∀ {scope : Scope}, scope.Covers visible →
      ∀ n, (∃ r, source scope n = .ok r) ↔ written) :
    (∃ r, s.resolve visible source n = .ok r) ↔ written ∧ s.IsWritable := by
  have hscope := Scope.covers_bindAll (n := n) hnodup
  -- outputs come before the FROM, but the aliases are bound before both
  have hfields :
      (∃ fields, s.outputs.mapM (Output.resolve (Scope.bindAll [] visible n).1) = .ok fields) ↔
      ∀ o ∈ s.outputs, o.expr.IsWritable := by
    rw [Attempt.exists_mapM_iff]
    exact forall₂_congr fun o ho => Output.exists_resolve_iff hscope (h.outputs o ho)
  have hfilter := exists_resolveFilter_iff hscope h.filter
  constructor
  · intro hok
    obtain ⟨⟨clauses, item, next⟩, hr⟩ := hok
    obtain ⟨_, fields, filter?, hf, hitem, hw, _, _⟩ := resolve_eq_ok.mp hr
    exact ⟨(hsource hscope _).mp ⟨_, hitem⟩, hfields.mp ⟨fields, hf⟩, hfilter.mp ⟨filter?, hw⟩⟩
  · intro hw
    obtain ⟨hwritten, hs⟩ := hw
    obtain ⟨⟨item, next⟩, hitem⟩ := (hsource hscope _).mpr hwritten
    obtain ⟨fields, hf⟩ := hfields.mpr hs.outputs
    obtain ⟨filter?, hw⟩ := hfilter.mpr hs.filter
    exact ⟨_, resolve_eq_ok.mpr ⟨h.outputs_ne_nil, fields, filter?, hf, hitem, hw,
      Bound.checkBoth_eq_ok h.limit h.offset, rfl⟩⟩

end Selection

/-- A source has a FROM item in every scope that knows its relations when it can be written. -/
theorem Source.exists_resolve_iff {s : Source} (h : s.WellFormed) {scope : Scope}
    (hscope : scope.Covers s.visible) (n : Nat) :
    (∃ r, s.resolve scope n = .ok r) ↔ s.IsWritable := by
  induction s generalizing scope n with
  | table id name columns =>
    obtain ⟨owner, howner⟩ := hscope _ (List.mem_singleton_self _)
    refine ⟨fun _ => trivial, fun _ => ⟨(.table name owner, n), ?_⟩⟩
    rw [resolve, howner, Attempt.ok_bind]
  | derived id source selection ih =>
    obtain ⟨hsource, hnodup, hselection⟩ := h
    obtain ⟨owner, howner⟩ := hscope _ (List.mem_singleton_self _)
    -- a subquery has a scope of its own, so what is in scope around it does not matter
    have hiff := Selection.exists_resolve_iff (n := n) hnodup hselection.inScope
      fun hscope n => ih hsource hscope n
    rw [IsWritable, ← hiff]
    simp only [resolve, Attempt.bind_eq_ok, howner]
    constructor
    · intro hok
      obtain ⟨_, r, hr, _⟩ := hok
      exact ⟨r, hr⟩
    · intro hw
      obtain ⟨r, hr⟩ := hw
      exact ⟨_, r, hr, owner, rfl, rfl⟩
  | join left right kind keys condition? ihl ihr =>
    obtain ⟨hl, hr, hkeys, hcondition⟩ := h
    have hsubl : left.visible ⊆ (join left right kind keys condition?).visible :=
      List.subset_append_left ..
    have hsubr : right.visible ⊆ (join left right kind keys condition?).visible :=
      List.subset_append_right ..
    -- keys and condition are resolved in the scope of the whole SELECT, which knows both sides
    have hequalities : (∃ cs, keys.mapM (JoinKey.resolve scope) = .ok cs) ↔
        ∀ key ∈ keys, key.left.IsWritable ∧ key.right.IsWritable := by
      rw [Attempt.exists_mapM_iff]
      exact forall₂_congr fun key hkey => JoinKey.exists_resolve_iff hscope
        ((hkeys key hkey).left.mono hsubl).inScope ((hkeys key hkey).right.mono hsubr).inScope
    have hextra := exists_resolveCondition_iff hscope fun e he =>
      ((hcondition e he).mono hsubr).inScope
    rw [IsWritable, ← hequalities, ← hextra]
    simp only [resolve, Attempt.bind_eq_ok]
    constructor
    · intro hok
      obtain ⟨_, ⟨l, n₁⟩, hleft, ⟨r, n₂⟩, hright, cs, hcs, extra, he, _⟩ := hok
      exact ⟨(ihl hl (hscope.mono hsubl) n).mp ⟨_, hleft⟩,
        (ihr hr (hscope.mono hsubr) n₁).mp ⟨_, hright⟩, ⟨cs, hcs⟩, ⟨extra, he⟩⟩
    · intro hw
      obtain ⟨hleft, hright, ⟨cs, hcs⟩, ⟨extra, he⟩⟩ := hw
      obtain ⟨⟨l, n₁⟩, hleft⟩ := (ihl hl (hscope.mono hsubl) n).mpr hleft
      obtain ⟨⟨r, n₂⟩, hright⟩ := (ihr hr (hscope.mono hsubr) n₁).mpr hright
      exact ⟨_, (l, n₁), hleft, (r, n₂), hright, cs, hcs, extra, he, rfl⟩

namespace Query

/-- A query in scope has a statement exactly if it can be written. -/
theorem exists_statement_iff {q : Query} (hsource : q.source.WellFormed)
    (hnodup : q.source.visible.Nodup) (hselection : q.selection.InScope q.source.visible) :
    (∃ s, q.statement = .ok s) ↔ q.IsWritable := by
  have hiff := Selection.exists_resolve_iff (n := 1) hnodup hselection
    fun hscope n => Source.exists_resolve_iff hsource hscope n
  have hstatement : (∃ s, q.statement = .ok s) ↔ _ := Attempt.exists_bind_ok_iff
  rw [hstatement, hiff]
  exact ⟨fun h => ⟨h.1, h.2⟩, fun h => ⟨h.source, h.selection⟩⟩

/-- A query has a text exactly if it has a statement. -/
theorem exists_sql_iff {q : Query} (d : Dialect) :
    (∃ text, q.sql d = .ok text) ↔ ∃ s, q.statement = .ok s := by
  exact Attempt.exists_bind_ok_iff

end Query

end LazyFrame
