import LazyFrame.Plan.Operations
import LazyFrame.Proofs.Scope.Substitution

/-!
# Well-formed queries

A query is well formed when everything it refers to is there. Its outputs have distinct names,
and there is at least one. Its source shows no relation twice. Outputs and filter refer to columns
of the relations that the source shows and hold no aggregate (`Expr.IsScalarOver`). At every join
the left keys stay on the left side, the right keys and the condition on the right side. And all
of this holds again in every subquery (`Source.WellFormed`).

The predicate is closed under what the operations on plans do to a query: under a change of
outputs, of the filter or of the window, and under a relabelling that keeps the relations apart
(`Query.WellFormed.relabel`). It is stated with membership in lists instead of the Boolean tests
of `Query.checkScope`; `Query.checkScope_eq_ok` is where the two meet.
-/

namespace LazyFrame

/-! ## Expressions in scope -/

/-- All columns of an expression belong to these relations. -/
def Expr.InScope (relations : List Relation) (e : Expr) : Prop :=
  ∀ ref ∈ e.columns, ref.relation ∈ relations ∧ ref.name ∈ ref.relation.columns

/-- An expression without aggregates over columns of these relations. -/
structure Expr.IsScalarOver (relations : List Relation) (e : Expr) : Prop where
  scalar : e.hasAggregate = false
  inScope : e.InScope relations

namespace Expr.IsScalarOver

variable {relations others : List Relation} {e l r : Expr}

theorem mono (h : e.IsScalarOver relations) (hsub : relations ⊆ others) : e.IsScalarOver others :=
  ⟨h.scalar, fun ref href => ⟨hsub (h.inScope ref href).1, (h.inScope ref href).2⟩⟩

theorem column {r : Relation} {name : String} (hr : r ∈ relations) (hname : name ∈ r.columns) :
    (Expr.column r name).IsScalarOver relations := by
  refine ⟨rfl, fun ref href => ?_⟩
  rw [List.mem_singleton.mp href]
  exact ⟨hr, hname⟩

theorem literal (v : Value) : (Expr.literal v).IsScalarOver relations :=
  ⟨rfl, fun _ href => absurd href (List.not_mem_nil)⟩

theorem binary_iff {op : BinaryOp} :
    (Expr.binary op l r).IsScalarOver relations ↔ l.IsScalarOver relations ∧
    r.IsScalarOver relations := by
  constructor
  · intro h
    obtain ⟨hscalar, hscope⟩ := h
    rw [hasAggregate, Bool.or_eq_false_iff] at hscalar
    refine ⟨⟨hscalar.1, fun ref href => ?_⟩, ⟨hscalar.2, fun ref href => ?_⟩⟩
    · exact hscope ref (List.mem_append_left _ href)
    · exact hscope ref (List.mem_append_right _ href)
  · intro h
    obtain ⟨hl, hr⟩ := h
    refine ⟨by rw [hasAggregate, hl.scalar, hr.scalar]; rfl, fun ref href => ?_⟩
    rcases List.mem_append.mp href with hleft | hright
    · exact hl.inScope ref hleft
    · exact hr.inScope ref hright

theorem unary_iff {op : UnaryOp} :
    (Expr.unary op e).IsScalarOver relations ↔ e.IsScalarOver relations :=
  ⟨fun h => ⟨h.scalar, h.inScope⟩, fun h => ⟨h.scalar, h.inScope⟩⟩

/-- A predicate made of two is in scope when the ones that are there are. -/
theorem conjoin {a? b? : Option Expr} (ha : ∀ e ∈ a?, e.IsScalarOver relations)
    (hb : ∀ e ∈ b?, e.IsScalarOver relations) :
    ∀ e ∈ Expr.conjoin a? b?, e.IsScalarOver relations := by
  intro e he
  cases a? with
  | none => exact hb e he
  | some a =>
    cases b? with
    | none => exact ha e he
    | some b =>
      cases he
      exact binary_iff.mpr ⟨ha a rfl, hb b rfl⟩

end Expr.IsScalarOver

/-! ## Selections, sources and queries -/

/-- A number of rows, as operations on plans make it. -/
def Bound.IsCount (b : Bound) : Prop := ∃ n, b = .rows n

/-- Outputs, filter and window fit the relations of the source. -/
structure Selection.WellFormed (relations : List Relation) (s : Selection) : Prop where
  outputs_ne_nil : s.outputs ≠ []
  names_nodup : s.names.Nodup
  outputs : ∀ o ∈ s.outputs, o.expr.IsScalarOver relations
  filter : ∀ e ∈ s.filter?, e.IsScalarOver relations
  limit : ∀ b ∈ s.limit?, b.IsCount
  offset : ∀ b ∈ s.offset?, b.IsCount

/-- A key stays on its sides of the join. -/
structure JoinKey.WellFormed (left right : List Relation) (key : JoinKey) : Prop where
  left : key.left.IsScalarOver left
  right : key.right.IsScalarOver right

/-- Every join and every subquery of a source is well formed, and tables have columns with
distinct names. -/
def Source.WellFormed : Source → Prop
  | .table _ _ columns => columns ≠ [] ∧ columns.Nodup
  | .derived _ source selection =>
    source.WellFormed ∧ source.visible.Nodup ∧ selection.WellFormed source.visible
  | .join left right _ keys condition? =>
    left.WellFormed ∧ right.WellFormed ∧
      (∀ key ∈ keys, key.WellFormed left.visible right.visible) ∧
      ∀ e ∈ condition?, e.IsScalarOver right.visible

/-- The source of a query is well formed and shows no relation twice, and the selection fits it. -/
structure Query.WellFormed (q : Query) : Prop where
  source : q.source.WellFormed
  visible_nodup : q.source.visible.Nodup
  selection : q.selection.WellFormed q.source.visible

/-! ## What a query refers to is checked -/

namespace Expr

theorem references_binary (op : BinaryOp) (l r : Expr) : (binary op l r).references =
    (l.references >>= fun ls => r.references >>= fun rs => .ok (ls ++ rs)) := by
  simp only [references, listing, bind_assoc]
  rfl

/-- An expression that refers to its columns and to nothing else. Where a value stands in the place
of an expression it describes no column. -/
def IsListed (e : Expr) : Prop := e.references = .ok (e.columns.map .known)

/-- References that are all columns are the columns of the expression, because what a description
notes is no column. -/
theorem isListed_of_references {e : Expr} {refs : List Reference} (h : e.references = .ok refs)
    (hknown : ∀ ref ∈ refs, ∃ column, ref = .known column) : e.IsListed := by
  induction e generalizing refs with
  | column | literal | countRows => rfl
  | binary op l r ihl ihr =>
    rw [references_binary] at h
    obtain ⟨ls, hls, h⟩ := Attempt.bind_eq_ok.mp h
    obtain ⟨rs, hrs, h⟩ := Attempt.bind_eq_ok.mp h
    cases h
    have hl : l.IsListed := ihl hls fun ref href => hknown ref (List.mem_append_left _ href)
    have hr : r.IsListed := ihr hrs fun ref href => hknown ref (List.mem_append_right _ href)
    rw [IsListed, references_binary, hl, Attempt.ok_bind, hr, Attempt.ok_bind, columns,
      List.map_append]
  | unary op e ih | aggregate fn e ih => exact ih h hknown
  | given description =>
    obtain ⟨refs?, hlisting, hspread⟩ := Attempt.bind_eq_ok.mp h
    obtain ⟨notes?, hnotes, hlisting⟩ := Attempt.bind_eq_ok.mp hlisting
    cases hlisting
    -- a description without notes describes nothing, and any note is no column
    cases notes? with
    | none => cases hspread
    | some notes =>
      cases hspread
      cases notes with
      | nil =>
        rw [IsListed, references, listing, hnotes]
        rfl
      | cons note rest =>
        obtain ⟨_, hcolumn⟩ := hknown (.noted note) (List.mem_cons_self ..)
        cases hcolumn

end Expr

namespace Query

variable {q : Query} {e : Expr}

theorem checkReference_eq_ok {ref : Reference} : q.checkReference ref = .ok () ↔
    ∃ column, ref = .known column ∧ column.relation ∈ q.source.visible ∧
      column.name ∈ column.relation.columns := by
  cases ref with
  | known column =>
    simp only [checkReference, Attempt.guard_eq_ok, Bool.not_eq_true', Bool.not_eq_false,
      List.contains_iff_mem, Relation.exposes, Reference.known.injEq, exists_eq_left', and_true]
  | noted note =>
    constructor
    · intro h
      obtain ⟨_, _, h⟩ := Attempt.bind_eq_ok.mp h
      obtain ⟨_, _, h⟩ := Attempt.bind_eq_ok.mp h
      cases h
    · intro h
      obtain ⟨_, hknown, _⟩ := h
      cases hknown

/-- The check of a scope lets an expression through that refers to columns in scope and to nothing
else. -/
theorem checkScope_eq_ok : q.checkScope e = .ok () ↔ e.IsListed ∧ e.InScope q.source.visible := by
  unfold checkScope
  constructor
  · intro h
    obtain ⟨refs, hrefs, hall⟩ := Attempt.bind_eq_ok.mp h
    have hcolumns := fun ref href => checkReference_eq_ok.mp (Attempt.forM_eq_ok.mp hall ref href)
    have hlisted : e.IsListed := Expr.isListed_of_references hrefs fun ref href =>
      (hcolumns ref href).imp fun _ h => h.1
    refine ⟨hlisted, fun column hcolumn => ?_⟩
    obtain rfl := Except.ok.inj (hrefs.symm.trans hlisted)
    obtain ⟨_, hsame, hscope⟩ := hcolumns _ (List.mem_map_of_mem hcolumn)
    cases hsame
    exact hscope
  · intro h
    obtain ⟨hlisted, hscope⟩ := h
    rw [hlisted, Attempt.ok_bind]
    refine Attempt.forM_eq_ok.mpr fun ref href => checkReference_eq_ok.mpr ?_
    obtain ⟨column, hcolumn, rfl⟩ := List.mem_map.mp href
    exact ⟨column, rfl, hscope column hcolumn⟩

/-- What the check of a scope lets through is in scope. -/
theorem isScalarOver_of_checkScope (h : q.checkScope e = .ok ())
    (hscalar : e.hasAggregate = false) : e.IsScalarOver q.source.visible :=
  ⟨hscalar, (checkScope_eq_ok.mp h).2⟩

end Query

end LazyFrame
