import LazyFrame.Proofs.Identity.Operations
import LazyFrame.Proofs.Scope.Session

/-!
# Columns stay in scope

A plan descends from another one when it was made from it by choosing, setting, renaming or leaving
out columns, by filters, and by merges with other plans on its right (`Session.Descent`). None of
these puts anything between the plan and its source. The first of them opens the plan, which gives a
sealed one a source of its own, and the identity of that source is the identity of the plan and so
the same each time. From then on a source is only ever joined with others on its right, and those
are the ones that get new identities (`Source.Extends`).

So whatever a column of the old plan stands for is in scope for the new one, and so is everything
that is made of it (`Query.Accepts`). That an expression is in scope includes that all it refers to
are columns, which is another invariant of sessions (`Session.isListed`): a value in the place of an
expression could refer to something else, but then no operation takes it.
-/

namespace LazyFrame

/-! ## Sources that grow to the right -/

/-- A source with others joined to its right, one after the other. -/
inductive Source.Extends (s : Source) : Source → Prop where
  | refl : Extends s s
  | join {left : Source} (right : Source) (kind : JoinKind) (keys : List JoinKey)
    (condition? : Option Expr) (h : Extends s left) :
    Extends s (.join left right kind keys condition?)

namespace Source.Extends

variable {s t u : Source}

/-- A source that extends one that extends a third extends that one. -/
theorem trans (hst : s.Extends t) (htu : t.Extends u) : s.Extends u := by
  induction htu with
  | refl => exact hst
  | join right kind keys condition? _ ih => exact .join right kind keys condition? ih

/-- What was visible is visible first. -/
theorem visible_begins (h : s.Extends t) : s.visible <+: t.visible := by
  induction h with
  | refl => exact List.prefix_refl _
  | join right kind keys condition? _ ih => exact ih.trans (List.prefix_append _ _)

end Source.Extends

/-! ## What a query accepts -/

/-- An expression that may become a filter or a column of a query. -/
structure Query.Accepts (q : Query) (e : Expr) : Prop where
  scope : q.checkScope e = .ok ()
  scalar : e.hasAggregate = false

/-- What the builders make of given expressions and of literals. -/
inductive Expr.MadeOf (P : Expr → Prop) : Expr → Prop where
  | base {e : Expr} (h : P e) : MadeOf P e
  | literal (v : Value) : MadeOf P (.literal v)
  | binary {l r : Expr} (op : BinaryOp) (hl : MadeOf P l) (hr : MadeOf P r) :
    MadeOf P (.binary op l r)
  | unary {e : Expr} (op : UnaryOp) (h : MadeOf P e) : MadeOf P (.unary op e)

/-- An expression is made of whatever its parts are made of. -/
theorem Expr.MadeOf.mono {P Q : Expr → Prop} {e : Expr} (h : e.MadeOf P) (hsub : ∀ x, P x → Q x) :
    e.MadeOf Q := by
  induction h with
  | base h => exact .base (hsub _ h)
  | literal v => exact .literal v
  | binary op _ _ ihl ihr => exact .binary op ihl ihr
  | unary op _ ih => exact .unary op ih

namespace Expr.IsListed

variable {l r e : Expr}

/-- An operator on two expressions names what both of them name. -/
theorem binary (op : BinaryOp) (hl : l.IsListed) (hr : r.IsListed) :
    (Expr.binary op l r).IsListed := by
  rw [IsListed, references_binary, hl, Attempt.ok_bind, hr, Attempt.ok_bind, columns,
    List.map_append]

/-- An expression names its columns over other relations as well. -/
theorem substitute (h : e.IsListed) {map : Relabelling} (hmap : map.KeepsShape) :
    (e.substitute map).IsListed := by
  rw [e.substitute_eq_under hmap, IsListed, e.references_under, h, e.columns_under,
    Attempt.map_ok, List.map_map, List.map_map]
  rfl

end Expr.IsListed

namespace Query

variable {q q' : Query} {e : Expr}

/-- A query accepts an expression that names its columns, aggregates nothing and is in scope. -/
theorem accepts_iff : q.Accepts e ↔ e.IsListed ∧ e.IsScalarOver q.source.visible := by
  constructor
  · intro h
    obtain ⟨hlisted, hscope⟩ := checkScope_eq_ok.mp h.scope
    exact ⟨hlisted, h.scalar, hscope⟩
  · intro h
    obtain ⟨hlisted, hscalar, hscope⟩ := h
    exact ⟨checkScope_eq_ok.mpr ⟨hlisted, hscope⟩, hscalar⟩

/-- What is made of accepted expressions is accepted. -/
theorem Accepts.of_madeOf (h : e.MadeOf q.Accepts) : q.Accepts e := by
  induction h with
  | base h => exact h
  | literal v => exact accepts_iff.mpr ⟨rfl, .literal v⟩
  | binary op _ _ ihl ihr =>
    obtain ⟨hll, hls⟩ := accepts_iff.mp ihl
    obtain ⟨hrl, hrs⟩ := accepts_iff.mp ihr
    exact accepts_iff.mpr ⟨hll.binary op hrl, Expr.IsScalarOver.binary_iff.mpr ⟨hls, hrs⟩⟩
  | unary op _ ih =>
    obtain ⟨hlisted, hscalar⟩ := accepts_iff.mp ih
    exact accepts_iff.mpr ⟨hlisted, Expr.IsScalarOver.unary_iff.mpr hscalar⟩

/-- Over a source with more on its right nothing goes out of scope. -/
theorem Accepts.of_extends (h : q.Accepts e) (hsource : q.source.Extends q'.source) :
    q'.Accepts e := by
  obtain ⟨hlisted, hscalar⟩ := accepts_iff.mp h
  exact accepts_iff.mpr ⟨hlisted, hscalar.mono hsource.visible_begins.subset⟩

end Query

namespace Plan

variable {p : Plan} {e : Expr}

/-- A filter is accepted exactly if the opened plan accepts its predicate. -/
theorem exists_filter_iff : (∃ q, p.filter e = .ok q) ↔ p.opened.Accepts e := by
  simp only [filter_eq_ok, exists_and_left, exists_eq, and_true]
  exact ⟨fun h => ⟨h.1, h.2⟩, fun h => ⟨h.scope, h.scalar⟩⟩

/-- An assignment is accepted exactly if the opened plan accepts its expression. -/
theorem exists_assign_iff {name : String} :
    (∃ q, p.assign name e = .ok q) ↔ p.opened.Accepts e := by
  simp only [assign_eq_ok, exists_and_left, exists_eq, and_true]
  exact ⟨fun h => ⟨h.1, h.2⟩, fun h => ⟨h.scope, h.scalar⟩⟩

end Plan

/-! ## Outputs refer to columns only -/

/-- All outputs refer to columns and to nothing else. -/
def Query.IsListed (q : Query) : Prop := ∀ o ∈ q.selection.outputs, o.expr.IsListed

namespace Query.IsListed

/-- Columns that are passed on name themselves. -/
theorem passThrough (r : Relation) : ∀ o ∈ Query.passThrough r, o.expr.IsListed := by
  intro o ho
  obtain ⟨name, _, rfl⟩ := List.mem_map.mp ho
  rfl

/-- The outputs of an opened plan name their columns if those of the plan do. -/
theorem opened {p : Plan} (h : p.query.IsListed) : p.opened.IsListed := by
  unfold Plan.opened
  split
  · exact passThrough p.relation
  · exact h

/-- So do those under a window or DISTINCT. -/
theorem unwindowed {p : Plan} (h : p.query.IsListed) : p.unwindowed.IsListed := by
  unfold Plan.unwindowed
  split
  · exact h.opened
  · exact h

/-- So do those of the right side of a merge. -/
theorem rebased {r : Plan} (h : r.query.IsListed) (p : Plan) (next : Nat) :
    (p.rebased r next).IsListed := by
  intro o ho
  obtain ⟨old, hold, rfl⟩ := List.mem_map.mp ho
  exact (h.opened old hold).substitute (keepsShape_freshRelations _ _)

end Query.IsListed

/-- So do those of whatever an operation makes of such plans. -/
theorem Step.isListed {plans : List Plan} {next next' : Nat} {q : Query}
    (h : Step plans next q next') (hplans : ∀ p ∈ plans, p.query.IsListed) : q.IsListed := by
  cases h with
  | project hp hq =>
    obtain ⟨_, _, outputs, houtputs, rfl⟩ := Plan.project_eq_ok.mp hq
    intro o ho
    -- a column that is picked keeps the expression that it had
    obtain ⟨name, _, hlookup, _⟩ := Attempt.exists_of_mem_right houtputs ho
    obtain ⟨old, hold, _, heq⟩ := Query.lookup_eq_ok hlookup
    exact heq ▸ (hplans _ hp).opened old hold
  | assign hp hq =>
    obtain ⟨hscope, _, rfl⟩ := Plan.assign_eq_ok.mp hq
    intro o ho
    -- the new expression has passed the early check
    rcases Query.WellFormed.mem_setOutput ho with rfl | hold
    · exact (Query.checkScope_eq_ok.mp hscope).1
    · exact (hplans _ hp).opened o hold
  | rename hp hq =>
    obtain ⟨_, _, rfl⟩ := Plan.rename_eq_ok.mp hq
    intro o ho
    obtain ⟨old, hold, rfl⟩ := List.mem_map.mp ho
    exact (hplans _ hp).opened old hold
  | drop hp hq =>
    obtain ⟨_, _, rfl⟩ := Plan.drop_eq_ok.mp hq
    intro o ho
    exact (hplans _ hp).opened o (List.mem_filter.mp ho).1
  | filter hp hq =>
    obtain ⟨_, _, rfl⟩ := Plan.filter_eq_ok.mp hq
    exact (hplans _ hp).opened
  | distinct hp hq =>
    obtain ⟨_, rfl⟩ := Plan.distinct?_eq_some.mp hq
    exact (hplans _ hp).unwindowed
  | slice hp _ hq =>
    obtain ⟨_, rfl⟩ := Plan.slice?_eq_some.mp hq
    exact (hplans _ hp).unwindowed
  | @merge p r options q next' hp hr hq =>
    obtain ⟨kind, _, _, keys, _, _, _, rfl, _⟩ := Plan.merge_eq_ok.mp hq
    intro o ho
    rw [Query.outputs_joinOn] at ho
    rcases List.mem_append.mp ho with hleft | hright
    · exact (hplans p hp).opened o hleft
    · exact (hplans r hr).rebased p next o (List.mem_filter.mp hright).1

/-- In every session the outputs of all plans refer to columns only. -/
theorem Session.isListed {c : Catalog} {plans : List Plan} {next : Nat} (h : Session c plans next) :
    ∀ p ∈ plans, p.query.IsListed := by
  induction h with
  | start => exact fun p hp => by cases hp
  | table _ _ ih =>
    intro p hp
    rcases List.mem_cons.mp hp with rfl | hp
    · exact Query.IsListed.passThrough _
    · exact ih p hp
  | step _ hq ih =>
    intro p hp
    rcases List.mem_cons.mp hp with rfl | hp
    · exact hq.isListed ih
    · exact ih p hp

/-! ## Descent -/

/-- A query made on top of a plan: by an operation on its columns, by a filter, or by a merge with
another plan on its right. -/
inductive Plan.Grows (plans : List Plan) (next : Nat) (p : Plan) : Query → Nat → Prop where
  | project {names : List String} {q : Query} (hq : p.project names = .ok q) :
    Grows plans next p q next
  | assign {name : String} {e : Expr} {q : Query} (hq : p.assign name e = .ok q) :
    Grows plans next p q next
  | rename {mapping : List (String × String)} {q : Query} (hq : p.rename mapping = .ok q) :
    Grows plans next p q next
  | drop {names : List String} {q : Query} (hq : p.drop names = .ok q) : Grows plans next p q next
  | filter {e : Expr} {q : Query} (hq : p.filter e = .ok q) : Grows plans next p q next
  | merge {r : Plan} {options : MergeOptions} {q : Query} {next' : Nat} (hr : r ∈ plans)
    (hq : p.merge r options next = .ok (q, next')) : Grows plans next p q next'

/-- A plan that was made from another one by such operations, in a session that makes other plans
meanwhile. -/
inductive Session.Descent (c : Catalog) (f : Plan) : List Plan → Nat → Plan → Prop where
  | start {plans : List Plan} {next : Nat} (h : Session c plans next) (hf : f ∈ plans) :
    Descent c f plans next f
  | table {plans : List Plan} {next : Nat} {g : Plan} {t : TableInfo}
    (h : Descent c f plans next g) (ht : t ∈ c.tables) :
    Descent c f (⟨next, Query.ofTable t.id t.name t.columnNames⟩ :: plans) (next + 1) g
  | aside {plans : List Plan} {next : Nat} {g : Plan} {q : Query} {next' : Nat}
    (h : Descent c f plans next g) (hq : Step plans next q next') :
    Descent c f (⟨next', q⟩ :: plans) (next' + 1) g
  | grow {plans : List Plan} {next : Nat} {g : Plan} {q : Query} {next' : Nat}
    (h : Descent c f plans next g) (hq : g.Grows plans next q next') :
    Descent c f (⟨next', q⟩ :: plans) (next' + 1) ⟨next', q⟩

namespace Plan.Grows

variable {plans : List Plan} {next next' : Nat} {p : Plan} {q : Query}

/-- What grows from a plan is made by an operation on plans. -/
theorem step (h : p.Grows plans next q next') (hp : p ∈ plans) : Step plans next q next' := by
  cases h with
  | project hq => exact .project hp hq
  | assign hq => exact .assign hp hq
  | rename hq => exact .rename hp hq
  | drop hq => exact .drop hp hq
  | filter hq => exact .filter hp hq
  | merge hr hq => exact .merge hp hr hq

/-- On top of a plan nothing is sealed, and its source stays where it is. -/
theorem plain_and_extends (h : p.Grows plans next q next') :
    q.selection.isSealed = false ∧ p.opened.source.Extends q.source := by
  have hplain := p.isSealed_opened
  -- only a merge changes the source, and it keeps the old one on its left
  cases h with
  | project hq =>
    obtain ⟨_, _, _, _, rfl⟩ := project_eq_ok.mp hq
    exact ⟨hplain, .refl⟩
  | assign hq =>
    obtain ⟨_, _, rfl⟩ := assign_eq_ok.mp hq
    exact ⟨hplain, .refl⟩
  | rename hq =>
    obtain ⟨_, _, rfl⟩ := rename_eq_ok.mp hq
    exact ⟨hplain, .refl⟩
  | drop hq =>
    obtain ⟨_, _, rfl⟩ := drop_eq_ok.mp hq
    exact ⟨hplain, .refl⟩
  | filter hq =>
    obtain ⟨_, _, rfl⟩ := filter_eq_ok.mp hq
    exact ⟨hplain, .refl⟩
  | @merge r options q next' hr hq =>
    obtain ⟨kind, _, _, keys, _, _, _, rfl, _⟩ := merge_eq_ok.mp hq
    obtain ⟨condition?, hsource⟩ := p.opened.exists_source_joinOn (p.rebased r next) kind keys
    rw [hsource]
    refine ⟨?_, .join _ _ _ _ .refl⟩
    cases kind with
    | inner | left => rfl

end Plan.Grows

namespace Session.Descent

variable {c : Catalog} {f g : Plan} {plans : List Plan} {next : Nat}

/-- A descent is a session with both of its plans. -/
theorem session (h : Descent c f plans next g) : Session c plans next ∧ f ∈ plans ∧ g ∈ plans := by
  induction h with
  | start h hf => exact ⟨h, hf, hf⟩
  | table _ ht ih => exact ⟨.table ih.1 ht, .tail _ ih.2.1, .tail _ ih.2.2⟩
  | aside _ hq ih => exact ⟨.step ih.1 hq, .tail _ ih.2.1, .tail _ ih.2.2⟩
  | grow _ hq ih => exact ⟨.step ih.1 (hq.step ih.2.2), .tail _ ih.2.1, .head _⟩

/-- The source that a plan reads when it is opened is still there in every plan that descends from
it. -/
theorem source_extends (h : Descent c f plans next g) :
    f.opened.source.Extends g.opened.source := by
  induction h with
  | start => exact .refl
  | table _ _ ih => exact ih
  | aside _ _ ih => exact ih
  | @grow plans next g q next' _ hq ih =>
    obtain ⟨hplain, hextends⟩ := hq.plain_and_extends
    have hopened : Plan.opened ⟨next', q⟩ = q := if_neg (Bool.eq_false_iff.mp hplain)
    rw [hopened]
    exact ih.trans hextends

/-- A column of a plan is accepted by every plan that descends from it. -/
theorem accepts (hc : c.WellFormed) (h : Descent c f plans next g) {name : String} {e : Expr}
    (he : f.lookup name = .ok e) : g.opened.Accepts e := by
  obtain ⟨hsession, hf, _⟩ := h.session
  have hwf := ((hsession.wellFormed hc).2 f hf).1
  obtain ⟨o, ho, _, rfl⟩ := Query.lookup_eq_ok he
  have hown : f.opened.Accepts o.expr :=
    Query.accepts_iff.mpr ⟨(hsession.isListed f hf).opened o ho,
      hwf.opened.isScalarOver_of_lookup he⟩
  exact hown.of_extends h.source_extends

end Session.Descent

end LazyFrame
