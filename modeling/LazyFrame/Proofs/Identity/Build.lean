import LazyFrame.Proofs.Identity.Operations
import LazyFrame.Spec.Build

/-!
# Frames built over corresponding identities

The same description is built over two catalogs whose tables correspond (`Catalog.Alike`), each with
its own identities from some number on. The frames that come out correspond again: the second plan
is the first one under other identities (`Frame.Alike`). Or both builds fail with one fault.

`Build.Alike` relates two computations that take new identities: started where the identities that
come next correspond, they make related results and leave corresponding identities behind. That is
closed under sequences, so `FrameSpec.build_alike` goes through the steps of a description and
through the frames nested in its merges, and each step is one of the lemmas about operations on
plans.
-/

namespace LazyFrame

variable {ids : Relation → Nat}

/-! ## Computations over new identities -/

namespace Build

variable {α β γ δ : Type}

/-- Started with corresponding identities, two computations give related results and again
corresponding identities, or fail with one fault. -/
def Alike (ids : Relation → Nat) (R : α → β → Prop) (x : Build α) (y : Build β) : Prop :=
  ∀ next next', Continues ids next next' →
    Attempt.Agree (fun a b => R a.1 b.1 ∧ Continues ids a.2 b.2) (x next) (y next')

variable {R : α → β → Prop} {Q : γ → δ → Prop}

/-- Related results are alike. -/
theorem Alike.pure {a : α} {b : β} (h : R a b) : Alike ids R (pure a) (pure b) :=
  fun _ _ hnext => .ok ⟨h, hnext⟩

/-- Computations that go on alike from related results are alike. -/
theorem Alike.bind {x : Build α} {y : Build β} (h : Alike ids R x y) {f : α → Build γ}
    {g : β → Build δ} (hf : ∀ a b, R a b → Alike ids Q (f a) (g b)) :
    Alike ids Q (x >>= f) (y >>= g) := by
  intro next next' hnext
  exact (h next next' hnext).bind fun a b hab => hf a.1 b.1 hab.1 a.2 b.2 hab.2

/-- An attempt takes no identities. -/
theorem Alike.lift {x : Attempt α} {y : Attempt β} (h : Attempt.Agree R x y) :
    Alike ids R (liftM x : Build α) (liftM y : Build β) := by
  intro next next' hnext
  exact h.bind fun a b hab => .ok ⟨hab, hnext⟩

/-- A plan takes the next identity for itself. -/
theorem alike_plan (q : Query) :
    Alike ids (fun p p' => p' = p.under ids) (plan q) (plan (q.under ids)) := by
  intro next next' hnext
  have hid : ids (Plan.mk next q).relation = next' := hnext 0 _ _
  refine .ok ⟨?_, hnext.add 1⟩
  show Plan.mk next' (q.under ids) = Plan.mk (ids (Plan.mk next q).relation) (q.under ids)
  rw [hid]

end Build

/-- Attempts that agree up to equality are equal. -/
theorem Attempt.Agree.eq {α : Type} {x y : Attempt α} (h : Agree Eq x y) : x = y := by
  cases h with
  | ok h => rw [h]
  | error e => rfl

/-- An attempt agrees with what is made of its value. -/
theorem Attempt.agree_map {α β : Type} (x : Attempt α) (f : α → β) :
    Agree (fun a b => b = f a) x (x.map f) := by
  cases x with
  | error e => exact .error e
  | ok a => exact .ok rfl

/-! ## Frames -/

/-- Two frames over connections of their own with the same dialect, where the second plan is the
first one under other identities. -/
structure Frame.Alike (ids : Relation → Nat) (connection connection' : Nat)
    (f g : Frame) : Prop where
  first : f.connection = connection
  second : g.connection = connection'
  dialect : g.dialect = f.dialect
  reported : g.reported = f.reported
  plan : g.plan = f.plan.under ids

namespace Frame

variable {a b : Nat} {f g f' g' : Frame}

/-- Frames that correspond have the same text. -/
theorem Alike.sql (hinj : Function.Injective (Relation.under ids)) (h : Frame.Alike ids a b f g) :
    g.sql = f.sql := by
  have hstatement : g.plan.query.statement = f.plan.query.statement := by
    rw [h.plan]
    exact (Query.relabelled_under (.of_injective hinj)).statement
  simp only [Frame.sql, Frame.sqlOf, Query.sql, h.dialect, h.reported, hstatement]

/-- Alike frames build alike frames from queries that differ in identities. -/
theorem Alike.build (h : Frame.Alike ids a b f g) {x y : Attempt Query}
    (hxy : y = x.map (Query.under ids)) :
    Build.Alike ids (Frame.Alike ids a b) (f.build x) (g.build y) := by
  subst hxy
  refine (Build.Alike.lift (Attempt.agree_map x _)).bind fun q q' hq => ?_
  subst hq
  exact (Build.alike_plan q).bind fun p p' hp =>
    .pure ⟨h.first, h.second, h.dialect, h.reported, hp⟩

/-- They do so too where there may be no new query. -/
theorem Alike.buildOr (h : Frame.Alike ids a b f g) {x y : Option Query}
    (hxy : y = x.map (Query.under ids)) :
    Build.Alike ids (Frame.Alike ids a b) (f.buildOr x) (g.buildOr y) := by
  subst hxy
  cases x with
  | none => exact .pure h
  | some q => exact h.build rfl

/-- Frames of one database are never refused for their connections. -/
theorem Alike.merge (hinj : Function.Injective (Relation.under ids)) (h : Frame.Alike ids a b f g)
    (h' : Frame.Alike ids a b f' g') (options : MergeOptions) :
    Build.Alike ids (Frame.Alike ids a b) (f.merge f' options) (g.merge g' options) := by
  have hf : ¬f.connection ≠ f'.connection := fun hne => hne (h.first.trans h'.first.symm)
  have hg : ¬g.connection ≠ g'.connection := fun hne => hne (h.second.trans h'.second.symm)
  have hmerge :
      Build.Alike ids (fun q q' => q' = q.under ids) (fun next => f.plan.merge f'.plan options next)
      (fun next' => g.plan.merge g'.plan options next') := by
    rw [h.plan, h'.plan]
    exact fun next next' hnext => Plan.merge_under hinj hnext f.plan f'.plan options
  have hboth : Frame.Alike ids a b { f with reported := f.reported ++ f'.reported }
      { g with reported := g.reported ++ g'.reported } :=
    ⟨h.first, h.second, h.dialect, by rw [h.reported, h'.reported], h.plan⟩
  unfold Frame.merge
  rw [if_neg hf, if_neg hg]
  exact hmerge.bind fun q q' hq => hboth.build (congrArg Except.ok hq)

end Frame

/-! ## Catalogs -/

/-- A table under the identity that its relation is given. -/
def TableInfo.under (ids : Relation → Nat) (t : TableInfo) : TableInfo :=
  { t with id := ids ⟨t.id, .table t.name, t.columnNames⟩ }

/-- Two catalogs with the same tables, those of the second under other identities, and one
dialect. -/
structure Catalog.Alike (ids : Relation → Nat) (c c' : Catalog) : Prop where
  dialect : c'.dialect = c.dialect
  tables : c'.tables = c.tables.map (TableInfo.under ids)

variable {c c' : Catalog}

/-- A table is found in both catalogs or in neither. -/
theorem Catalog.Alike.table (h : c.Alike ids c') (name : String) :
    c'.table name = (c.table name).map (TableInfo.under ids) := by
  have hfind : c'.tables.find? (·.name == name) =
      (c.tables.find? (·.name == name)).map (TableInfo.under ids) := by
    rw [h.tables]
    exact List.find?_map ..
  rw [Catalog.table, Catalog.table, hfind]
  cases c.tables.find? (·.name == name) <;> rfl

/-- Tables of both catalogs are alike frames. -/
theorem Catalog.Alike.ofTable (h : c.Alike ids c') (name : String) :
    Build.Alike ids (Frame.Alike ids c.connection c'.connection) (Frame.ofTable c name)
      (Frame.ofTable c' name) := by
  unfold Frame.ofTable
  rw [h.table]
  refine (Build.Alike.lift (Attempt.agree_map (c.table name) _)).bind fun t t' ht => ?_
  subst ht
  have hquery : Query.ofTable (t.under ids).id (t.under ids).name (t.under ids).columnNames =
      (Query.ofTable t.id t.name t.columnNames).under ids := (Query.ofTable_under ..).symm
  rw [hquery]
  exact (Build.alike_plan _).bind fun p p' hp => .pure ⟨rfl, rfl, h.dialect, rfl, hp⟩

/-! ## Expressions by name -/

namespace ExprSpec

variable {a b : Nat} {f g : Frame}

/-- An operator is put on operands under other identities as on the operands. -/
theorem applied_under (name : String) (operands : List Expr) :
    applied name (operands.map (Expr.under ids)) =
      (applied name operands).map (Expr.under ids) := by
  have hoperand (i : Nat) : (operands.map (Expr.under ids)).getD i (.literal .missing) =
      (operands.getD i (.literal .missing)).under ids := by
    rw [List.getD_eq_getElem?_getD, List.getD_eq_getElem?_getD, List.getElem?_map]
    cases operands[i]? <;> rfl
  unfold applied
  rw [hoperand, hoperand]
  cases UnaryOp.ofName? name with
  | some unary => rfl
  | none => cases BinaryOp.ofName? name <;> rfl

mutual

/-- An expression refers to the same columns, under their new identities. -/
theorem toExpr_under (h : Frame.Alike ids a b f g) :
    ∀ spec : ExprSpec, toExpr g spec = (toExpr f spec).map (Expr.under ids)
  | .col name => by
    rw [toExpr, toExpr, Frame.col, h.plan]
    exact Plan.lookup_under f.plan name
  | .lit value => by
    rw [toExpr, toExpr]
    rfl
  | .op name args => by
    rw [toExpr, toExpr, argExprs_under h args, Attempt.bind_map, Attempt.map_bind]
    exact congrArg _ (funext fun operands => applied_under name operands)

/-- So are operands, which are looked up from left to right. -/
theorem argExprs_under (h : Frame.Alike ids a b f g) :
    ∀ specs : List ExprSpec, argExprs g specs = (argExprs f specs).map (List.map (Expr.under ids))
  | [] => by
    rw [argExprs, argExprs]
    rfl
  | arg :: rest => by
    rw [argExprs, argExprs, toExpr_under h arg, argExprs_under h rest]
    simp only [Attempt.bind_map, Attempt.map_bind]
    rfl

end

end ExprSpec

/-! ## Steps and descriptions -/

mutual

/-- A step on corresponding frames makes corresponding frames. -/
theorem StepSpec.apply_alike (hinj : Function.Injective (Relation.under ids))
    (hc : c.Alike ids c') {f g : Frame} (h : Frame.Alike ids c.connection c'.connection f g) :
    ∀ step : StepSpec,
      Build.Alike ids (Frame.Alike ids c.connection c'.connection) (step.apply c f)
        (step.apply c' g)
  | .select columns => by
    rw [StepSpec.apply, StepSpec.apply]
    exact h.build (h.plan ▸ Plan.project_under f.plan columns)
  | .assign name expr => by
    rw [StepSpec.apply, StepSpec.apply, ExprSpec.toExpr_under h]
    -- the expression is made first, and it may be refused before the plan is asked
    refine (Build.Alike.lift (Attempt.agree_map _ _)).bind fun e e' he => ?_
    subst he
    exact h.build (h.plan ▸ Plan.assign_under hinj f.plan name e)
  | .rename mapping => by
    rw [StepSpec.apply, StepSpec.apply]
    exact h.build (h.plan ▸ Plan.rename_under f.plan mapping)
  | .drop columns => by
    rw [StepSpec.apply, StepSpec.apply]
    exact h.build (h.plan ▸ Plan.drop_under f.plan columns)
  | .filter predicate => by
    rw [StepSpec.apply, StepSpec.apply, ExprSpec.toExpr_under h]
    refine (Build.Alike.lift (Attempt.agree_map _ _)).bind fun e e' he => ?_
    subst he
    exact h.build (h.plan ▸ Plan.filter_under hinj f.plan e)
  | .merge right on? leftOn? rightOn? how? => by
    rw [StepSpec.apply, StepSpec.apply]
    exact (FrameSpec.build_alike hinj hc right).bind fun _ _ hright => h.merge hinj hright _
  | .distinct => by
    rw [StepSpec.apply, StepSpec.apply]
    exact h.buildOr (h.plan ▸ Plan.distinct?_under f.plan)
  | .slice start? stop? => by
    rw [StepSpec.apply, StepSpec.apply]
    refine (Build.Alike.lift (Attempt.Agree.refl _)).bind fun w w' hw => ?_
    subst hw
    exact h.buildOr (h.plan ▸ Plan.slice?_under f.plan w)

/-- So do several steps, one after the other. -/
theorem StepSpec.applyAll_alike (hinj : Function.Injective (Relation.under ids))
    (hc : c.Alike ids c') {f g : Frame} (h : Frame.Alike ids c.connection c'.connection f g) :
    ∀ steps : List StepSpec,
      Build.Alike ids (Frame.Alike ids c.connection c'.connection) (StepSpec.applyAll c f steps)
        (StepSpec.applyAll c' g steps)
  | [] => by
    rw [StepSpec.applyAll, StepSpec.applyAll]
    exact .pure h
  | step :: rest => by
    rw [StepSpec.applyAll, StepSpec.applyAll]
    exact (StepSpec.apply_alike hinj hc h step).bind fun _ _ hnext =>
      StepSpec.applyAll_alike hinj hc hnext rest

/-- A description makes corresponding frames over corresponding catalogs. -/
theorem FrameSpec.build_alike (hinj : Function.Injective (Relation.under ids))
    (hc : c.Alike ids c') :
    ∀ spec : FrameSpec, Build.Alike ids (Frame.Alike ids c.connection c'.connection) (spec.build c)
      (spec.build c')
  | .mk table steps => by
    rw [FrameSpec.build, FrameSpec.build]
    exact (hc.ofTable table).bind fun _ _ hf => StepSpec.applyAll_alike hinj hc hf steps

end

/-! ## Texts -/

/-- Over corresponding catalogs a description has one text, or one fault. -/
theorem FrameSpec.sql_alike (hinj : Function.Injective (Relation.under ids)) (hc : c.Alike ids c')
    {next next' : Nat} (hnext : Continues ids next next') (spec : FrameSpec) :
    spec.sql c' next' = spec.sql c next := by
  have hagree : Attempt.Agree Eq (spec.sql c next) (spec.sql c' next') := by
    refine (FrameSpec.build_alike hinj hc spec next next' hnext).bind fun made made' hmade => ?_
    rw [hmade.1.sql hinj]
    exact .refl _
  exact hagree.eq.symm

end LazyFrame
