import LazyFrame.Proofs.Rows.Padding
import LazyFrame.Proofs.Rows.Operations
import LazyFrame.Proofs.Rows.Reference
import LazyFrame.Proofs.Scope.Session

/-!
# Descriptions become frames

`FrameSpec.build` makes a plan without looking at a row, `FrameSpec.perform` works on tables without
any plan. One is refused exactly when the other is, with the same fault, and otherwise they have the
same columns (`FrameSpec.agree_build`).

What is carried along from step to step is `Frame.Denotes`: the plan is well formed, over identities
that have been handed out, and its columns are those of the table that the steps have led to. The
operations on plans preserve it since they make the same checks in the same order. Expressions go
through the columns: what the plan looks up by name is an expression over the source, and its value
is the cell of that name (`ExprSpec.agree_toExpr`).

The rows stay the same as well, as long as each left merge pads its rows with NULL (`Plan.Pads`). A
step on a frame with the rows of a table gives the rows that the step gives on the table exactly in
that case (`StepSpec.Follows`).
-/

namespace LazyFrame

open Attempt (Agree)

variable {α : Type} {S : Scalars α} {db : Database α}

/-! ## Expressions -/

/-- No output has a value in the place of an expression. -/
def Query.IsBuilt (q : Query) : Prop := ∀ o ∈ q.selection.outputs, o.expr.isBuilt = true

/-- An expression that builders made over columns in scope passes the check. -/
theorem Query.checkScope_of_isBuilt {q : Query} {e : Expr} (hbuilt : e.isBuilt = true)
    (hscope : e.InScope q.source.visible) : q.checkScope e = .ok () :=
  checkScope_eq_ok.mpr ⟨Expr.references_of_isBuilt hbuilt, hscope⟩

/-- An expression of a query that means a function of its rows. -/
structure Query.Means (S : Scalars α) (q : Query) (e : Expr) (f : List α → α) : Prop where
  built : e.isBuilt = true
  scalar : e.IsScalarOver q.source.visible
  value : ∀ env, e.value S env = f (q.selection.project S env)

/-- A column looked up by name means the cell of that name. -/
theorem Query.agree_lookup {q : Query} (h : q.WellFormed) (hbuilt : q.IsBuilt) {t : Table α}
    (ht : t.names = q.names) (name : String) :
    Agree (q.Means S) (q.lookup name) (t.column S name) := by
  by_cases hname : name ∈ q.names
  · obtain ⟨e, he⟩ := exists_lookup hname
    obtain ⟨o, ho, _, hoe⟩ := lookup_eq_ok he
    rw [he, Table.column, if_pos (by rw [ht]; simpa using hname)]
    refine .ok ⟨hoe ▸ hbuilt o ho, h.isScalarOver_of_lookup he, fun env => ?_⟩
    rw [Table.cell, ht]
    exact (Selection.cell_project he env).symm
  · have hnone : q.selection.outputs.find? (·.name == name) = none := by
      refine List.find?_eq_none.mpr fun o ho heq => hname ?_
      rw [← beq_iff_eq.mp heq]
      exact List.mem_map_of_mem ho
    rw [lookup, hnone, Table.column, if_neg (by rw [ht]; simpa using hname), ht]
    exact .error _

namespace ExprSpec

theorem agree_applied {q : Query} (name : String) {operands : List Expr} {fs : List (List α → α)}
    (h : List.Forall₂ (q.Means S) operands fs) :
    Agree (q.Means S) (applied name operands) (appliedTo S name fs) := by
  -- a missing operand is a missing literal on both sides
  have hget :
      ∀ i, q.Means S (operands.getD i (.literal .missing))
        (fs.getD i fun _ => S.literal .missing) := by
    induction h with
    | nil => exact fun i => ⟨rfl, .literal _, fun _ => rfl⟩
    | cons hfirst _ ih =>
      intro i
      cases i with
      | zero => exact hfirst
      | succ i => exact ih i
  have hfirst := hget 0
  have hsecond := hget 1
  unfold applied appliedTo
  cases UnaryOp.ofName? name with
  | some unary =>
    refine .ok ⟨hfirst.built, Expr.IsScalarOver.unary_iff.mpr hfirst.scalar, fun env => ?_⟩
    rw [Expr.value, hfirst.value]
  | none =>
    cases BinaryOp.ofName? name with
    | some binary =>
      refine .ok ⟨?_, Expr.IsScalarOver.binary_iff.mpr ⟨hfirst.scalar, hsecond.scalar⟩,
        fun env => ?_⟩
      · rw [Expr.isBuilt, hfirst.built, hsecond.built]
        rfl
      · rw [Expr.value, hfirst.value, hsecond.value]
    | none => exact .error _

variable {f : Frame} {t : Table α}

mutual

/-- The expression made for a frame means what the description says of its table. -/
theorem agree_toExpr (h : f.plan.opened.WellFormed) (hbuilt : f.plan.opened.IsBuilt)
    (ht : t.names = f.plan.opened.names) :
    ∀ spec : ExprSpec, Agree (f.plan.opened.Means S) (toExpr f spec) (meaning S t spec)
  | .col name => Query.agree_lookup h hbuilt ht name
  | .lit v => .ok ⟨rfl, .literal v, fun _ => rfl⟩
  | .op name args => by
    rw [toExpr, meaning]
    exact (agree_argExprs h hbuilt ht args).bind fun _ _ hargs => agree_applied name hargs

/-- So do those made for operands. -/
theorem agree_argExprs (h : f.plan.opened.WellFormed) (hbuilt : f.plan.opened.IsBuilt)
    (ht : t.names = f.plan.opened.names) :
    ∀ specs : List ExprSpec, Agree (List.Forall₂ (f.plan.opened.Means S)) (argExprs f specs)
      (meanings S t specs)
  | [] => .ok .nil
  | arg :: rest => by
    rw [argExprs, meanings]
    exact (agree_toExpr h hbuilt ht arg).bind fun _ _ hfirst =>
      (agree_argExprs h hbuilt ht rest).bind fun _ _ hothers => .ok (.cons hfirst hothers)

end

end ExprSpec

/-! ## Operations -/

theorem Expr.isBuilt_substitute (map : Relabelling) (e : Expr) :
    (e.substitute map).isBuilt = e.isBuilt := by
  induction e with
  | column r name => simp [isBuilt]
  | literal v => rfl
  | binary op l r ihl ihr => simp [isBuilt, ihl, ihr]
  | unary op e ih => simp [isBuilt, ih]
  | aggregate fn e ih => simp [isBuilt, ih]
  | countRows => rfl
  | given v => rfl

theorem Query.IsBuilt.opened {p : Plan} (h : p.query.IsBuilt) : p.opened.IsBuilt := by
  unfold Plan.opened
  split
  · intro o ho
    obtain ⟨name, _, rfl⟩ := List.mem_map.mp ho
    rfl
  · exact h

theorem Query.IsBuilt.unwindowed {p : Plan} (h : p.query.IsBuilt) : p.unwindowed.IsBuilt := by
  unfold Plan.unwindowed
  split
  · exact h.opened
  · exact h

section Operations

variable [DecidableEq α]

/-- A query that an operation on plans makes, with the columns of a table. -/
structure Query.Yields (plans : List Plan) (next next' : Nat) (q : Query) (t : Table α) : Prop where
  step : Step plans next q next'
  names : q.names = t.names
  built : q.IsBuilt

variable {p : Plan} {plans : List Plan} {next : Nat} {t u : Table α}

/-- Both sides of a selection of columns are refused for the same names, and the one has the rows of
the other. -/
theorem Plan.agree_project (h : p.query.WellFormed) (hbuilt : p.query.IsBuilt) (hp : p ∈ plans)
    (ht : t.names = p.names) (names : List String) :
    Agree (fun q u => q.Yields plans next next u ∧ (p.query.table S db = t → q.table S db = u))
      (p.project names) (t.select? S names) := by
  have hnames : t.names = p.opened.names := ht.trans p.names_opened.symm
  -- first the checks alone: they are made on the same names in the same order
  have hfaults : Agree (fun _ u => u = t.select S names) (p.project names) (t.select? S names) := by
    unfold Plan.project Table.select?
    cases names.isEmpty with
    | true => exact .error _
    | false =>
      refine .check _ ?_
      have hcolumns : Agree (List.Forall₂ fun _ _ => True)
          (names.mapM fun name => p.opened.lookup name >>=
            fun expr => Except.ok (Output.mk name expr))
          (names.mapM (t.column S)) := by
        refine .mapM (List.forall₂_same.mpr fun _ _ => rfl) fun name _ hname => ?_
        subst hname
        rw [← bind_pure (t.column S name)]
        exact (Query.agree_lookup h.opened hbuilt.opened hnames name).bind fun _ _ _ => .ok trivial
      exact hcolumns.bind fun _ _ _ => .ok rfl
  refine hfaults.imp fun q u hq _ hu => ?_
  have htable : q.table S db = (p.query.table S db).select S names := table_project h hq
  subst hu
  refine ⟨⟨.project hp hq, congrArg Table.names htable, ?_⟩, fun heq => heq ▸ htable⟩
  obtain ⟨_, _, outputs, houtputs, rfl⟩ := project_eq_ok.mp hq
  intro o ho
  obtain ⟨name, _, hlookup, _⟩ := Attempt.exists_of_mem_right houtputs ho
  obtain ⟨old, hold, _, he⟩ := Query.lookup_eq_ok hlookup
  exact he ▸ hbuilt.opened old hold

/-- An expression that means a function of the rows is assigned on both sides. -/
theorem Plan.agree_assign (h : p.query.WellFormed) (hbuilt : p.query.IsBuilt) (hp : p ∈ plans)
    (ht : t.names = p.names) (name : String) {e : Expr} {f : List α →
      α} (he : p.opened.Means S e f) :
    Agree (fun q u => q.Yields plans next next u ∧ (p.query.table S db = t → q.table S db = u))
      (p.assign name e) (.ok (t.assign S name f)) := by
  have hq : p.assign name e =
      .ok (p.opened.withOutputs (setOutput ⟨name, e⟩ p.opened.selection.outputs)) :=
    assign_eq_ok.mpr ⟨Query.checkScope_of_isBuilt he.built he.scalar.inScope, he.scalar.scalar, rfl⟩
  have hnames : Query.names _ = _ := names_assign hq
  rw [← ht] at hnames
  rw [hq]
  refine .ok ⟨⟨.assign hp hq, hnames, fun o ho => ?_⟩, fun heq => heq ▸ table_assign h hq he.value⟩
  rcases Query.WellFormed.mem_setOutput ho with rfl | hmem
  · exact he.built
  · exact hbuilt.opened o hmem

/-- Both sides of a renaming are refused for the same names. -/
theorem Plan.agree_rename (h : p.query.WellFormed) (hbuilt : p.query.IsBuilt) (hp : p ∈ plans)
    (ht : t.names = p.names) (mapping : List (String × String)) :
    Agree (fun q u => q.Yields plans next next u ∧ (p.query.table S db = t → q.table S db = u))
      (p.rename mapping) (t.rename? mapping) := by
  have hnames : p.opened.names = t.names := p.names_opened.trans ht.symm
  have hrenamed : (renamedOutputs mapping p.opened.selection.outputs).map (·.name) =
      (t.rename mapping).names := by
    rw [names_renamedOutputs]
    exact congrArg (List.map _) hnames
  -- both check the old names first and the new ones after them
  have hfaults :
      Agree (fun _ u => u = t.rename mapping) (p.rename mapping) (t.rename? mapping) := by
    unfold Plan.rename Table.rename?
    dsimp only
    rw [hnames]
    refine .check _ ?_
    change Agree _
      (checkUnique ((renamedOutputs mapping p.opened.selection.outputs).map (·.name)) >>= _) _
    rw [hrenamed]
    exact .check _ (.ok rfl)
  refine hfaults.imp fun q u hq _ hu => ?_
  have htable : q.table S db = (p.query.table S db).rename mapping := table_rename h hq
  subst hu
  refine ⟨⟨.rename hp hq, ?_, ?_⟩, fun heq => heq ▸ htable⟩
  · obtain ⟨_, _, rfl⟩ := rename_eq_ok.mp hq
    exact hrenamed
  · obtain ⟨_, _, rfl⟩ := rename_eq_ok.mp hq
    intro o ho
    obtain ⟨old, hold, rfl⟩ := List.mem_map.mp ho
    exact hbuilt.opened old hold

/-- Both sides of leaving columns out are refused for the same names. -/
theorem Plan.agree_drop (h : p.query.WellFormed) (hbuilt : p.query.IsBuilt) (hp : p ∈ plans)
    (ht : t.names = p.names) (names : List String) :
    Agree (fun q u => q.Yields plans next next u ∧ (p.query.table S db = t → q.table S db = u))
      (p.drop names) (t.drop? S names) := by
  have hnames : p.opened.names = t.names := p.names_opened.trans ht.symm
  have hrest :
      (p.opened.selection.outputs.filter fun output => !names.contains output.name).map (·.name) =
      (t.drop S names).names := by
    show _ = t.names.filter _
    rw [← hnames, Query.names, Selection.names, List.filter_map]
    rfl
  -- one side asks whether an output is left, the other whether a name is
  have hempty :
      (p.opened.selection.outputs.filter fun output => !names.contains output.name).isEmpty =
      (t.drop S names).names.isEmpty := by
    rw [← hrest, List.isEmpty_map]
  have hfaults : Agree (fun _ u => u = t.drop S names) (p.drop names) (t.drop? S names) := by
    unfold Plan.drop Table.drop?
    dsimp only
    rw [hnames, hempty]
    refine .check _ ?_
    cases (t.drop S names).names.isEmpty with
    | true => exact .error _
    | false => exact .ok rfl
  refine hfaults.imp fun q u hq _ hu => ?_
  have htable : q.table S db = (p.query.table S db).drop S names := table_drop h hq
  subst hu
  refine ⟨⟨.drop hp hq, ?_, ?_⟩, fun heq => heq ▸ htable⟩
  · obtain ⟨_, _, rfl⟩ := drop_eq_ok.mp hq
    exact hrest
  · obtain ⟨_, _, rfl⟩ := drop_eq_ok.mp hq
    intro o ho
    exact hbuilt.opened o (List.mem_filter.mp ho).1

/-- A predicate that means a function of the rows keeps the same rows on both sides. -/
theorem Plan.agree_filter (h : p.query.WellFormed) (hbuilt : p.query.IsBuilt) (hp : p ∈ plans)
    (ht : t.names = p.names) {e : Expr} {f : List α → α} (he : p.opened.Means S e f) :
    Agree (fun q u => q.Yields plans next next u ∧
      (p.query.table S db = t → q.table S db = u)) (p.filter e) (.ok (t.filter S f)) := by
  have hq : p.filter e = .ok _ :=
    filter_eq_ok.mpr ⟨Query.checkScope_of_isBuilt he.built he.scalar.inScope, he.scalar.scalar, rfl⟩
  rw [hq]
  refine .ok ⟨⟨.filter hp hq, ?_, hbuilt.opened⟩, fun heq => heq ▸ table_filter h hq he.value⟩
  exact p.names_opened.trans ht.symm

/-- The right side of a merge is built as the opened plan is. -/
theorem Query.IsBuilt.rebased {p r : Plan} (h : r.query.IsBuilt) (next : Nat) :
    (p.rebased r next).IsBuilt := by
  intro o ho
  obtain ⟨old, hold, rfl⟩ := List.mem_map.mp ho
  rw [Expr.isBuilt_substitute]
  exact h.opened old hold

/-- Both sides of a merge are refused for the same options, and the rows are the same exactly if the
merge pads. -/
theorem Plan.agree_merge {r : Plan} (h : p.query.WellFormed) (hr : r.query.WellFormed)
    (hbuilt : p.query.IsBuilt) (hbuilt' : r.query.IsBuilt) (hids : p.IdsBelow next)
    (hids' : r.IdsBelow next) (hp : p ∈ plans) (hrp : r ∈ plans) (ht : t.names = p.names)
    (hu : u.names = r.names) (options : MergeOptions) :
    Agree (fun made v => made.1.Yields plans next made.2 v ∧
        (p.query.table S db = t → r.query.table S db = u →
          (made.1.table S db = v ↔ p.Pads S db r options)))
      (p.merge r options next) (t.merge? S u options) := by
  have hnames : p.opened.names = t.names := p.names_opened.trans ht.symm
  have hnames' : r.opened.names = u.names := r.names_opened.trans hu.symm
  have hfaults : Agree (fun _ _ => True) (p.merge r options next) (t.merge? S u options) := by
    unfold merge Table.merge?
    dsimp only
    rw [hnames, hnames']
    refine (Agree.refl _).bind fun kind _ hkind => ?_
    refine (Agree.refl _).bind fun names _ hkeys => ?_
    subst hkeys
    -- the right keys are looked up under the new identities, which no fault depends on
    refine Agree.bind (R := List.Forall₂ fun _ _ => True) ?_ fun _ _ _ => .ok trivial
    refine .mapM (List.forall₂_same.mpr fun _ _ => rfl) fun pair _ hpair => ?_
    subst hpair
    refine (Query.agree_lookup h.opened hbuilt.opened hnames.symm pair.1).bind fun l _ _ => ?_
    refine (Query.agree_lookup (hids'.wellFormed_rebased hr) (hbuilt'.rebased next) ?_ pair.2).bind
      fun e _ _ =>
      .ok trivial
    rw [names_rebased, hnames']
  refine hfaults.imp fun made v hq hv _ => ?_
  obtain ⟨q, next'⟩ := made
  obtain ⟨kind, leftNames, rightNames, hkind, hkeys, htable⟩ :=
    table_merge_iff S db h hr hids hids' hq
  obtain ⟨kind', hkind', hv⟩ := Attempt.bind_eq_ok.mp hv
  obtain ⟨keys', hkeys', hv⟩ := Attempt.bind_eq_ok.mp hv
  obtain ⟨_, _, hv⟩ := Attempt.bind_eq_ok.mp hv
  obtain rfl := Except.ok.inj (hkind.symm.trans hkind')
  rw [← ht, ← hu] at hkeys
  obtain rfl := Except.ok.inj (hkeys.symm.trans hkeys')
  obtain rfl := Except.ok.inj hv
  obtain ⟨hqnames, htable⟩ := htable
  refine ⟨⟨.merge hp hrp hq, ?_, ?_⟩, fun heq heq' => ?_⟩
  · rw [hqnames, ← ht, ← hu]
    rfl
  · obtain ⟨_, _, _, _, _, _, _, rfl, _⟩ := merge_eq_ok.mp hq
    intro o ho
    rw [Query.outputs_joinOn] at ho
    rcases List.mem_append.mp ho with ho | ho
    · exact hbuilt.opened o ho
    · exact hbuilt'.rebased next o (List.mem_filter.mp ho).1
  · subst heq heq'
    exact htable

end Operations

/-! ## Frames -/

/-- An attempt in front of a build needs no identity. -/
theorem Build.lift_bind {β γ : Type} (x : Attempt β) (f : β → Build γ) (next : Nat) :
    (do
      let b ← x
      f b : Build γ) next = x >>= fun b => f b next := by
  cases x <;> rfl

section Frames

variable {c : Catalog}

/-- A frame whose plan is well formed and has the columns of a table. -/
structure Frame.Denotes (c : Catalog) (next : Nat) (f : Frame) (t : Table α) : Prop where
  connection : f.connection = c.connection
  wellFormed : f.plan.query.WellFormed
  ids : f.plan.IdsBelow next
  built : f.plan.query.IsBuilt
  names : t.names = f.plan.names

/-- A frame that was made along with the next identity, from `next` on, and whose query is related
to the table. -/
structure Frame.Made (c : Catalog) (next : Nat) (R : Query → Table α → Prop) (made : Frame × Nat)
    (t : Table α) : Prop where
  le : next ≤ made.2
  denotes : made.1.Denotes c made.2 t
  related : R made.1.plan.query t

namespace Frame

variable {f g : Frame} {next next' : Nat} {t u : Table α} {R Q : Query → Table α → Prop}

/-- Identities that are handed out later do no harm. -/
theorem Denotes.mono (h : f.Denotes c next t) (hle : next ≤ next') : f.Denotes c next' t :=
  ⟨h.connection, h.wellFormed, h.ids.mono hle, h.built, h.names⟩

/-- An opened plan has the same columns. -/
theorem Denotes.opened (h : f.Denotes c next t) : t.names = f.plan.opened.names :=
  h.names.trans f.plan.names_opened.symm

/-- The frame of a query that an operation yields. -/
theorem made_build {plans : List Plan} {q : Query} (hwf : ∀ p ∈ plans, p.query.WellFormed)
    (hids : ∀ p ∈ plans, p.IdsBelow next) (hconnection : f.connection = c.connection)
    (h : q.Yields plans next next' t) (hR : R q t) :
    Made c next R ({ f with plan := ⟨next', q⟩ }, next' + 1) t := by
  obtain ⟨hq, hle, hbelow⟩ := h.step.wellFormed hwf hids
  refine ⟨Nat.le_succ_of_le hle,
    ⟨hconnection, hq, ⟨Nat.lt_succ_self _, fun r hr => ?_⟩, h.built, h.names.symm⟩, hR⟩
  exact Nat.lt_succ_of_lt (hbelow r hr)

/-- An operation on the plan of a frame makes a frame. -/
theorem Denotes.agree_build (h : f.Denotes c next t) {attempt : Attempt Query}
    {y : Attempt (Table α)}
    (hy : Agree (fun q u => q.Yields [f.plan] next next u ∧ R q u) attempt y) :
    Agree (Made c next R) (f.build attempt next) y := by
  have hwf : ∀ p ∈ [f.plan], p.query.WellFormed :=
    fun p hp => List.mem_singleton.mp hp ▸ h.wellFormed
  have hids : ∀ p ∈ [f.plan], p.IdsBelow next := fun p hp => List.mem_singleton.mp hp ▸ h.ids
  cases hy with
  | error e => exact .error e
  | ok hyields => exact .ok (made_build hwf hids h.connection hyields.1 hyields.2)

/-- So does one that may leave the plan as it is. -/
theorem Denotes.agree_buildOr (h : f.Denotes c next t) {q? : Option Query}
    (hstep : ∀ q ∈ q?, Step [f.plan] next q next ∧
      q.IsBuilt) (hnames : (q?.getD f.plan.query).names = u.names)
    (hR : R (q?.getD f.plan.query) u) : Agree (Made c next R) (f.buildOr q? next) (.ok u) := by
  cases q? with
  | none =>
    exact .ok ⟨Nat.le_refl next, ⟨h.connection, h.wellFormed, h.ids, h.built, hnames.symm⟩, hR⟩
  | some q => exact h.agree_build (.ok ⟨⟨(hstep q rfl).1, hnames, (hstep q rfl).2⟩, hR⟩)

/-- DISTINCT keeps the first of equal rows on both sides. -/
theorem Denotes.agree_distinct [DecidableEq α] (db : Database α) (h : f.Denotes c next t) :
    Agree (Made c next fun q u => f.plan.query.table S db = t → q.table S db = u) (f.distinct next)
      (.ok t.distinct) := by
  have htable : Query.table S db (f.plan.distinct?.getD f.plan.query) = _ :=
    Plan.table_distinct? h.wellFormed
  have hnames : (f.plan.distinct?.getD f.plan.query).names = f.plan.names :=
    congrArg Table.names htable
  refine h.agree_buildOr (fun q hq => ?_) (hnames.trans h.names.symm) fun heq => heq ▸ htable
  refine ⟨.distinct (List.mem_singleton_self _) hq, ?_⟩
  obtain ⟨_, rfl⟩ := Plan.distinct?_eq_some.mp hq
  exact h.built.unwindowed

/-- A window that two bounds give ends at the second one. -/
theorem stop?_of_ofValues {start? stop? : Option Number} {w : Window}
    (h : Window.ofValues (boundValue start?) (boundValue stop?) = .ok w) : w.stop? = stop? := by
  obtain ⟨first, _, h⟩ := Attempt.bind_eq_ok.mp h
  obtain ⟨behind?, hbehind, h⟩ := Attempt.bind_eq_ok.mp h
  cases h
  cases stop? with
  | none =>
    cases hbehind
    rfl
  | some n =>
    simp only [boundValue, Window.stopOf] at hbehind
    split at hbehind
    · cases hbehind
      rfl
    · cases hbehind

/-- A slice is refused for the same bounds on both sides, and keeps the same rows if these are kept
exactly. -/
theorem Denotes.agree_slice [DecidableEq α] (S : Scalars α) (db : Database α)
    (h : f.Denotes c next t) (start? stop? : Option Number) :
    Agree (Made c next fun q u =>
        (∀ stop ∈ stop?, stop.count ≤ 2 ^ 53) → f.plan.query.table S db = t → q.table S db = u)
      (f.slice (boundValue start?) (boundValue stop?) next)
      (t.slice? (boundValue start?) (boundValue stop?)) := by
  rw [slice, Build.lift_bind, Table.slice?]
  cases hw : Window.ofValues (boundValue start?) (boundValue stop?) with
  | error e => exact .error e
  | ok w =>
    refine h.agree_buildOr (fun q hq => ?_) ((f.plan.names_slice? w).trans h.names.symm)
      fun hexact heq => ?_
    · refine ⟨.slice (List.mem_singleton_self _) hw hq, ?_⟩
      obtain ⟨_, rfl⟩ := Plan.slice?_eq_some.mp hq
      exact h.built.unwindowed
    · rw [← stop?_of_ofValues hw] at hexact
      rw [Plan.table_slice? h.wellFormed (Window.count_sub hw hexact), heq]

/-- Frames of one catalog are merged on both sides, with the same rows exactly if the merge pads. -/
theorem Denotes.agree_merge [DecidableEq α] (db : Database α) (hf : f.Denotes c next t)
    (hg : g.Denotes c next u) (options : MergeOptions) :
    Agree (Made c next fun q v => f.plan.query.table S db = t → g.plan.query.table S db = u →
        (q.table S db = v ↔ f.plan.Pads S db g.plan options))
      (f.merge g options next) (t.merge? S u options) := by
  have hconnection : f.connection = g.connection := hf.connection.trans hg.connection.symm
  have hmerge : Agree (fun made v => made.1.Yields [f.plan, g.plan] next made.2 v ∧
      (f.plan.query.table S db = t → g.plan.query.table S db = u →
        (made.1.table S db = v ↔ f.plan.Pads S db g.plan options)))
      (f.plan.merge g.plan options next) (t.merge? S u options) :=
    Plan.agree_merge hf.wellFormed hg.wellFormed hf.built hg.built hf.ids hg.ids (.head _)
      (.tail _ (.head _)) hf.names hg.names options
  have hboth {P : Plan → Prop} (hp : P f.plan) (hq : P g.plan) : ∀ p ∈ [f.plan, g.plan], P p := by
    intro p hmem
    rcases List.mem_cons.mp hmem with rfl | hmem
    · exact hp
    · exact List.mem_singleton.mp hmem ▸ hq
  -- frames of one catalog are on one connection, so the check in front is passed
  have hunfold : f.merge g options next = f.plan.merge g.plan options next >>= fun made =>
      .ok ({ f with plan := ⟨made.2, made.1⟩, reported := f.reported ++ g.reported },
        made.2 + 1) := by
    unfold merge
    rw [if_neg (not_not.mpr hconnection)]
    rfl
  rw [hunfold, ← bind_pure (t.merge? S u options)]
  refine hmerge.bind fun made v hmade => .ok ?_
  obtain ⟨hyields, hrows⟩ := hmade
  obtain ⟨hle, hdenotes, _⟩ := made_build (R := fun _ _ => True) (hboth hf.wellFormed hg.wellFormed)
    (hboth hf.ids hg.ids) hf.connection hyields trivial
  exact ⟨hle, ⟨hdenotes.connection, hdenotes.wellFormed, hdenotes.ids, hdenotes.built,
    hdenotes.names⟩, hrows⟩

/-- What was made from a later identity on was made from an earlier one on. -/
theorem Made.mono {made : Frame × Nat} (hle : next ≤ next') (h : Made c next' R made t) :
    Made c next R made t :=
  ⟨Nat.le_trans hle h.le, h.denotes, h.related⟩

/-- A frame is made and then a next one from it. -/
theorem agree_bind {x : Build Frame} {y : Attempt (Table α)}
    (hxy : Agree (Made c next Q) (x next) y)
    {k : Frame → Build Frame} {k' : Table α → Attempt (Table α)}
    (hk : ∀ {f next' t}, x next = .ok (f, next') → y = .ok t → next ≤ next' → f.Denotes c next' t →
      Agree (Made c next' R) (k f next') (k' t)) :
    Agree (Made c next R) ((x >>= k) next) (y >>= k') := by
  show Agree _ (x next >>= fun made => k made.1 made.2) _
  refine (hxy.imp fun made t hx hy hmade => And.intro hx (And.intro hy hmade)).bind
    fun made t hmade => ?_
  obtain ⟨hx, hy, hmade⟩ := hmade
  exact (hk hx hy hmade.le hmade.denotes).imp fun _ _ _ _ h => h.mono hmade.le

/-- The frame of all columns of a table has the columns and the rows of that table. -/
theorem agree_ofTable [DecidableEq α] (hc : c.WellFormed)
    (hids : ∀ info ∈ c.tables, info.id < next) (name : String) :
    Agree (Made c next fun q t => q.table S db = t) (ofTable c name next)
      (c.table name >>= fun info => .ok (Table.ofInfo db info)) := by
  rw [ofTable, Build.lift_bind]
  unfold Catalog.table
  cases hfound : c.tables.find? (·.name == name) with
  | none => exact .error _
  | some info =>
    have hmem := List.mem_of_find?_eq_some hfound
    obtain ⟨hne, hnodup⟩ := hc info hmem
    have htable : Query.table S db _ = _ := Query.table_ofTable info.id info.name info.columnNames
    refine .ok
      ⟨Nat.le_succ next, ⟨rfl, .ofTable hne hnodup, ⟨Nat.lt_succ_self next, fun r hr => ?_⟩,
      fun o ho => ?_, (congrArg Table.names htable).symm⟩, htable⟩
    · rw [List.mem_singleton.mp hr]
      exact Nat.lt_succ_of_lt (hids info hmem)
    · obtain ⟨name, _, rfl⟩ := List.mem_map.mp ho
      rfl

end Frame

/-! ## Descriptions -/

/-- The identities of a catalog stay below any later one. -/
theorem Catalog.ids_mono {next next' : Nat} (hids : ∀ info ∈ c.tables, info.id < next)
    (hle : next ≤ next') : ∀ info ∈ c.tables, info.id < next' :=
  fun info hmem => Nat.lt_of_lt_of_le (hids info hmem) hle

variable [DecidableEq α] (S db c)

/-- Whatever identities are handed out, the plan of a description has the columns and the rows of
the table that it describes, and it is refused with the same fault. -/
def FrameSpec.IsFaithful (spec : FrameSpec) : Prop :=
  ∀ next, (∀ info ∈ c.tables, info.id < next) →
    (spec.build c next).map (fun made => made.1.plan.query.table S db) = spec.perform S db c

/-- If a step merges into a frame, the merge puts NULL beside every left row without a partner. -/
def StepSpec.Pads (f : Frame) (next : Nat) : StepSpec → Prop
  | .merge right on? leftOn? rightOn? how? =>
    ∀ g next', right.build c next = .ok (g, next') →
      ∀ made, f.merge g ⟨on?, leftOn?, rightOn?, how?⟩ next' = .ok made →
        f.plan.Pads S db g.plan ⟨on?, leftOn?, rightOn?, how?⟩
  | _ => True

/-- On a frame with the rows of a table, the query that a step makes has the rows of the table that
the step leads to exactly if it pads, given that what it merges is faithful. -/
def StepSpec.Follows (f : Frame) (next : Nat) (t : Table α) (step : StepSpec) (q : Query)
    (u : Table α) : Prop :=
  step.IsExact → (∀ part ∈ step.parts, part.IsFaithful S db c) → f.plan.query.table S db = t →
    (q.table S db = u ↔ step.Pads S db c f next)

variable {S db c}

/-- A step that keeps the rows follows if there is nothing to pad. -/
theorem Frame.Made.follows {f : Frame} {next : Nat} {t u : Table α} {made : Frame × Nat}
    {step : StepSpec}
    (h : Frame.Made c next (fun q u => f.plan.query.table S db = t → q.table S db = u) made u)
    (hpads : step.Pads S db c f next) : Frame.Made c next (step.Follows S db c f next t) made u :=
  ⟨h.le, h.denotes, fun _ _ ht => iff_of_true (h.related ht) hpads⟩

mutual

/-- A step on a frame does to its table what it does to a table. -/
theorem StepSpec.agree_apply (hc : c.WellFormed) {next : Nat}
    (hids : ∀ info ∈ c.tables, info.id < next) {f : Frame} {t : Table α} (h : f.Denotes c next t) :
    ∀ step : StepSpec, Agree (Frame.Made c next (step.Follows S db c f next t))
      (step.apply c f next) (step.perform S db c t)
  | .select columns => by
    rw [StepSpec.apply, StepSpec.perform]
    exact (h.agree_build (Plan.agree_project h.wellFormed h.built (.head _) h.names columns)).imp
      fun _ _ _ _ hmade => hmade.follows trivial
  | .assign name expr => by
    rw [StepSpec.apply, StepSpec.perform, Build.lift_bind]
    refine (ExprSpec.agree_toExpr h.wellFormed.opened h.built.opened h.opened expr).bind
      fun e g he => ?_
    exact (h.agree_build (Plan.agree_assign h.wellFormed h.built (.head _) h.names name he)).imp
      fun _ _ _ _ hmade => hmade.follows trivial
  | .rename mapping => by
    rw [StepSpec.apply, StepSpec.perform]
    exact (h.agree_build (Plan.agree_rename h.wellFormed h.built (.head _) h.names mapping)).imp
      fun _ _ _ _ hmade => hmade.follows trivial
  | .drop columns => by
    rw [StepSpec.apply, StepSpec.perform]
    exact (h.agree_build (Plan.agree_drop h.wellFormed h.built (.head _) h.names columns)).imp
      fun _ _ _ _ hmade => hmade.follows trivial
  | .filter predicate => by
    rw [StepSpec.apply, StepSpec.perform, Build.lift_bind]
    refine (ExprSpec.agree_toExpr h.wellFormed.opened h.built.opened h.opened predicate).bind
      fun e g he => ?_
    exact (h.agree_build (Plan.agree_filter h.wellFormed h.built (.head _) h.names he)).imp
      fun _ _ _ _ hmade => hmade.follows trivial
  | .merge right on? leftOn? rightOn? how? => by
    rw [StepSpec.apply, StepSpec.perform]
    refine Frame.agree_bind (FrameSpec.agree_build hc hids right)
      fun {g next' u} hbuild hperform hle hg => ?_
    refine ((h.mono hle).agree_merge db hg ⟨on?, leftOn?, rightOn?, how?⟩).imp
      fun made v hmerge _ hmade => ?_
    refine ⟨hmade.le, hmade.denotes, fun _ hfaithful ht => ?_⟩
    -- what is merged has its own rows
    have hu : g.plan.query.table S db = u := by
      have hright := hfaithful right (FrameSpec.mem_parts right) next hids
      rw [hbuild, hperform] at hright
      exact Except.ok.inj hright
    rw [hmade.related ht hu]
    refine ⟨fun hpads g' n' hbuild' _ _ => ?_, fun hpads => hpads g next' hbuild made hmerge⟩
    rw [hbuild] at hbuild'
    cases hbuild'
    exact hpads
  | .distinct => by
    rw [StepSpec.apply, StepSpec.perform]
    exact (h.agree_distinct db).imp fun _ _ _ _ hmade => hmade.follows trivial
  | .slice start? stop? => by
    rw [StepSpec.apply, StepSpec.perform]
    refine (h.agree_slice S db start? stop?).imp fun _ _ _ _ hmade => ?_
    exact ⟨hmade.le, hmade.denotes, fun hexact _ ht =>
      iff_of_true (hmade.related hexact ht) trivial⟩

/-- Steps that are applied one after the other lead to the columns that they lead to on a table. -/
theorem StepSpec.agree_applyAll (hc : c.WellFormed) {next : Nat}
    (hids : ∀ info ∈ c.tables, info.id < next) {f : Frame} {t : Table α} (h : f.Denotes c next t) :
    ∀ steps : List StepSpec,
      Agree (Frame.Made c next fun _ _ => True) (StepSpec.applyAll c f steps next)
      (StepSpec.performAll S db c t steps)
  | [] => .ok ⟨Nat.le_refl next, h, trivial⟩
  | step :: rest => by
    rw [StepSpec.applyAll, StepSpec.performAll]
    refine Frame.agree_bind (StepSpec.agree_apply hc hids h step) fun _ _ hle hg => ?_
    exact StepSpec.agree_applyAll hc (Catalog.ids_mono hids hle) hg rest

/-- The frame of a description has the columns that it describes. -/
theorem FrameSpec.agree_build (hc : c.WellFormed) {next : Nat}
    (hids : ∀ info ∈ c.tables, info.id < next) :
    ∀ spec : FrameSpec, Agree (Frame.Made c next fun _ _ => True) (spec.build c next)
      (spec.perform S db c)
  | .mk table steps => by
    have hperform : FrameSpec.perform S db c (.mk table steps) =
        (c.table table >>= fun info => .ok (Table.ofInfo db info)) >>= fun t =>
          StepSpec.performAll S db c t steps := by
      rw [FrameSpec.perform]
      cases c.table table <;> rfl
    rw [FrameSpec.build, hperform]
    refine Frame.agree_bind (Frame.agree_ofTable (S := S) hc hids table) fun _ _ hle hf => ?_
    exact StepSpec.agree_applyAll hc (Catalog.ids_mono hids hle) hf steps

end

end Frames

end LazyFrame
