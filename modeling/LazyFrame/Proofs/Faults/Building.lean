import LazyFrame.Proofs.Faults.Proper
import LazyFrame.Proofs.Sql.Writable
import LazyFrame.Spec.Build

/-!
# Descriptions of simple literals

A description is *simple* when no literal in it is an object (`FrameSpec.IsSimple`); whatever is
read from a request is. A simple description is built into a frame of a proper query or fails by a
mistake of the caller (`FrameSpec.build_ends`). Over a catalog whose columns have texts for names,
so does the text of that frame (`FrameSpec.sql_ends`). The proof follows the description:
`Build.EndsWell` is closed under sequences, and each step is one of the operations on proper plans.
-/

namespace LazyFrame

open Attempt (Ends EndsWell)

/-! ## Statements of proper queries -/

/-- A simple value that is no literal has a text, which the complaint shows. -/
theorem Dialect.literal_ends {v : Value} (h : v.isObject = false) :
    EndsWell (fun _ => True) (Dialect.literal v) := by
  cases v with
  | null | text | bool | integer => exact .ok trivial
  | number n =>
    cases n with
    | finite | negZero => exact .ok trivial
    | nan | infinity => exact .error (.inl rfl)
  | missing | half => exact .error (.inl rfl)
  | instant | list | record => cases h

/-- A relation that has no alias is a fault of the caller. -/
theorem Scope.owner_ends (scope : Scope) (r : Relation) :
    EndsWell (fun _ => True) (scope.owner r) := by
  unfold owner
  cases scope.lookup r with
  | some name => exact .ok trivial
  | none => exact .error (.inl rfl)

/-- A proper expression is rendered in a scope, or its fault is one of the caller. -/
theorem Expr.IsProper.resolve_ends {e : Expr} (h : e.IsProper) (scope : Scope) :
    EndsWell (fun _ => True) (e.resolve scope) := by
  induction e with
  | column r name =>
    rw [Expr.resolve]
    exact (scope.owner_ends r).bind fun _ _ => .ite (fun _ => .ok trivial) fun _ =>
      .error (.inl rfl)
  | literal value =>
    rw [Expr.resolve]
    exact (Dialect.literal_ends h).bind fun _ _ => .ok trivial
  | binary op l r ihl ihr =>
    rw [Expr.resolve]
    exact (ihl h.1).bind fun _ _ => (ihr h.2).bind fun _ _ => .ok trivial
  | unary op e ih | aggregate fn e ih =>
    rw [Expr.resolve]
    exact (ih h).bind fun _ _ => .ok trivial
  | countRows => exact .ok trivial
  | given description => exact absurd h id

/-- So is a proper filter. -/
theorem Selection.resolveFilter_ends {s : Selection} (h : s.IsProper) (scope : Scope) :
    EndsWell (fun _ => True) (s.resolveFilter scope) := by
  unfold resolveFilter
  cases hfilter : s.filter? with
  | none => exact .ok trivial
  | some e =>
    refine .ite (fun _ => .error (.inl rfl)) fun _ => ?_
    exact ((h.filter e hfilter).resolve_ends scope).bind fun _ _ => .ok trivial

/-- So is a proper SELECT over a source that is. -/
theorem Selection.resolve_ends {s : Selection} (h : s.IsProper) (visible : List Relation)
    {source : Scope → Nat → Attempt (FromItem × Nat)}
    (hsource : ∀ scope n, EndsWell (fun _ => True) (source scope n)) (n : Nat) :
    EndsWell (fun _ => True) (s.resolve visible source n) := by
  have hfields (scope : Scope) :
      EndsWell (fun fields => ∀ f ∈ fields, True) (s.outputs.mapM (Output.resolve scope)) :=
    .mapM fun o ho => ((h.outputs o ho).resolve_ends scope).bind fun _ _ => .ok trivial
  unfold resolve
  refine .ite (fun _ => .error (.inl rfl)) fun _ => ?_
  refine (hfields _).bind fun _ _ => (hsource _ _).bind fun _ _ =>
    (resolveFilter_ends h _).bind fun _ _ => ?_
  rw [Bound.checkBoth_eq_ok h.limit h.offset]
  exact .ok trivial

/-- So is a proper source. -/
theorem Source.resolve_ends {s : Source} (h : s.IsProper) (scope : Scope) (n : Nat) :
    EndsWell (fun _ => True) (s.resolve scope n) := by
  induction s generalizing scope n with
  | table id name columns =>
    rw [resolve]
    exact (scope.owner_ends _).bind fun _ _ => .ok trivial
  | derived id source selection ih =>
    rw [resolve]
    exact (Selection.resolve_ends h.2 _ (fun scope n => ih h.1 scope n) n).bind fun _ _ =>
      (scope.owner_ends _).bind fun _ _ => .ok trivial
  | join left right kind keys condition? ihl ihr =>
    obtain ⟨hl, hr, hkeys, hcondition⟩ := h
    have hconjuncts :
        EndsWell (fun conjuncts => ∀ c ∈ conjuncts, True) (keys.mapM (JoinKey.resolve scope)) :=
      .mapM fun key hkey => ((hkeys key hkey).left.resolve_ends scope).bind fun _ _ =>
        ((hkeys key hkey).right.resolve_ends scope).bind fun _ _ => .ok trivial
    have hextra : EndsWell (fun _ => True) (resolveCondition scope condition?) := by
      cases condition? with
      | none => exact .ok trivial
      | some e => exact ((hcondition e rfl).resolve_ends scope).bind fun _ _ => .ok trivial
    rw [resolve]
    exact (ihl hl scope n).bind fun l _ => (ihr hr scope l.2).bind fun _ _ =>
      hconjuncts.bind fun _ _ => hextra.bind fun _ _ => .ok trivial

/-- The statement of a proper query is rendered, or its fault is one of the caller. -/
theorem Query.statement_ends {q : Query} (h : q.IsProper) : EndsWell (fun _ => True) q.statement :=
  (Selection.resolve_ends h.selection q.source.visible
    (fun scope n => Source.resolve_ends h.source scope n) 1).bind fun _ _ => .ok trivial

/-- A proper query has a text, or there is none by a mistake of the caller. -/
theorem Query.sql_ends {q : Query} (h : q.IsProper) (d : Dialect) :
    EndsWell (fun _ => True) (q.sql d) :=
  (Query.statement_ends h).bind fun _ _ => .ok trivial

/-! ## Simple descriptions -/

mutual

/-- No literal of an expression is an object. -/
def ExprSpec.IsSimple : ExprSpec → Prop
  | .col _ => True
  | .lit value => value.isObject = false
  | .op _ args => ExprSpec.AreSimple args

/-- No literal of the expressions is one. -/
def ExprSpec.AreSimple : List ExprSpec → Prop
  | [] => True
  | arg :: rest => ExprSpec.IsSimple arg ∧ ExprSpec.AreSimple rest

end

mutual

/-- No literal of a step is an object. -/
def StepSpec.IsSimple : StepSpec → Prop
  | .assign _ expr => expr.IsSimple
  | .filter predicate => predicate.IsSimple
  | .merge right _ _ _ _ => FrameSpec.IsSimple right
  | _ => True

/-- No literal of the steps is one. -/
def StepSpec.AreSimple : List StepSpec → Prop
  | [] => True
  | step :: rest => StepSpec.IsSimple step ∧ StepSpec.AreSimple rest

/-- No literal of a description is one, nor of the descriptions that it merges. -/
def FrameSpec.IsSimple : FrameSpec → Prop
  | .mk _ steps => StepSpec.AreSimple steps

end

/-- Simple expressions are those that are simple one by one. -/
theorem ExprSpec.areSimple_iff {specs : List ExprSpec} :
    AreSimple specs ↔ ∀ spec ∈ specs, spec.IsSimple := by
  induction specs with
  | nil => simp [AreSimple]
  | cons spec rest ih => simp [AreSimple, ih]

/-- Simple steps are those that are simple one by one. -/
theorem StepSpec.areSimple_iff {steps : List StepSpec} :
    AreSimple steps ↔ ∀ step ∈ steps, step.IsSimple := by
  induction steps with
  | nil => simp [AreSimple]
  | cons step rest ih => simp [AreSimple, ih]

/-! ## Frames -/

namespace Build

variable {α β : Type}

/-- Whatever the next identity is, the computation succeeds with such a result or fails by a mistake
of the caller. -/
def EndsWell (Q : α → Prop) (x : Build α) : Prop :=
  ∀ next, Attempt.EndsWell (fun made => Q made.1) (x next)

/-- Building something on top of what was built ends as it does behind such frames. -/
theorem EndsWell.bind {Q : α → Prop} {R : β → Prop} {x : Build α} (h : EndsWell Q x)
    {f : α → Build β} (hf : ∀ a, Q a → EndsWell R (f a)) : EndsWell R (x >>= f) :=
  fun next => (h next).bind fun made hmade => hf made.1 hmade made.2

/-- What needs no identities ends as it does by itself. -/
theorem EndsWell.lift {Q : α → Prop} {x : Attempt α} (h : Attempt.EndsWell Q x) :
    EndsWell Q (liftM x : Build α) :=
  fun _ => h.bind fun _ ha => .ok ha

end Build

/-- A frame of a catalog whose query is proper. What is reported for names of its columns is so in
the catalog. -/
structure Frame.IsProper (c : Catalog) (f : Frame) : Prop where
  connection : f.connection = c.connection
  reported : ∀ entry ∈ f.reported, ∃ t ∈ c.tables, entry ∈ t.reportedNames
  query : f.plan.query.IsProper

/-- All columns of a catalog have texts for names. -/
def Catalog.NamesAreTexts (c : Catalog) : Prop := ∀ t ∈ c.tables, t.reportedNames = []

namespace Frame.IsProper

variable {c : Catalog} {f g : Frame}

/-- A frame of a proper query over the same catalog is proper. -/
theorem build_ends (h : f.IsProper c) {attempt : Attempt Query}
    (ha : EndsWell Query.IsProper attempt) : Build.EndsWell (Frame.IsProper c) (f.build attempt) :=
  (Build.EndsWell.lift ha).bind fun _ hq _ => .ok ⟨h.connection, h.reported, hq⟩

/-- So is the frame itself where there is no new query. -/
theorem buildOr_ends (h : f.IsProper c) {q? : Option Query} (hq : ∀ q ∈ q?, q.IsProper) :
    Build.EndsWell (Frame.IsProper c) (f.buildOr q?) := by
  cases q? with
  | none => exact fun _ => .ok h
  | some q => exact h.build_ends (.ok (hq q rfl))

/-- Two frames of one catalog are over one connection, so a merge is not refused for that. -/
theorem merge_ends (hf : f.IsProper c) (hg : g.IsProper c) (options : MergeOptions) :
    Build.EndsWell (Frame.IsProper c) (f.merge g options) := by
  have hconnection : ¬f.connection ≠ g.connection :=
    fun hne => hne (hf.connection.trans hg.connection.symm)
  have hmerge : Build.EndsWell Query.IsProper fun next => f.plan.merge g.plan options next :=
    fun next => Plan.merge_ends hf.query hg.query options next
  have hreported := List.forall_mem_append.mpr ⟨hf.reported, hg.reported⟩
  have hboth : Frame.IsProper c { f with reported := f.reported ++ g.reported } :=
    ⟨hf.connection, hreported, hf.query⟩
  unfold Frame.merge
  rw [if_neg hconnection]
  exact hmerge.bind fun q hq => hboth.build_ends (.ok hq)

/-- A slice gives a proper frame, or a fault of the caller. -/
theorem slice_ends (h : f.IsProper c) (start? stop? : Option Number) :
    Build.EndsWell (Frame.IsProper c) (f.slice (boundValue start?) (boundValue stop?)) := by
  have hstart : EndsWell (fun _ => True) (Window.startOf (boundValue start?)) := by
    cases start? with
    | none => exact .ok trivial
    | some n => exact .ite (fun _ => .ok trivial) fun _ => .error (.inl rfl)
  have hstop (first : Number) :
      EndsWell (fun _ => True) (Window.stopOf first (boundValue stop?)) := by
    cases stop? with
    | none => exact .ok trivial
    | some n => exact .ite (fun _ => .ok trivial) fun _ => .error (.inl rfl)
  have hwindow :
      EndsWell (fun _ => True) (Window.ofValues (boundValue start?) (boundValue stop?)) :=
    hstart.bind fun first _ => (hstop first).bind fun _ _ => .ok trivial
  exact (Build.EndsWell.lift hwindow).bind fun w _ =>
    h.buildOr_ends (Plan.isProper_slice? h.query w)

/-- A proper frame has its text, or its fault is one of the caller. -/
theorem sql_ends (h : f.IsProper c) (hc : c.NamesAreTexts) : EndsWell (fun _ => True) f.sql := by
  have hnone : f.reported = [] := by
    refine List.eq_nil_iff_forall_not_mem.mpr fun entry hentry => ?_
    obtain ⟨t, ht, hreported⟩ := h.reported entry hentry
    rw [hc t ht] at hreported
    cases hreported
  unfold Frame.sql Frame.sqlOf
  rw [hnone]
  exact Query.sql_ends h.query f.dialect

end Frame.IsProper

/-! ## Building -/

namespace ExprSpec

/-- An operator on proper operands is proper, or unknown, which is a fault of the caller. -/
theorem applied_ends (name : String) {operands : List Expr} (h : ∀ e ∈ operands, e.IsProper) :
    EndsWell Expr.IsProper (applied name operands) := by
  -- an operand that is not there is a literal all the same
  have hoperand (i : Nat) : (operands.getD i (.literal .missing)).IsProper := by
    rw [List.getD_eq_getElem?_getD]
    cases hi : operands[i]? with
    | none => rfl
    | some e => exact h e (List.mem_of_getElem? hi)
  unfold applied
  cases UnaryOp.ofName? name with
  | some unary => exact .ok (hoperand 0)
  | none =>
    cases BinaryOp.ofName? name with
    | some binary => exact .ok ⟨hoperand 0, hoperand 1⟩
    | none => exact .error (.inl rfl)

mutual

/-- A simple expression over a proper frame is proper. -/
theorem toExpr_ends {c : Catalog} {f : Frame} (h : f.IsProper c) :
    ∀ spec : ExprSpec, spec.IsSimple → EndsWell Expr.IsProper (toExpr f spec)
  | .col name, _ => by
    rw [toExpr]
    exact Plan.lookup_ends h.query name
  | .lit value, hsimple => by
    rw [toExpr]
    exact .ok hsimple
  | .op name args, hsimple => by
    rw [toExpr]
    exact (argExprs_ends h args hsimple).bind fun _ hoperands => applied_ends name hoperands

/-- Simple operands become proper expressions, or their fault is one of the caller. -/
theorem argExprs_ends {c : Catalog} {f : Frame} (h : f.IsProper c) :
    ∀ specs : List ExprSpec, AreSimple specs →
      EndsWell (fun es => ∀ e ∈ es, e.IsProper) (argExprs f specs)
  | [], _ => by
    rw [argExprs]
    exact .ok fun _ he => absurd he List.not_mem_nil
  | arg :: rest, hsimple => by
    rw [argExprs]
    refine (toExpr_ends h arg hsimple.1).bind fun first hfirst => ?_
    refine (argExprs_ends h rest hsimple.2).bind fun others hothers => .ok fun e he => ?_
    rcases List.mem_cons.mp he with rfl | he
    · exact hfirst
    · exact hothers e he

end

end ExprSpec

variable {c : Catalog}

/-- A table of the catalog is a proper frame, and one that is not there is a fault of the caller. -/
theorem Frame.ofTable_ends (c : Catalog) (name : String) :
    Build.EndsWell (Frame.IsProper c) (Frame.ofTable c name) := by
  have htable : EndsWell (fun t => t ∈ c.tables) (c.table name) := by
    unfold Catalog.table
    cases hfound : c.tables.find? (·.name == name) with
    | some t => exact .ok (List.mem_of_find?_eq_some hfound)
    | none => exact .error (.inr rfl)
  exact (Build.EndsWell.lift htable).bind fun t ht _ =>
    .ok ⟨rfl, fun _ hentry => ⟨t, ht, hentry⟩, Query.isProper_ofTable ..⟩

mutual

/-- A simple step on a proper frame makes a proper frame. -/
theorem StepSpec.apply_ends {f : Frame} (h : f.IsProper c) :
    ∀ step : StepSpec, step.IsSimple → Build.EndsWell (Frame.IsProper c) (step.apply c f)
  | .select columns, _ => by
    rw [StepSpec.apply]
    exact h.build_ends (Plan.project_ends h.query columns)
  | .assign name expr, hsimple => by
    rw [StepSpec.apply]
    exact (Build.EndsWell.lift (ExprSpec.toExpr_ends h expr hsimple)).bind fun e he =>
      h.build_ends (Plan.assign_ends h.query name he)
  | .rename mapping, _ => by
    rw [StepSpec.apply]
    exact h.build_ends (Plan.rename_ends h.query mapping)
  | .drop columns, _ => by
    rw [StepSpec.apply]
    exact h.build_ends (Plan.drop_ends h.query columns)
  | .filter predicate, hsimple => by
    rw [StepSpec.apply]
    exact (Build.EndsWell.lift (ExprSpec.toExpr_ends h predicate hsimple)).bind fun e he =>
      h.build_ends (Plan.filter_ends h.query he)
  | .merge right on? leftOn? rightOn? how?, hsimple => by
    rw [StepSpec.apply]
    exact (FrameSpec.build_ends right hsimple).bind fun g hg =>
      h.merge_ends hg ⟨on?, leftOn?, rightOn?, how?⟩
  | .distinct, _ => by
    rw [StepSpec.apply]
    exact h.buildOr_ends (Plan.isProper_distinct? h.query)
  | .slice start? stop?, _ => by
    rw [StepSpec.apply]
    exact h.slice_ends start? stop?

/-- So do several steps, one after the other. -/
theorem StepSpec.applyAll_ends {f : Frame} (h : f.IsProper c) :
    ∀ steps : List StepSpec, StepSpec.AreSimple steps →
      Build.EndsWell (Frame.IsProper c) (StepSpec.applyAll c f steps)
  | [], _ => by
    rw [StepSpec.applyAll]
    exact fun _ => .ok h
  | step :: rest, hsimple => by
    rw [StepSpec.applyAll]
    exact (StepSpec.apply_ends h step hsimple.1).bind fun _ hg =>
      StepSpec.applyAll_ends hg rest hsimple.2

/-- A simple description makes a proper frame. -/
theorem FrameSpec.build_ends :
    ∀ spec : FrameSpec, spec.IsSimple → Build.EndsWell (Frame.IsProper c) (spec.build c)
  | .mk table steps, hsimple => by
    rw [FrameSpec.build]
    exact (Frame.ofTable_ends c table).bind fun _ hf => StepSpec.applyAll_ends hf steps hsimple

end

/-- A simple description has a text, or there is none by a mistake of the caller. -/
theorem FrameSpec.sql_ends (hc : c.NamesAreTexts) {spec : FrameSpec} (h : spec.IsSimple)
    (next : Nat) : EndsWell (fun _ => True) (spec.sql c next) :=
  (FrameSpec.build_ends spec h next).bind fun _ hf => hf.sql_ends hc

end LazyFrame
