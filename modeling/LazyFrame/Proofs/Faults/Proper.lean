import LazyFrame.Proofs.Scope.Preservation
import LazyFrame.Sql.Resolve

/-!
# Mistakes of a caller

Some faults are mistakes of a caller and are answered as such (`Fault.IsClient`); the others have no
status, and a server can only answer that something went wrong inside. `Attempt.Ends` says of an
attempt what it may end in: a result of some kind or a fault of some kind. It is closed under
sequences and lists.

A query is *proper* when it is what the operations on plans are meant to make: its expressions come
from builders and hold simple literals, and its bounds are numbers (`Query.IsProper`). Every
operation on proper plans ends in a proper query or in a mistake of the caller (`Plan.project_ends`
… `Plan.merge_ends`), and the statement of a proper query fails by such a mistake only
(`Query.statement_ends`). Nothing is asked about scopes: a column that is not there is a mistake of
the caller, too.
-/

namespace LazyFrame

/-- A fault that is answered as a mistake of the caller. -/
def Fault.IsClient (f : Fault) : Prop := f.status? = some 400 ∨ f.status? = some 404

/-! ## What an attempt ends in -/

namespace Attempt

variable {α β : Type}

/-- The attempt succeeds with such a result or fails with such a fault. -/
inductive Ends (F : Fault → Prop) (Q : α → Prop) : Attempt α → Prop where
  | ok {a : α} (h : Q a) : Ends F Q (.ok a)
  | error {e : Fault} (h : F e) : Ends F Q (.error e)

namespace Ends

variable {F : Fault → Prop} {Q : α → Prop} {R : β → Prop}

/-- The fault of an attempt that fails is one that it may fail with. -/
theorem of_error {x : Attempt α} (h : Ends F Q x) {e : Fault} (he : x = .error e) : F e := by
  cases h with
  | ok _ => cases he
  | error h =>
    cases he
    exact h

/-- The value of an attempt that succeeds is as it should be. -/
theorem of_ok {x : Attempt α} (h : Ends F Q x) {a : α} (ha : x = .ok a) : Q a := by
  cases h with
  | ok h =>
    cases ha
    exact h
  | error _ => cases ha

/-- An attempt that goes on with the value of another one ends as it does behind such values. -/
theorem bind {x : Attempt α} (h : Ends F Q x) {f : α → Attempt β} (hf : ∀ a, Q a → Ends F R (f a)) :
    Ends F R (x >>= f) := by
  cases h with
  | ok h => exact hf _ h
  | error h => exact .error h

/-- An attempt may end in more ways than it does. -/
theorem mono {x : Attempt α} {G : Fault → Prop} {Q' : α → Prop} (h : Ends F Q x)
    (hF : ∀ e, F e → G e) (hQ : ∀ a, Q a → Q' a) : Ends G Q' x := by
  cases h with
  | ok h => exact .ok (hQ _ h)
  | error h => exact .error (hF _ h)

/-- A case distinction ends as its cases do. -/
theorem ite {c : Prop} [Decidable c] {x y : Attempt α} (hx : c → Ends F Q x)
    (hy : ¬c → Ends F Q y) : Ends F Q (if c then x else y) := by
  by_cases h : c
  · rw [if_pos h]
    exact hx h
  · rw [if_neg h]
    exact hy h

/-- Attempts along a list give a list of such values. -/
theorem mapM {f : β → Attempt α} {l : List β} (h : ∀ b ∈ l, Ends F Q (f b)) :
    Ends F (fun as => ∀ a ∈ as, Q a) (l.mapM f) := by
  induction l with
  | nil => exact .ok fun _ ha => absurd ha List.not_mem_nil
  | cons b rest ih =>
    rw [List.mapM_cons]
    refine (h b (List.mem_cons_self ..)).bind fun a ha => ?_
    refine (ih fun c hc => h c (List.mem_cons_of_mem _ hc)).bind fun as has => .ok fun a' ha' => ?_
    rcases List.mem_cons.mp ha' with rfl | ha'
    · exact ha
    · exact has a' ha'

/-- Checks along a list end as each of them does. -/
theorem forM {f : β → Attempt Unit} {l : List β} (h : ∀ b ∈ l, Ends F (fun _ => True) (f b)) :
    Ends F (fun _ => True) (l.forM f) := by
  induction l with
  | nil => exact .ok trivial
  | cons b rest ih =>
    exact (h b (List.mem_cons_self ..)).bind fun _ _ => ih fun c hc =>
      h c (List.mem_cons_of_mem _ hc)

end Ends

/-- The attempt succeeds with such a result or fails by a mistake of the caller. -/
abbrev EndsWell (Q : α → Prop) (x : Attempt α) : Prop := Ends Fault.IsClient Q x

end Attempt

open Attempt (Ends EndsWell)

/-! ## Proper queries -/

/-- An expression that builders make of columns and simple literals. -/
def Expr.IsProper : Expr → Prop
  | column _ _ => True
  | literal value => value.isObject = false
  | binary _ left right => left.IsProper ∧ right.IsProper
  | unary _ operand => operand.IsProper
  | aggregate _ operand => operand.IsProper
  | countRows => True
  | given _ => False

/-- Outputs and filter are proper expressions, and the bounds are numbers. -/
structure Selection.IsProper (s : Selection) : Prop where
  outputs : ∀ o ∈ s.outputs, o.expr.IsProper
  filter : ∀ e ∈ s.filter?, e.IsProper
  limit : ∀ b ∈ s.limit?, b.IsCount
  offset : ∀ b ∈ s.offset?, b.IsCount

/-- Both sides of a key are proper. -/
structure JoinKey.IsProper (key : JoinKey) : Prop where
  left : key.left.IsProper
  right : key.right.IsProper

/-- All expressions of a source are proper, those inside of its subqueries too. -/
def Source.IsProper : Source → Prop
  | .table _ _ _ => True
  | .derived _ source selection => source.IsProper ∧ selection.IsProper
  | .join left right _ keys condition? =>
    left.IsProper ∧ right.IsProper ∧ (∀ key ∈ keys, key.IsProper) ∧ ∀ e ∈ condition?, e.IsProper

/-- All expressions of a query are proper, those inside of its subqueries too. -/
structure Query.IsProper (q : Query) : Prop where
  source : q.source.IsProper
  selection : q.selection.IsProper

namespace Expr.IsProper

variable {e : Expr}

/-- A proper expression was made by builders. -/
theorem isBuilt (h : e.IsProper) : e.isBuilt = true := by
  induction e with
  | column | literal | countRows => rfl
  | binary op l r ihl ihr => rw [Expr.isBuilt, ihl h.1, ihr h.2, Bool.and_self]
  | unary op e ih | aggregate fn e ih => exact ih h
  | given description => exact absurd h id

/-- A proper expression is proper over other relations as well. -/
theorem substitute (h : e.IsProper) (map : Relabelling) : (e.substitute map).IsProper := by
  induction e with
  | column r name =>
    rw [substitute_column]
    trivial
  | literal value => exact h
  | binary op l r ihl ihr =>
    rw [substitute_binary]
    exact ⟨ihl h.1, ihr h.2⟩
  | unary op e ih =>
    rw [substitute_unary]
    exact ih h
  | aggregate fn e ih =>
    rw [substitute_aggregate]
    exact ih h
  | countRows => trivial
  | given description => exact absurd h id

/-- What is put together of proper conditions is proper. -/
theorem conjoin {a? b? : Option Expr} (ha : ∀ e ∈ a?, e.IsProper) (hb : ∀ e ∈ b?, e.IsProper) :
    ∀ e ∈ Expr.conjoin a? b?, e.IsProper := by
  intro e he
  cases a? with
  | none => exact hb e he
  | some a =>
    cases b? with
    | none => exact ha e he
    | some b =>
      cases he
      exact ⟨ha a rfl, hb b rfl⟩

end Expr.IsProper

/-- A SELECT of proper outputs under a proper filter is proper. -/
theorem Selection.IsProper.plain {outputs : List Output} {filter? : Option Expr}
    (houtputs : ∀ o ∈ outputs, o.expr.IsProper) (hfilter : ∀ e ∈ filter?, e.IsProper) :
    (Selection.plain outputs filter?).IsProper :=
  ⟨houtputs, hfilter, fun _ hb => (by cases hb), fun _ hb => (by cases hb)⟩

/-- A proper source is proper over other relations as well. -/
theorem Source.IsProper.relabel {s : Source} (h : s.IsProper) (map : Relabelling) :
    (s.relabel map).IsProper := by
  induction s with
  | table id name columns =>
    rw [relabel_table]
    trivial
  | derived id source selection =>
    rw [relabel_derived]
    exact h
  | join left right kind keys condition? ihl ihr =>
    obtain ⟨hl, hr, hkeys, hcondition⟩ := h
    refine ⟨ihl hl, ihr hr, fun key hkey => ?_, fun e he => ?_⟩
    · obtain ⟨old, hold, rfl⟩ := List.mem_map.mp hkey
      exact ⟨(hkeys old hold).left.substitute map, (hkeys old hold).right.substitute map⟩
    · obtain ⟨old, hold, rfl⟩ := Option.map_eq_some_iff.mp he
      exact (hcondition old hold).substitute map

namespace Query

/-- Columns that are passed on are proper. -/
theorem isProper_passThrough (r : Relation) : ∀ o ∈ passThrough r, o.expr.IsProper := by
  intro o ho
  obtain ⟨name, _, rfl⟩ := List.mem_map.mp ho
  trivial

/-- A query of a whole table is proper. -/
theorem isProper_ofTable (id : Nat) (name : String) (columns : List String) :
    (ofTable id name columns).IsProper :=
  ⟨trivial, .plain (isProper_passThrough _) fun _ he => by cases he⟩

namespace IsProper

variable {q : Query}

/-- A proper query is proper over other relations as well. -/
theorem relabel (h : q.IsProper) (map : Relabelling) : (q.relabel map).IsProper := by
  refine ⟨h.source.relabel map, fun o ho => ?_, fun e he => ?_, h.selection.limit,
    h.selection.offset⟩
  · obtain ⟨old, hold, rfl⟩ := List.mem_map.mp ho
    exact (h.selection.outputs old hold).substitute map
  · obtain ⟨old, hold, rfl⟩ := Option.map_eq_some_iff.mp he
    exact (h.selection.filter old hold).substitute map

/-- Other proper outputs leave a query proper. -/
theorem withOutputs (h : q.IsProper) {outputs : List Output}
    (houtputs : ∀ o ∈ outputs, o.expr.IsProper) : (q.withOutputs outputs).IsProper :=
  ⟨h.source, houtputs, h.selection.filter, h.selection.limit, h.selection.offset⟩

/-- A join of proper queries on proper keys is proper. -/
theorem joinOn {left right : Query} (hl : left.IsProper) (hr : right.IsProper) (kind : JoinKind)
    {keys : List JoinKey} (hkeys : ∀ key ∈ keys, key.IsProper) :
    (left.joinOn right kind keys).IsProper := by
  have houtputs : ∀ o ∈ left.selection.outputs ++ right.selection.outputs.filter fun output =>
      !left.names.contains output.name, o.expr.IsProper := by
    intro o ho
    rcases List.mem_append.mp ho with ho | ho
    · exact hl.selection.outputs o ho
    · exact hr.selection.outputs o (List.mem_filter.mp ho).1
  cases kind with
  | inner =>
    have hfilter := Expr.IsProper.conjoin hl.selection.filter hr.selection.filter
    exact ⟨⟨hl.source, hr.source, hkeys, fun _ he => by cases he⟩, .plain houtputs hfilter⟩
  | left =>
    exact ⟨⟨hl.source, hr.source, hkeys, hr.selection.filter⟩, .plain houtputs hl.selection.filter⟩

/-- A proper plan is proper when it is opened. -/
theorem opened {p : Plan} (h : p.query.IsProper) : p.opened.IsProper := by
  unfold Plan.opened
  split
  · exact ⟨⟨h.source, h.selection⟩, .plain (isProper_passThrough _) fun _ he => by cases he⟩
  · exact h

/-- A proper plan is proper under a window or DISTINCT. -/
theorem unwindowed {p : Plan} (h : p.query.IsProper) : p.unwindowed.IsProper := by
  unfold Plan.unwindowed
  split
  · exact h.opened
  · exact h

end IsProper

end Query

/-! ## Operations -/

namespace Query

variable {q : Query}

/-- Looking up a column gives a proper expression, or a fault of the caller. -/
theorem lookup_ends (h : q.IsProper) (name : String) : EndsWell Expr.IsProper (q.lookup name) := by
  unfold lookup
  cases hfound : q.selection.outputs.find? (·.name == name) with
  | some o => exact .ok (h.selection.outputs o (List.mem_of_find?_eq_some hfound))
  | none => exact .error (.inl rfl)

/-- An expression of builders refers to columns only, and a column that is not in scope is a mistake
of the caller. -/
theorem checkScope_ends (q : Query) {e : Expr} (he : e.IsProper) :
    EndsWell (fun _ => True) (q.checkScope e) := by
  unfold checkScope
  rw [Expr.references_of_isBuilt he.isBuilt]
  refine .forM fun ref href => ?_
  obtain ⟨column, _, rfl⟩ := List.mem_map.mp href
  exact .ite (fun _ => .error (.inl rfl)) fun _ =>
    .ite (fun _ => .error (.inl rfl)) fun _ => .ok trivial

end Query

/-- Names that stand twice are a fault of the caller. -/
theorem checkUnique_ends (names : List String) : EndsWell (fun _ => True) (checkUnique names) := by
  unfold checkUnique
  cases firstRepeated [] names with
  | some name => exact .error (.inl rfl)
  | none => exact .ok trivial

namespace Plan

variable {p r : Plan}

/-- Looking up a column of a plan gives a proper expression, or a fault of the caller. -/
theorem lookup_ends (h : p.query.IsProper) (name : String) :
    EndsWell Expr.IsProper (p.lookup name) :=
  Query.lookup_ends h.opened name

/-- A selection of columns gives a proper query, or a fault of the caller. -/
theorem project_ends (h : p.query.IsProper) (names : List String) :
    EndsWell Query.IsProper (p.project names) := by
  unfold project
  refine .ite (fun _ => .error (.inl rfl)) fun _ => (checkUnique_ends names).bind fun _ _ => ?_
  have houtputs : EndsWell (fun outputs => ∀ o ∈ outputs, o.expr.IsProper)
      (names.mapM fun name => p.opened.lookup name >>= fun e => Except.ok (Output.mk name e)) :=
    .mapM fun name _ => (Query.lookup_ends h.opened name).bind fun e he => .ok he
  exact houtputs.bind fun outputs ho => .ok (h.opened.withOutputs ho)

/-- An assignment of a proper expression gives a proper query, or a fault of the caller. -/
theorem assign_ends (h : p.query.IsProper) (name : String) {e : Expr} (he : e.IsProper) :
    EndsWell Query.IsProper (p.assign name e) := by
  unfold assign
  refine (Query.checkScope_ends _ he).bind fun _ _ =>
    .ite (fun _ => .error (.inl rfl)) fun _ => .ok ?_
  refine h.opened.withOutputs fun o ho => ?_
  rcases Query.WellFormed.mem_setOutput ho with rfl | ho
  · exact he
  · exact h.opened.selection.outputs o ho

/-- A renaming gives a proper query, or a fault of the caller. -/
theorem rename_ends (h : p.query.IsProper) (mapping : List (String × String)) :
    EndsWell Query.IsProper (p.rename mapping) := by
  have hknown : EndsWell (fun _ => True) (mapping.forM fun entry =>
      if p.opened.names.contains entry.1 then .ok ()
        else .error (.unknownColumn entry.1 (some .toRename))) :=
    .forM fun entry _ => .ite (fun _ => .ok trivial) fun _ => .error (.inl rfl)
  unfold rename
  refine hknown.bind fun _ _ => (checkUnique_ends _).bind fun _ _ =>
    .ok (h.opened.withOutputs fun o ho => ?_)
  obtain ⟨old, hold, rfl⟩ := List.mem_map.mp ho
  exact h.opened.selection.outputs old hold

/-- Leaving columns out gives a proper query, or a fault of the caller. -/
theorem drop_ends (h : p.query.IsProper) (names : List String) :
    EndsWell Query.IsProper (p.drop names) := by
  have hknown : EndsWell (fun _ => True) (names.forM fun name =>
      if p.opened.names.contains name then .ok ()
        else .error (.unknownColumn name (some .toDrop))) :=
    .forM fun name _ => .ite (fun _ => .ok trivial) fun _ => .error (.inl rfl)
  unfold drop
  refine hknown.bind fun _ _ => .ite (fun _ => .error (.inl rfl)) fun _ =>
    .ok (h.opened.withOutputs fun o ho => ?_)
  exact h.opened.selection.outputs o (List.mem_filter.mp ho).1

/-- A proper filter gives a proper query, or a fault of the caller. -/
theorem filter_ends (h : p.query.IsProper) {e : Expr} (he : e.IsProper) :
    EndsWell Query.IsProper (p.filter e) := by
  have hb := h.opened
  have hfilter : ∀ f ∈ Expr.conjoin p.opened.selection.filter? (some e), f.IsProper :=
    .conjoin hb.selection.filter fun f hf => by
      cases hf
      exact he
  unfold filter
  refine (Query.checkScope_ends _ he).bind fun _ _ =>
    .ite (fun _ => .error (.inl rfl)) fun _ => .ok ?_
  exact ⟨hb.source, hb.selection.outputs, hfilter, hb.selection.limit, hb.selection.offset⟩

/-- DISTINCT leaves a query proper. -/
theorem isProper_distinct? (h : p.query.IsProper) : ∀ q ∈ p.distinct?, q.IsProper := by
  intro q hq
  obtain ⟨_, rfl⟩ := distinct?_eq_some.mp hq
  have hb := h.unwindowed
  exact ⟨hb.source, hb.selection.outputs, hb.selection.filter, hb.selection.limit,
    hb.selection.offset⟩

/-- A window leaves a query proper. -/
theorem isProper_slice? (h : p.query.IsProper) (w : Window) : ∀ q ∈ p.slice? w, q.IsProper := by
  intro q hq
  obtain ⟨_, rfl⟩ := slice?_eq_some.mp hq
  have hb := h.unwindowed
  refine ⟨hb.source, hb.selection.outputs, hb.selection.filter, fun b hlimit => ?_,
    fun b hoffset => ?_⟩
  · obtain ⟨n, _, rfl⟩ := Option.map_eq_some_iff.mp hlimit
    exact ⟨_, rfl⟩
  · change w.offset? = some b at hoffset
    unfold Window.offset? at hoffset
    split at hoffset
    · cases hoffset
      exact ⟨_, rfl⟩
    · cases hoffset

/-- The right side of a merge is proper. -/
theorem rebased_isProper (h : r.query.IsProper) (p : Plan) (next : Nat) :
    (p.rebased r next).IsProper :=
  h.opened.relabel _

end Plan

/-- A fault of a merge: a kind of join that there is not, a column that a side does not have, or
options that do not fit together. -/
inductive Fault.OfMerge : Fault → Prop where
  | kind (name : String) : OfMerge (.unsupportedJoin name)
  | column (name : String) (context : Option ColumnContext) : OfMerge (.unknownColumn name context)
  | options (flaw : OperationFlaw) : OfMerge (.invalidOperation flaw)

/-- Whatever a merge is refused for is a fault of the caller. -/
theorem Fault.OfMerge.isClient {f : Fault} (h : f.OfMerge) : f.IsClient := by
  cases h with
  | kind | column | options => exact .inl rfl

namespace MergeOptions

/-- The kind of a merge is refused only for what a merge may be refused for. -/
theorem kind_faults (o : MergeOptions) : Ends Fault.OfMerge (fun _ => True) o.kind := by
  simp only [kind]
  cases JoinKind.ofName? (o.how?.getD "inner") with
  | some kind => exact .ok trivial
  | none => exact .error (.kind _)

/-- So are its keys. -/
theorem keys_faults (o : MergeOptions) (left right : List String) :
    Ends Fault.OfMerge (fun _ => True) (o.keys left right) := by
  have hrequested : Ends Fault.OfMerge (fun _ => True) (o.requested left right) := by
    unfold requested
    split
    · refine Ends.bind (Q := fun _ => True) (.forM fun name _ => ?_) fun _ _ => .ok trivial
      exact .ite (fun _ => .ok trivial) fun _ => .error (.column _ _)
    · exact .error (.options _)
    · exact .ite (fun _ => .ok trivial) fun _ => .error (.options _)
    · exact .error (.options _)
    · exact .error (.options _)
    · split
      · exact .ok trivial
      · exact .error (.options _)
      · exact .error (.options _)
  unfold keys
  exact hrequested.bind fun names _ => .ite (fun _ => .error (.options _)) fun _ => .ok trivial

/-- An unknown kind of merge is a fault of the caller. -/
theorem kind_ends (o : MergeOptions) : EndsWell (fun _ => True) o.kind :=
  o.kind_faults.mono (fun _ => Fault.OfMerge.isClient) fun _ h => h

/-- Keys that cannot be merged on are a fault of the caller. -/
theorem keys_ends (o : MergeOptions) (left right : List String) :
    EndsWell (fun _ => True) (o.keys left right) :=
  (o.keys_faults left right).mono (fun _ => Fault.OfMerge.isClient) fun _ h => h

end MergeOptions

/-- A merge of proper plans gives a proper query, or a fault of the caller. -/
theorem Plan.merge_ends {p r : Plan} (hp : p.query.IsProper) (hr : r.query.IsProper)
    (options : MergeOptions) (next : Nat) :
    EndsWell (fun made => made.1.IsProper) (p.merge r options next) := by
  have hright : (p.rebased r next).IsProper := rebased_isProper hr p next
  have hkeys (pairs : List (String × String)) : EndsWell (fun keys => ∀ key ∈ keys, key.IsProper)
      (pairs.mapM fun names => p.opened.lookup names.1 >>=
        fun l => (p.rebased r next).lookup names.2 >>= fun r =>
        Except.ok (JoinKey.mk l r)) :=
    .mapM fun names _ => (Query.lookup_ends hp.opened names.1).bind fun l hl =>
      (Query.lookup_ends hright names.2).bind fun r hr => .ok ⟨hl, hr⟩
  unfold merge
  refine options.kind_ends.bind fun kind _ => (options.keys_ends _ _).bind fun names _ => ?_
  exact (hkeys _).bind fun keys hkeys => .ok (hp.opened.joinOn hright kind hkeys)

end LazyFrame
