import LazyFrame.Proofs.Identity.Statement
import LazyFrame.Proofs.Scope.Operations

/-!
# Operations do not look at identities

An operation on plans compares relations and never asks for more than that. So under identities
that keep relations apart it does the same as before: it makes the same checks, fails with the same
fault, and what it gives is what it gave under the old identities, with the new ones
(`Plan.project_under` … `Plan.slice?_under`).

A merge hands out identities itself. It gives corresponding ones when those that come next
correspond (`Continues`), and leaves such ones behind (`Plan.merge_under`).
-/

namespace LazyFrame

variable {ids : Relation → Nat}

/-! ## References -/

/-- A reference to a relation under its new identity. -/
def Reference.under (ids : Relation → Nat) : Reference → Reference
  | known ref => known ⟨ref.relation.under ids, ref.name⟩
  | noted note => noted note

namespace Expr

/-- Other identities give an expression the same references, under these identities. -/
theorem references_under (e : Expr) :
    (e.under ids).references = e.references.map (List.map (Reference.under ids)) := by
  have hsame : Reference.under ids = Reference.mapped (Relation.under ids) := by
    funext ref
    cases ref <;> rfl
  rw [under_eq_mapped, references_mapped, hsame]

/-- Two conditions are put together under other identities as before. -/
theorem conjoin_under (a? b? : Option Expr) :
    (conjoin a? b?).map (under ids) = conjoin (a?.map (under ids)) (b?.map (under ids)) := by
  cases a? <;> cases b? <;> rfl

end Expr

/-! ## Queries -/

theorem Output.map_name_under (outputs : List Output) :
    (outputs.map (Output.under ids)).map (·.name) = outputs.map (·.name) := by
  rw [List.map_map]
  rfl

namespace Query

/-- The columns that a relation passes on are those of its image. -/
theorem passThrough_under (r : Relation) :
    (passThrough r).map (Output.under ids) = passThrough (r.under ids) := by
  rw [passThrough, List.map_map]
  rfl

@[simp] theorem names_under (q : Query) : (q.under ids).names = q.names := q.selection.names_under

/-- A table under other identities is a query of that table. -/
theorem ofTable_under (id : Nat) (name : String) (columns : List String) :
    (ofTable id name columns).under ids = ofTable (ids ⟨id, .table name, columns⟩) name columns :=
  congrArg (fun outputs => Query.mk (.table (ids ⟨id, .table name, columns⟩) name columns)
    (.plain outputs none)) (passThrough_under ⟨id, .table name, columns⟩)

/-- Other outputs come under other identities with the query. -/
theorem withOutputs_under (q : Query) (outputs : List Output) :
    (q.withOutputs outputs).under ids =
      (q.under ids).withOutputs (outputs.map (Output.under ids)) := rfl

/-- A column is found under other identities exactly if it is found, and it is the image of what is
found. -/
theorem lookup_under (q : Query) (name : String) :
    (q.under ids).lookup name = (q.lookup name).map (Expr.under ids) := by
  have hfind : (q.under ids).selection.outputs.find? (·.name == name) =
      (q.selection.outputs.find? (·.name == name)).map (Output.under ids) :=
    List.find?_map ..
  rw [lookup, lookup, hfind, names_under]
  cases q.selection.outputs.find? (·.name == name) <;> rfl

end Query

/-- The visible relations of a source come under their identities one by one. -/
theorem Source.visible_under (s : Source) :
    (s.under ids).visible = s.visible.map (Relation.under ids) := by
  induction s with
  | table => rfl
  | derived id source selection =>
    rw [Source.under, visible, Selection.names_under]
    rfl
  | join left right kind keys condition? ihl ihr =>
    rw [Source.under, visible, ihl, ihr, visible, List.map_append]

section Injective

variable (hinj : Function.Injective (Relation.under ids))

include hinj

/-- A relation is among others exactly if its image is among their images. -/
theorem contains_map_under (rs : List Relation) (r : Relation) :
    (rs.map (Relation.under ids)).contains (r.under ids) = rs.contains r := by
  rw [List.contains_eq_mem, List.contains_eq_mem, decide_eq_decide, List.mem_map_of_injective hinj]

/-- A reference passes the check under other identities exactly if it does. -/
theorem Query.checkReference_under (q : Query) (ref : Reference) :
    (q.under ids).checkReference (ref.under ids) = q.checkReference ref := by
  cases ref with
  | known ref =>
    show (if !(q.source.under ids).visible.contains _ then _ else _) = _
    rw [Source.visible_under, contains_map_under hinj]
    rfl
  | noted note => rfl

/-- An expression passes the check under other identities exactly if it does. -/
theorem Query.checkScope_under (q : Query) (e : Expr) :
    (q.under ids).checkScope (e.under ids) = q.checkScope e := by
  rw [checkScope, checkScope, Expr.references_under, Attempt.bind_map]
  refine congrArg _ (funext fun refs => ?_)
  rw [Attempt.forM_map]
  exact congrArg refs.forM (funext fun ref => checkReference_under hinj q ref)

end Injective

/-! ## Plans -/

namespace Plan

variable {p r : Plan}

/-- A plan with all relations under their new identities, its own and those inside of its subqueries
too. -/
def under (ids : Relation → Nat) (p : Plan) : Plan := ⟨ids p.relation, p.query.under ids⟩

@[simp] theorem names_under (p : Plan) : (p.under ids).names = p.names := p.query.names_under

/-- Opening a plan commutes with other identities for its relations. -/
theorem opened_under (p : Plan) : (p.under ids).opened = p.opened.under ids := by
  have hrelation : (p.under ids).relation = p.relation.under ids := by
    rw [relation, names_under]
    rfl
  have hsealed : (p.under ids).isSealed = p.isSealed := rfl
  unfold opened
  rw [hsealed, hrelation]
  cases p.isSealed with
  | false => rfl
  | true =>
    show _ = Query.mk _
      (Selection.mk ((Query.passThrough p.relation).map (Output.under ids)) _ _ _ _)
    rw [Query.passThrough_under]
    rfl

/-- So does what a window or DISTINCT is put on. -/
theorem unwindowed_under (p : Plan) : (p.under ids).unwindowed = p.unwindowed.under ids := by
  have hwindowed : (p.under ids).query.selection.isWindowed = p.query.selection.isWindowed := rfl
  unfold unwindowed
  rw [hwindowed, opened_under]
  cases p.query.selection.isWindowed <;> rfl

/-- A column of a plan is looked up under other identities as before. -/
theorem lookup_under (p : Plan) (name : String) :
    (p.under ids).lookup name = (p.lookup name).map (Expr.under ids) := by
  rw [lookup, lookup, opened_under, Query.lookup_under]

/-- Selecting columns commutes with other identities. -/
theorem project_under (p : Plan) (names : List String) :
    (p.under ids).project names = (p.project names).map (Query.under ids) := by
  have houtputs :
      (names.mapM fun name => (p.opened.under ids).lookup name >>=
        fun e => Except.ok (Output.mk name e)) =
      (names.mapM fun name => p.opened.lookup name >>= fun e => Except.ok (Output.mk name e) :
        Attempt _).map (List.map (Output.under ids)) := by
    refine Attempt.mapM_of_map fun name _ => ?_
    rw [Query.lookup_under, Attempt.bind_map, Attempt.map_bind]
    rfl
  unfold project
  simp only [opened_under, houtputs, Attempt.map_bind, Attempt.bind_map, Attempt.map_ite,
    Attempt.map_error, Attempt.error_bind, Attempt.map_ok, Query.withOutputs_under]

/-- Setting an output commutes with other identities. -/
theorem setOutput_under (o : Output) (outputs : List Output) :
    (setOutput o outputs).map (Output.under ids) =
      setOutput (o.under ids) (outputs.map (Output.under ids)) := by
  induction outputs with
  | nil => rfl
  | cons first rest ih =>
    rw [List.map_cons, setOutput, setOutput, ← ih]
    show List.map _ (if first.name == o.name then _ else _) = if first.name == o.name then _ else _
    split <;> rfl

/-- Assigning commutes with identities that keep relations apart. -/
theorem assign_under (hinj : Function.Injective (Relation.under ids)) (p : Plan) (name : String)
    (e : Expr) :
    (p.under ids).assign name (e.under ids) = (p.assign name e).map (Query.under ids) := by
  unfold assign
  simp only [opened_under, Query.checkScope_under hinj, Expr.hasAggregate_under, Attempt.map_bind,
    Attempt.map_ite, Attempt.map_error, Attempt.error_bind, Attempt.map_ok, Query.withOutputs_under,
    setOutput_under]
  rfl

/-- Renaming commutes with other identities. -/
theorem rename_under (p : Plan) (mapping : List (String × String)) :
    (p.under ids).rename mapping = (p.rename mapping).map (Query.under ids) := by
  have houtputs : ((p.opened.under ids).selection.outputs.map fun output =>
        { output with name := renamed mapping output.name }) =
      (p.opened.selection.outputs.map fun output =>
        { output with name := renamed mapping output.name }).map (Output.under ids) := by
    show List.map _ (List.map _ _) = _
    rw [List.map_map, List.map_map]
    rfl
  unfold rename
  simp only [opened_under, Query.names_under, houtputs, Output.map_name_under, Attempt.map_bind,
    Attempt.map_ok, Query.withOutputs_under]

/-- Leaving columns out commutes with other identities. -/
theorem drop_under (p : Plan) (names : List String) :
    (p.under ids).drop names = (p.drop names).map (Query.under ids) := by
  have houtputs :
      (p.opened.under ids).selection.outputs.filter (fun output => !names.contains output.name) =
      (p.opened.selection.outputs.filter fun output => !names.contains output.name).map
        (Output.under ids) :=
    List.filter_map ..
  unfold drop
  simp only [opened_under, Query.names_under, houtputs, List.isEmpty_map, Attempt.map_bind,
    Attempt.map_ite, Attempt.map_error, Attempt.error_bind, Attempt.map_ok, Query.withOutputs_under]

/-- Filtering commutes with identities that keep relations apart. -/
theorem filter_under (hinj : Function.Injective (Relation.under ids)) (p : Plan) (e : Expr) :
    (p.under ids).filter (e.under ids) = (p.filter e).map (Query.under ids) := by
  have hfilter : Expr.conjoin (p.opened.under ids).selection.filter? (some (e.under ids)) =
      (Expr.conjoin p.opened.selection.filter? (some e)).map (Expr.under ids) :=
    (Expr.conjoin_under p.opened.selection.filter? (some e)).symm
  unfold filter
  simp only [opened_under, hfilter, Query.checkScope_under hinj, Expr.hasAggregate_under,
    Attempt.map_bind, Attempt.map_ite, Attempt.map_error, Attempt.error_bind, Attempt.map_ok]
  rfl

/-- DISTINCT commutes with other identities. -/
theorem distinct?_under (p : Plan) :
    (p.under ids).distinct? = p.distinct?.map (Query.under ids) := by
  unfold distinct?
  rw [unwindowed_under]
  show (if p.query.selection.distinct && !p.query.selection.isWindowed then _ else _) = _
  split <;> rfl

/-- A window commutes with other identities. -/
theorem slice?_under (p : Plan) (w : Window) :
    (p.under ids).slice? w = (p.slice? w).map (Query.under ids) := by
  unfold slice?
  rw [unwindowed_under]
  split <;> rfl

end Plan

/-! ## Merging -/

/-- The identities that have not been used yet correspond: the one `k` places behind `next` and the
one `k` places behind `next'`. -/
def Continues (ids : Relation → Nat) (next next' : Nat) : Prop :=
  ∀ k origin columns, ids ⟨next + k, origin, columns⟩ = next' + k

/-- Identities continue in step behind equally many new ones. -/
theorem Continues.add {next next' : Nat} (h : Continues ids next next') (count : Nat) :
    Continues ids (next + count) (next' + count) := by
  intro k origin columns
  rw [Nat.add_assoc, h, Nat.add_assoc]

/-- A relabelling between relations under their new identities. -/
def Relabelling.under (ids : Relation → Nat) (map : Relabelling) : Relabelling :=
  map.map fun entry => (entry.1.under ids, entry.2.under ids)

section Relabel

variable (hinj : Function.Injective (Relation.under ids)) {map : Relabelling}

include hinj

/-- The image of a relation under a map is found under the map of the images. -/
theorem Relabelling.image_under (map : Relabelling) (r : Relation) :
    (map.under ids).image (r.under ids) = (map.image r).under ids := by
  have hlookup : (map.under ids).lookup (r.under ids) =
      (map.lookup r).map (Relation.under ids) := by
    induction map with
    | nil => rfl
    | cons entry rest ih =>
      have hsame : (r.under ids == entry.1.under ids) = (r == entry.1) := by
        rw [Bool.eq_iff_iff, beq_iff_eq, beq_iff_eq]
        exact hinj.eq_iff
      show List.lookup _ ((_, _) :: Relabelling.under ids rest) =
        (List.lookup r ((entry.1, entry.2) :: rest)).map _
      rw [List.lookup_cons, List.lookup_cons, hsame, ih]
      cases r == entry.1 <;> rfl
  rw [image, image, hlookup]
  cases map.lookup r <;> rfl

/-- Replacing relations commutes with other identities. -/
theorem Expr.substitute_under (e : Expr) :
    (e.under ids).substitute (map.under ids) = (e.substitute map).under ids := by
  induction e with
  | column r name =>
    rw [under, substitute_column, substitute_column, Relabelling.image_under hinj, under]
  | binary op l r ihl ihr => rw [under, substitute_binary, substitute_binary, ihl, ihr, under]
  | unary op e ih => rw [under, substitute_unary, substitute_unary, ih, under]
  | aggregate fn e ih => rw [under, substitute_aggregate, substitute_aggregate, ih, under]
  | literal | countRows | given => rfl

/-- Replacing relations of a source commutes with other identities. -/
theorem Source.relabel_under (hmap : map.KeepsShape) (s : Source) :
    (s.under ids).relabel (map.under ids) = (s.relabel map).under ids := by
  -- the image of a relation is that relation under another identity, so its new identity is the one
  -- of the image
  have himage (r : Relation) : ((map.under ids).image (r.under ids)).id =
      ids { r with id := (map.image r).id } := by
    rw [Relabelling.image_under hinj, ← hmap.eq_image]
    rfl
  induction s with
  | table id name columns =>
    rw [relabel_table map]
    exact (relabel_table _ _ name columns).trans
      (congrArg (table · name columns) (himage ⟨id, .table name, columns⟩))
  | derived id source selection =>
    have hnew := himage ⟨id, .derived, selection.names⟩
    have hrelabel :=
      relabel_derived (map.under ids) (ids ⟨id, .derived, selection.names⟩) (source.under ids)
      (selection.under ids)
    rw [Selection.names_under] at hrelabel
    rw [relabel_derived map]
    exact hrelabel.trans (congrArg (derived · (source.under ids) (selection.under ids)) hnew)
  | join left right kind keys condition? ihl ihr =>
    rw [under, relabel, ihl, ihr, relabel, under, List.map_map, List.map_map, Option.map_map,
      Option.map_map]
    have hkeys (key : JoinKey) : (JoinKey.mk ((key.under ids).left.substitute (map.under ids))
        ((key.under ids).right.substitute (map.under ids))) =
        JoinKey.under ids ⟨key.left.substitute map, key.right.substitute map⟩ :=
      congrArg₂ JoinKey.mk (Expr.substitute_under hinj _) (Expr.substitute_under hinj _)
    have hcondition : Expr.substitute (map.under ids) ∘ Expr.under ids =
        Expr.under ids ∘ Expr.substitute map :=
      funext fun e => Expr.substitute_under hinj e
    rw [hcondition]
    exact congrArg (fun keys => join _ _ kind keys _) (List.map_congr_left fun key _ => hkeys key)

/-- Replacing relations of a query commutes with other identities. -/
theorem Query.relabel_under (hmap : map.KeepsShape) (q : Query) :
    (q.under ids).relabel (map.under ids) = (q.relabel map).under ids := by
  have houtputs : ((q.selection.outputs.map (Output.under ids)).map fun output =>
      { output with expr := output.expr.substitute (map.under ids) }) =
      (q.selection.outputs.map fun output => { output with expr := output.expr.substitute map }).map
        (Output.under ids) := by
    rw [List.map_map, List.map_map]
    exact List.map_congr_left fun o _ => congrArg (Output.mk o.name) (Expr.substitute_under hinj _)
  have hfilter : (q.selection.filter?.map (Expr.under ids)).map (Expr.substitute (map.under ids)) =
      (q.selection.filter?.map (Expr.substitute map)).map (Expr.under ids) := by
    rw [Option.map_map, Option.map_map]
    exact congrArg (q.selection.filter?.map ·) (funext fun e => Expr.substitute_under hinj e)
  have hselection :=
    congrArg₂ (fun outputs filter? => { q.selection with outputs := outputs, filter? := filter? })
    houtputs hfilter
  exact congrArg₂ Query.mk (Source.relabel_under hinj hmap q.source) hselection

/-- The relations that two queries share are the images of those they shared. -/
theorem Query.shared_under (left right : Query) :
    (left.under ids).shared (right.under ids) = (left.shared right).map (Relation.under ids) := by
  show List.filter (left.source.under ids).visible.contains (right.source.under ids).visible = _
  rw [Source.visible_under, Source.visible_under, List.filter_map, shared]
  exact congrArg (List.map _) (List.filter_congr fun r _ => contains_map_under hinj _ r)

end Relabel

namespace Query

/-- New identities correspond when those that come next do. -/
theorem freshRelations_under {next next' : Nat} (h : Continues ids next next')
    (rs : List Relation) :
    freshRelations next' (rs.map (Relation.under ids)) =
      Relabelling.under ids (freshRelations next rs) := by
  rw [freshRelations, List.zipIdx_map, List.map_map, Relabelling.under,
    freshRelations, List.map_map]
  refine List.map_congr_left fun entry _ => ?_
  have hid : ids { entry.1 with id := next + entry.2 } = next' + entry.2 := h _ _ _
  simp only [Function.comp_apply, Prod.map, id, Relation.under, hid]

/-- A join commutes with other identities. -/
theorem joinOn_under (left right : Query) (kind : JoinKind) (keys : List JoinKey) :
    (left.joinOn right kind keys).under ids =
      (left.under ids).joinOn (right.under ids) kind (keys.map (JoinKey.under ids)) := by
  have houtputs : (left.selection.outputs ++ right.selection.outputs.filter fun output =>
        !left.names.contains output.name).map (Output.under ids) =
      (left.under ids).selection.outputs ++ (right.under ids).selection.outputs.filter fun output =>
        !(left.under ids).names.contains output.name := by
    rw [List.map_append, names_under]
    exact congrArg _
      (List.filter_map (p := fun output : Output => !left.names.contains output.name)).symm
  cases kind with
  | inner =>
    exact congrArg₂
      (fun outputs filter? =>
      Query.mk (.join (left.source.under ids) (right.source.under ids) .inner
      (keys.map (JoinKey.under ids)) none) (.plain outputs filter?)) houtputs
        (Expr.conjoin_under _ _)
  | left =>
    exact congrArg
      (fun outputs => Query.mk (.join (left.source.under ids) (right.source.under ids) .left
      (keys.map (JoinKey.under ids)) (right.selection.filter?.map (Expr.under ids)))
      (.plain outputs (left.selection.filter?.map (Expr.under ids)))) houtputs

end Query

namespace Plan

/-- The right side of a merge commutes with identities that continue in step. -/
theorem rebased_under (hinj : Function.Injective (Relation.under ids)) {next next' : Nat}
    (h : Continues ids next next') (p r : Plan) :
    (p.under ids).rebased (r.under ids) next' = (p.rebased r next).under ids := by
  rw [rebased, opened_under, opened_under, Query.shared_under hinj, Query.freshRelations_under h,
    Query.relabel_under hinj (Query.keepsShape_freshRelations _ _), rebased]

/-- A pair of key columns, one of each side. -/
def keyOf (left right : Query) (names : String × String) : Attempt JoinKey := do
  let l ← left.lookup names.1
  let r ← right.lookup names.2
  .ok ⟨l, r⟩

/-- The keys of a merge are looked up under other identities as before. -/
theorem keyOf_under (left right : Query) (names : String × String) :
    keyOf (left.under ids) (right.under ids) names =
      (keyOf left right names).map (JoinKey.under ids) := by
  simp only [keyOf, Query.lookup_under, Attempt.bind_map, Attempt.map_bind]
  rfl

/-- A merge in terms of its right side over new relations. -/
theorem merge_eq (p r : Plan) (options : MergeOptions) (next : Nat) :
    p.merge r options next = (options.kind >>= fun kind =>
      options.keys p.opened.names r.opened.names >>= fun names =>
        (names.1.zip names.2).mapM (keyOf p.opened (p.rebased r next)) >>= fun keys =>
          .ok (p.opened.joinOn (p.rebased r next) kind keys, next +
            (p.opened.shared r.opened).length)) := rfl

/-- A merge under other identities: the same checks, the same query under these identities, and
again identities that correspond. -/
theorem merge_under (hinj : Function.Injective (Relation.under ids)) {next next' : Nat}
    (h : Continues ids next next') (p r : Plan) (options : MergeOptions) :
    Attempt.Agree (fun a b => b.1 = a.1.under ids ∧ Continues ids a.2 b.2) (p.merge r options next)
      ((p.under ids).merge (r.under ids) options next') := by
  have hshared : ((p.under ids).opened.shared (r.under ids).opened).length =
      (p.opened.shared r.opened).length := by
    rw [opened_under, opened_under, Query.shared_under hinj, List.length_map]
  rw [merge_eq, merge_eq, hshared, rebased_under hinj h, opened_under, opened_under,
    Query.names_under, Query.names_under]
  refine (Attempt.Agree.refl options.kind).bind fun kind _ hkind => ?_
  refine (Attempt.Agree.refl (options.keys p.opened.names r.opened.names)).bind
    fun names _ hnames => ?_
  subst hkind hnames
  -- the keys are looked up on both sides, the right ones after the right side has moved
  rw [Attempt.mapM_of_map fun names _ => keyOf_under p.opened (p.rebased r next) names,
    Attempt.bind_map]
  refine (Attempt.Agree.refl _).bind fun keys _ hkeys => .ok ⟨?_, h.add _⟩
  subst hkeys
  exact (Query.joinOn_under p.opened (p.rebased r next) kind keys).symm

end Plan

end LazyFrame
