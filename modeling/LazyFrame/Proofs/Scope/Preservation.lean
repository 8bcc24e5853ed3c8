import LazyFrame.Proofs.Identity.Relabelled
import LazyFrame.Proofs.Scope.Operations

/-!
# Operations keep queries well formed

One lemma for each operation. A well-formed plan opens to a well-formed query
(`Query.WellFormed.opened`), and from there an operation on one plan only exchanges outputs,
filter or window. A merge is the one operation that puts two sources together: the relations that
both sides read get new identities on the right, so that nothing is visible twice, and every
expression of the right side moves along (`WellFormed.relabel`, `WellFormed.joinOn`).
-/

namespace LazyFrame

/-- A selection without DISTINCT and window. -/
theorem Selection.WellFormed.plain {relations : List Relation} {outputs : List Output}
    {filter? : Option Expr} (hne : outputs ≠ []) (hnodup : (outputs.map (·.name)).Nodup)
    (houtputs : ∀ o ∈ outputs, o.expr.IsScalarOver relations)
    (hfilter : ∀ e ∈ filter?, e.IsScalarOver relations) :
    (Selection.plain outputs filter?).WellFormed relations where
  outputs_ne_nil := hne
  names_nodup := hnodup
  outputs := houtputs
  filter := hfilter
  limit b hb := by cases hb
  offset b hb := by cases hb

namespace Query.WellFormed

/-- A query stays well formed when its relations go to images that keep them apart. -/
theorem relabel {map : Relabelling} (hmap : map.KeepsShape) {q : Query} (h : q.WellFormed)
    (hinj : ∀ r ∈ q.source.visible, ∀ s ∈ q.source.visible, map.image r = map.image s → r = s) :
    (q.relabel map).WellFormed :=
  (h.relabelled_relabel hmap hinj).wellFormed h

/-! ## Opening -/

theorem passThrough {source : Source} {r : Relation} (hsource : source.WellFormed)
    (hvisible : source.visible = [r]) (hne : r.columns ≠ []) (hnodup : r.columns.Nodup) :
    Query.WellFormed ⟨source, .plain (Query.passThrough r) none⟩ := by
  refine ⟨hsource, by
    rw [hvisible]; exact List.nodup_singleton r, .plain ?_ ?_ (fun o ho => ?_) fun e he => ?_⟩
  · intro hnil
    exact hne (List.map_eq_nil_iff.mp hnil)
  · rw [Plan.names_passThrough]
    exact hnodup
  · obtain ⟨name, hname, rfl⟩ := List.mem_map.mp ho
    exact .column (by rw [hvisible]; exact List.mem_singleton_self r) hname
  · cases he

/-- A table with distinct columns is a well-formed query. -/
theorem ofTable {id : Nat} {name : String} {columns : List String} (hne : columns ≠ [])
    (hnodup : columns.Nodup) : (Query.ofTable id name columns).WellFormed :=
  passThrough (r := ⟨id, .table name, columns⟩) ⟨hne, hnodup⟩ rfl hne hnodup

/-- A well-formed query has columns. -/
theorem names_ne_nil {q : Query} (h : q.WellFormed) : q.names ≠ [] :=
  fun hnil => h.selection.outputs_ne_nil (List.map_eq_nil_iff.mp hnil)

/-- A well-formed plan is well formed when it is opened. -/
theorem opened {p : Plan} (h : p.query.WellFormed) : p.opened.WellFormed := by
  unfold Plan.opened
  split
  · exact passThrough (r := p.relation) ⟨h.source, h.visible_nodup, h.selection⟩ rfl h.names_ne_nil
      h.selection.names_nodup
  · exact h

/-- A well-formed plan is well formed under a window or DISTINCT. -/
theorem unwindowed {p : Plan} (h : p.query.WellFormed) : p.unwindowed.WellFormed := by
  unfold Plan.unwindowed
  split
  · exact h.opened
  · exact h

/-! ## Columns -/

theorem isScalarOver_of_lookup {q : Query} (h : q.WellFormed) {name : String} {e : Expr}
    (he : q.lookup name = .ok e) : e.IsScalarOver q.source.visible := by
  obtain ⟨o, ho, _, rfl⟩ := lookup_eq_ok he
  exact h.selection.outputs o ho

/-- Other distinct outputs in scope leave a query well formed. -/
theorem withOutputs {q : Query} (h : q.WellFormed) {outputs : List Output} (hne : outputs ≠ [])
    (hnodup : (outputs.map (·.name)).Nodup)
    (hscope : ∀ o ∈ outputs, o.expr.IsScalarOver q.source.visible) :
    (q.withOutputs outputs).WellFormed :=
  ⟨h.source, h.visible_nodup,
    ⟨hne, hnodup, hscope, h.selection.filter, h.selection.limit, h.selection.offset⟩⟩

/-- A selection of columns is well formed. -/
theorem project {p : Plan} {q : Query} (h : p.query.WellFormed) {names : List String}
    (hq : p.project names = .ok q) : q.WellFormed := by
  obtain ⟨hne, hnodup, outputs, houtputs, rfl⟩ := Plan.project_eq_ok.mp hq
  have hnames := Plan.names_projected houtputs
  refine h.opened.withOutputs (fun hnil => hne ?_) (by rw [hnames]; exact hnodup) fun o ho => ?_
  · rw [← hnames, hnil]
    rfl
  · obtain ⟨name, _, hlookup, _⟩ := Attempt.exists_of_mem_right houtputs ho
    exact h.opened.isScalarOver_of_lookup hlookup

/-- Setting an output touches no other name and adds at most its own. -/
theorem names_setOutput (output : Output) (outputs : List Output) :
    (Plan.setOutput output outputs).map (·.name) =
      if output.name ∈ outputs.map (·.name) then outputs.map (·.name)
        else outputs.map (·.name) ++ [output.name] := by
  induction outputs with
  | nil => rfl
  | cons first rest ih =>
    unfold Plan.setOutput
    by_cases hname : first.name = output.name
    · simp [hname]
    · rw [if_neg (by simpa using hname), List.map_cons, ih, List.map_cons]
      by_cases hmem : output.name ∈ rest.map (·.name)
      · rw [if_pos hmem, if_pos (List.mem_cons_of_mem _ hmem)]
      · rw [if_neg hmem, if_neg (by simpa [Ne.symm hname] using hmem), List.cons_append]

/-- After an output was set, there are that one and those from before. -/
theorem mem_setOutput {output o : Output} {outputs : List Output}
    (h : o ∈ Plan.setOutput output outputs) : o = output ∨ o ∈ outputs := by
  induction outputs with
  | nil => exact Or.inl (List.mem_singleton.mp h)
  | cons first rest ih =>
    unfold Plan.setOutput at h
    split at h
    · rcases List.mem_cons.mp h with rfl | h
      · exact Or.inl rfl
      · exact Or.inr (List.mem_cons_of_mem _ h)
    · rcases List.mem_cons.mp h with rfl | h
      · exact Or.inr (List.mem_cons_self ..)
      · exact (ih h).imp_right (List.mem_cons_of_mem _)

/-- An assignment is well formed. -/
theorem assign {p : Plan} {q : Query} (h : p.query.WellFormed) {name : String} {e : Expr}
    (hq : p.assign name e = .ok q) : q.WellFormed := by
  obtain ⟨hscope, hscalar, rfl⟩ := Plan.assign_eq_ok.mp hq
  refine h.opened.withOutputs (fun hnil => ?_) ?_ fun o ho => ?_
  · have := congrArg (List.map Output.name) hnil
    rw [names_setOutput] at this
    split at this
    · exact h.opened.names_ne_nil this
    · simp at this
  · rw [names_setOutput]
    split
    next => exact h.opened.selection.names_nodup
    next hnew =>
      exact List.Nodup.append h.opened.selection.names_nodup (List.nodup_singleton _)
        (List.disjoint_singleton.mpr hnew)
  · rcases mem_setOutput ho with rfl | ho
    · exact isScalarOver_of_checkScope hscope hscalar
    · exact h.opened.selection.outputs o ho

/-- A renaming is well formed. -/
theorem rename {p : Plan} {q : Query} (h : p.query.WellFormed) {mapping : List (String × String)}
    (hq : p.rename mapping = .ok q) : q.WellFormed := by
  obtain ⟨_, hnodup, rfl⟩ := Plan.rename_eq_ok.mp hq
  refine h.opened.withOutputs (fun hnil => ?_) ?_ fun o ho => ?_
  · exact h.opened.selection.outputs_ne_nil (List.map_eq_nil_iff.mp hnil)
  · rw [Plan.names_renamedOutputs]
    exact hnodup
  · obtain ⟨old, hold, rfl⟩ := List.mem_map.mp ho
    exact h.opened.selection.outputs old hold

/-- Leaving columns out is well formed. -/
theorem drop {p : Plan} {q : Query} (h : p.query.WellFormed) {names : List String}
    (hq : p.drop names = .ok q) : q.WellFormed := by
  obtain ⟨_, hne, rfl⟩ := Plan.drop_eq_ok.mp hq
  refine h.opened.withOutputs hne ?_ fun o ho => ?_
  · exact h.opened.selection.names_nodup.sublist (List.filter_sublist.map _)
  · exact h.opened.selection.outputs o (List.mem_filter.mp ho).1

/-! ## Rows -/

theorem filter {p : Plan} {q : Query} (h : p.query.WellFormed) {e : Expr}
    (hq : p.filter e = .ok q) : q.WellFormed := by
  obtain ⟨hscope, hscalar, rfl⟩ := Plan.filter_eq_ok.mp hq
  have hb := h.opened
  refine ⟨hb.source, hb.visible_nodup, ⟨hb.selection.outputs_ne_nil, hb.selection.names_nodup,
    hb.selection.outputs, ?_, hb.selection.limit, hb.selection.offset⟩⟩
  exact Expr.IsScalarOver.conjoin hb.selection.filter fun e' he' => by
    cases he'
    exact isScalarOver_of_checkScope hscope hscalar

/-- DISTINCT is well formed. -/
theorem distinct? {p : Plan} {q : Query} (h : p.query.WellFormed) (hq : p.distinct? = some q) :
    q.WellFormed := by
  obtain ⟨_, rfl⟩ := Plan.distinct?_eq_some.mp hq
  have hb := h.unwindowed
  exact ⟨hb.source, hb.visible_nodup, ⟨hb.selection.outputs_ne_nil, hb.selection.names_nodup,
    hb.selection.outputs, hb.selection.filter, hb.selection.limit, hb.selection.offset⟩⟩

/-- A window is well formed. -/
theorem slice? {p : Plan} {q : Query} (h : p.query.WellFormed) {w : Window}
    (hq : p.slice? w = some q) : q.WellFormed := by
  obtain ⟨_, rfl⟩ := Plan.slice?_eq_some.mp hq
  have hb := h.unwindowed
  refine ⟨hb.source, hb.visible_nodup, ⟨hb.selection.outputs_ne_nil, hb.selection.names_nodup,
    hb.selection.outputs, hb.selection.filter, fun b hbound => ?_, fun b hbound => ?_⟩⟩
  · obtain ⟨n, _, rfl⟩ := Option.map_eq_some_iff.mp hbound
    exact ⟨_, rfl⟩
  · -- an offset stands only behind a start above zero
    change w.offset? = some b at hbound
    unfold Window.offset? at hbound
    split at hbound
    · cases hbound
      exact ⟨_, rfl⟩
    · cases hbound

/-! ## Merging -/

/-- Two well-formed queries that read different relations join to a well-formed one. -/
theorem joinOn {left right : Query} (hl : left.WellFormed) (hr : right.WellFormed)
    (hdisjoint : left.source.visible.Disjoint right.source.visible) {kind : JoinKind}
    {keys : List JoinKey}
    (hkeys : ∀ key ∈ keys, key.WellFormed left.source.visible right.source.visible) :
    (left.joinOn right kind keys).WellFormed := by
  have hvisible : (left.source.visible ++ right.source.visible).Nodup :=
    List.Nodup.append hl.visible_nodup hr.visible_nodup hdisjoint
  have hsubl : left.source.visible ⊆ left.source.visible ++ right.source.visible :=
    List.subset_append_left ..
  have hsubr : right.source.visible ⊆ left.source.visible ++ right.source.visible :=
    List.subset_append_right ..
  have hfilter :
      ∀ e ∈ left.selection.filter?, e.IsScalarOver (left.source.visible ++ right.source.visible) :=
    fun e he => (hl.selection.filter e he).mono hsubl
  -- the kinds of join differ in where the right filter stands, and in nothing else
  have houtputs : ∀ filter? : Option Expr,
      (∀ e ∈ filter?, e.IsScalarOver (left.source.visible ++ right.source.visible)) →
      Selection.WellFormed (left.source.visible ++ right.source.visible)
        (.plain (left.selection.outputs ++
          right.selection.outputs.filter fun output =>
            !left.names.contains output.name) filter?) := by
    intro filter? hfilter
    refine .plain (fun hnil => ?_) ?_ (fun o ho => ?_) hfilter
    · exact hl.selection.outputs_ne_nil (List.append_eq_nil_iff.mp hnil).1
    · rw [List.map_append]
      refine List.Nodup.append hl.selection.names_nodup
        (hr.selection.names_nodup.sublist (List.filter_sublist.map _)) fun name hleft hright => ?_
      obtain ⟨o, ho, rfl⟩ := List.mem_map.mp hright
      have hnew := (List.mem_filter.mp ho).2
      simp only [Bool.not_eq_true', List.contains_eq_mem, decide_eq_false_iff_not] at hnew
      exact hnew hleft
    · rcases List.mem_append.mp ho with ho | ho
      · exact (hl.selection.outputs o ho).mono hsubl
      · exact (hr.selection.outputs o (List.mem_filter.mp ho).1).mono hsubr
  cases kind with
  | inner =>
    refine ⟨⟨hl.source, hr.source, hkeys, fun e he => by cases he⟩, hvisible, houtputs _ ?_⟩
    exact Expr.IsScalarOver.conjoin hfilter fun e he => (hr.selection.filter e he).mono hsubr
  | left => exact ⟨⟨hl.source, hr.source, hkeys, hr.selection.filter⟩, hvisible, houtputs _ hfilter⟩

end Query.WellFormed

/-! ## Identities -/

/-- The identities of all relations that a query reads have been handed out before `next`. -/
def Query.IdsBelow (q : Query) (next : Nat) : Prop := ∀ r ∈ q.source.visible, r.id < next

/-- So have they for a plan, and its own. -/
structure Plan.IdsBelow (p : Plan) (next : Nat) : Prop where
  own : p.id < next
  read : p.query.IdsBelow next

namespace Plan.IdsBelow

variable {p r : Plan} {q : Query} {next next' : Nat}

/-- Identities that have been handed out stay so. -/
theorem mono (h : p.IdsBelow next) (hle : next ≤ next') : p.IdsBelow next' :=
  ⟨Nat.lt_of_lt_of_le h.own hle, fun r hr => Nat.lt_of_lt_of_le (h.read r hr) hle⟩

/-- An opened plan is over identities that have been handed out. -/
theorem opened (h : p.IdsBelow next) : p.opened.IdsBelow next := by
  unfold Plan.opened
  split
  · intro r hr
    rw [List.mem_singleton.mp hr]
    exact h.own
  · exact h.read

/-- So is what a window or DISTINCT is put on. -/
theorem unwindowed (h : p.IdsBelow next) : p.unwindowed.IdsBelow next := by
  unfold Plan.unwindowed
  split
  · exact h.opened
  · exact h.read

/-- The right side of a merge shows the relations of the right plan, the shared ones under new
identities. -/
theorem rebased_visible (p r : Plan) (next : Nat) : (p.rebased r next).source.visible =
    r.opened.source.visible.map
      (Relabelling.image (Query.freshRelations next (p.opened.shared r.opened))) :=
  Source.visible_relabel (Query.keepsShape_freshRelations _ _) _

/-- After the relations that both sides read have new identities on the right, the two sides read
different relations: an image is either new, or it was not shared. -/
theorem disjoint_rebased (hp : p.IdsBelow next) :
    p.opened.source.visible.Disjoint (p.rebased r next).source.visible := by
  intro v hleft hright
  rw [rebased_visible] at hright
  obtain ⟨old, hold, hv⟩ := List.mem_map.mp hright
  have hlt := hp.opened v hleft
  by_cases hshared : old ∈ p.opened.shared r.opened
  · -- a new identity is not below `next`
    obtain ⟨i, _, hi⟩ := Query.image_freshRelations_of_mem next hshared
    rw [hi] at hv
    rw [← hv] at hlt
    simp only at hlt
    omega
  · -- what both sides read would have been shared
    rw [Query.image_freshRelations_of_not_mem hshared] at hv
    subst hv
    refine hshared (List.mem_filter.mpr ⟨hold, ?_⟩)
    simpa using hleft

/-- The right side of a merge is well formed. -/
theorem wellFormed_rebased (hr : r.IdsBelow next) (hwf : r.query.WellFormed) :
    (p.rebased r next).WellFormed :=
  hwf.opened.relabel (Query.keepsShape_freshRelations _ _) fun a ha b hb h =>
    Query.image_freshRelations_inj (hr.opened a ha) (hr.opened b hb) h

end Plan.IdsBelow

/-- The keys of a merge stay on their sides. -/
theorem Plan.wellFormed_keys {left right : Query} (hl : left.WellFormed) (hr : right.WellFormed)
    {pairs : List (String × String)} {keys : List JoinKey}
    (h : List.Forall₂ (fun names key => left.lookup names.1 = .ok key.left ∧
      right.lookup names.2 = .ok key.right) pairs keys) :
    ∀ key ∈ keys, key.WellFormed left.source.visible right.source.visible := by
  intro key hkey
  obtain ⟨names, _, hleft, hright⟩ := Attempt.exists_of_mem_right h hkey
  exact ⟨hl.isScalarOver_of_lookup hleft, hr.isScalarOver_of_lookup hright⟩

/-- A merge of well-formed plans is well formed. -/
theorem Query.WellFormed.merge {p r : Plan} {q : Query} {options : MergeOptions} {next next' : Nat}
    (hp : p.query.WellFormed) (hr : r.query.WellFormed) (hpid : p.IdsBelow next)
    (hrid : r.IdsBelow next) (hq : p.merge r options next = .ok (q, next')) : q.WellFormed := by
  obtain ⟨kind, leftNames, rightNames, keys, _, _, hkeys, rfl, _⟩ := Plan.merge_eq_ok.mp hq
  have hright : (p.rebased r next).WellFormed := hrid.wellFormed_rebased hr
  exact hp.opened.joinOn hright hpid.disjoint_rebased (Plan.wellFormed_keys hp.opened hright hkeys)

/-- A merge hands out as many identities as it needs. -/
theorem Plan.IdsBelow.merge {p r : Plan} {q : Query} {options : MergeOptions} {next next' : Nat}
    (hp : p.IdsBelow next) (hr : r.IdsBelow next) (hq : p.merge r options next = .ok (q, next')) :
    next ≤ next' ∧ q.IdsBelow next' := by
  obtain ⟨kind, leftNames, rightNames, keys, _, _, _, rfl, rfl⟩ := Plan.merge_eq_ok.mp hq
  have hsource : (p.opened.joinOn (p.rebased r next) kind keys).source.visible =
      p.opened.source.visible ++ (p.rebased r next).source.visible := by
    cases kind <;> rfl
  refine ⟨Nat.le_add_right _ _, fun v hv => ?_⟩
  rw [hsource] at hv
  rcases List.mem_append.mp hv with hleft | hright
  · exact Nat.lt_of_lt_of_le (hp.opened v hleft) (Nat.le_add_right _ _)
  · rw [rebased_visible] at hright
    obtain ⟨old, hold, rfl⟩ := List.mem_map.mp hright
    exact Query.id_image_freshRelations_lt (hr.opened old hold)

end LazyFrame
