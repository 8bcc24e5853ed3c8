import Mathlib.Data.List.Count
import LazyFrame.Proofs.Scope.Session
import LazyFrame.Sql.Resolve

/-!
# Output names up to case

SQLite compares names without regard to the case of ASCII letters, quoted or not. So in a subquery
with the outputs `NAME` and `Name` a reference to either of them finds both. The operations on plans
compare names as they are, and keep the outputs distinct in that sense only.

A query is *unambiguous* when no two of its outputs are equal up to case, and no two columns of any
relation that it or a subquery in it reads (`Query.Unambiguous`). Over tables whose columns are
distinct up to case most operations keep this. Three of them bring names together and can break it:
an assignment that adds a name, a renaming, and a merge. A `Clash` is one of these that brings
together two different names that are equal up to case.

`Step.unambiguous_or_clash` is the step, and `Session.unambiguous_iff` says of whole histories of
operations that their plans are unambiguous exactly as long as none of them is a clash, and that
then every reference in them finds the one column it is meant for.
-/

namespace LazyFrame

/-! ## Names without case -/

/-- A name without regard to the case of ASCII letters. -/
def foldCase (name : String) : List Char := name.toList.map Char.toLower

/-- No two of the names are equal up to case. -/
def DistinctUpToCase (names : List String) : Prop := (names.map foldCase).Nodup

instance (names : List String) : Decidable (DistinctUpToCase names) :=
  inferInstanceAs (Decidable (names.map foldCase).Nodup)

namespace DistinctUpToCase

variable {names others : List String} {a b : String}

/-- Names that are distinct up to case are distinct. -/
theorem nodup (h : DistinctUpToCase names) : names.Nodup := List.Nodup.of_map _ h

/-- Such names with the same folding are the same name. -/
theorem eq_of_foldCase (h : DistinctUpToCase names) (ha : a ∈ names) (hb : b ∈ names)
    (hfold : foldCase a = foldCase b) : a = b :=
  List.inj_on_of_nodup_map h ha hb hfold

/-- Names that are distinct as they are, and where equality up to case is equality. -/
theorem of_forall (hnodup : names.Nodup)
    (hfold : ∀ a ∈ names, ∀ b ∈ names, foldCase a = foldCase b → a = b) : DistinctUpToCase names :=
  List.Nodup.map_on hfold hnodup

/-- Distinct names among such names are distinct up to case. -/
theorem of_subset (h : DistinctUpToCase others) (hnodup : names.Nodup) (hsub : names ⊆ others) :
    DistinctUpToCase names :=
  .of_forall hnodup fun _ ha _ hb => h.eq_of_foldCase (hsub ha) (hsub hb)

end DistinctUpToCase

/-- Two different names that are equal up to case. -/
structure EqualUpToCaseOnly (a b : String) : Prop where
  ne : a ≠ b
  fold : foldCase a = foldCase b

/-- Being equal up to case only is symmetric. -/
theorem EqualUpToCaseOnly.symm {a b : String} (h : EqualUpToCaseOnly a b) : EqualUpToCaseOnly b a :=
  ⟨h.ne.symm, h.fold.symm⟩

/-- Of such names no two are equal up to case only. -/
theorem DistinctUpToCase.not_equalUpToCaseOnly {names : List String} (h : DistinctUpToCase names)
    {a b : String} (ha : a ∈ names) (hb : b ∈ names) : ¬ EqualUpToCaseOnly a b :=
  fun hcase => hcase.ne (h.eq_of_foldCase ha hb hcase.fold)

/-- Where neither of two lists has such names, they stand one in each. -/
theorem exists_across {xs ys : List String} (hxs : DistinctUpToCase xs)
    (hys : DistinctUpToCase ys) {a b : String} (ha : a ∈ xs ∨ a ∈ ys) (hb : b ∈ xs ∨ b ∈ ys)
    (h : EqualUpToCaseOnly a b) : ∃ x ∈ xs, ∃ y ∈ ys, EqualUpToCaseOnly x y := by
  rcases ha with ha | ha
  · rcases hb with hb | hb
    · exact absurd h (hxs.not_equalUpToCaseOnly ha hb)
    · exact ⟨a, ha, b, hb, h⟩
  · rcases hb with hb | hb
    · exact ⟨b, hb, a, ha, h.symm⟩
    · exact absurd h (hys.not_equalUpToCaseOnly ha hb)

/-- Distinct names are distinct up to case unless two of them are equal up to case. -/
theorem distinctUpToCase_or {names : List String} (hnodup : names.Nodup) :
    DistinctUpToCase names ∨ ∃ a ∈ names, ∃ b ∈ names, EqualUpToCaseOnly a b := by
  by_cases hpair : ∃ a ∈ names, ∃ b ∈ names, EqualUpToCaseOnly a b
  · exact .inr hpair
  · refine .inl (.of_forall hnodup fun a ha b hb hfold => ?_)
    by_contra hne
    exact hpair ⟨a, ha, b, hb, hne, hfold⟩

/-! ## What a reference finds -/

/-- The columns of a relation that SQLite takes a name for. -/
def Relation.found (r : Relation) (name : String) : List String :=
  r.columns.filter fun column => foldCase column = foldCase name

/-- The columns of a relation are distinct up to case exactly if the name of each finds that column
alone. -/
theorem Relation.distinctUpToCase_iff_found {r : Relation} (hnodup : r.columns.Nodup) :
    DistinctUpToCase r.columns ↔ ∀ name ∈ r.columns, r.found name = [name] := by
  constructor
  · intro h name hname
    have hsame : r.found name = r.columns.filter (· == name) := by
      refine List.filter_congr fun column hcolumn => ?_
      rw [Bool.eq_iff_iff, decide_eq_true_iff, beq_iff_eq]
      exact ⟨h.eq_of_foldCase hcolumn hname, congrArg foldCase⟩
    rw [hsame, List.filter_beq, List.count_eq_one_of_mem hnodup hname]
    rfl
  · intro h
    refine .of_forall hnodup fun a ha b hb hfold => ?_
    have hfound : b ∈ r.found a := List.mem_filter.mpr ⟨hb, decide_eq_true hfold.symm⟩
    rw [h a ha] at hfound
    exact (List.mem_singleton.mp hfound).symm

/-! ## Everything that is read -/

namespace Source

/-- The relations that are read at any depth, in subqueries too. -/
def shown : Source → List Relation
  | table id name columns => [⟨id, .table name, columns⟩]
  | derived id source selection => ⟨id, .derived, selection.names⟩ :: source.shown
  | join left right _ _ _ => left.shown ++ right.shown

/-- What is visible in a source is shown by it. -/
theorem visible_subset_shown (s : Source) : s.visible ⊆ s.shown := by
  induction s with
  | table | derived => exact fun r hr => List.mem_singleton.mp hr ▸ List.mem_cons_self
  | join left right kind keys condition? ihl ihr =>
    exact fun r hr =>
      (List.mem_append.mp hr).elim (fun h => List.mem_append_left _ (ihl h)) fun h =>
      List.mem_append_right _ (ihr h)

/-- New identities change no columns. -/
theorem columns_shown_relabel (map : Relabelling) (s : Source) :
    (s.relabel map).shown.map (·.columns) = s.shown.map (·.columns) := by
  induction s with
  | table id name columns =>
    rw [relabel_table]
    rfl
  | derived id source selection =>
    rw [relabel_derived]
    rfl
  | join left right kind keys condition? ihl ihr =>
    rw [relabel, shown, List.map_append, ihl, ihr, shown, List.map_append]

end Source

/-- The columns that outputs and filter refer to. -/
def Selection.references (s : Selection) : List ColumnRef :=
  s.outputs.flatMap (·.expr.columns) ++ s.filter?.toList.flatMap Expr.columns

/-- The columns that joins and subqueries refer to, at any depth. -/
def Source.references : Source → List ColumnRef
  | .table _ _ _ => []
  | .derived _ source selection => source.references ++ selection.references
  | .join left right _ keys condition? =>
    left.references ++ right.references ++
      keys.flatMap (fun key => key.left.columns ++ key.right.columns) ++
      condition?.toList.flatMap Expr.columns

/-- The columns that a query refers to, at any depth. -/
def Query.references (q : Query) : List ColumnRef := q.source.references ++ q.selection.references

/-- A column of one of the relations. -/
def ColumnRef.IsOf (relations : List Relation) (ref : ColumnRef) : Prop :=
  ref.relation ∈ relations ∧ ref.name ∈ ref.relation.columns

/-- A well-formed selection refers to columns of the relations in scope. -/
theorem Selection.WellFormed.references {s : Selection} {relations : List Relation}
    (h : s.WellFormed relations) : ∀ ref ∈ s.references, ref.IsOf relations := by
  intro ref href
  rcases List.mem_append.mp href with href | href
  · obtain ⟨o, ho, href⟩ := List.mem_flatMap.mp href
    exact (h.outputs o ho).inScope ref href
  · obtain ⟨e, he, href⟩ := List.mem_flatMap.mp href
    exact (h.filter e (Option.mem_toList.mp he)).inScope ref href

/-- A column of some relations is a column of more relations. -/
theorem ColumnRef.IsOf.mono {relations others : List Relation} {ref : ColumnRef}
    (h : ref.IsOf relations) (hsub : relations ⊆ others) : ref.IsOf others :=
  ⟨hsub h.1, h.2⟩

/-- A well-formed source refers to columns of the relations that it shows. -/
theorem Source.WellFormed.references {s : Source} (h : s.WellFormed) :
    ∀ ref ∈ s.references, ref.IsOf s.shown := by
  induction s with
  | table id name columns => exact fun ref href => absurd href List.not_mem_nil
  | derived id source selection ih =>
    obtain ⟨hsource, -, hselection⟩ := h
    intro ref href
    rcases List.mem_append.mp href with href | href
    · exact (ih hsource ref href).mono (List.subset_cons_self ..)
    · exact (hselection.references ref href).mono
        (List.Subset.trans source.visible_subset_shown (List.subset_cons_self ..))
  | join left right kind keys condition? ihl ihr =>
    obtain ⟨hl, hr, hkeys, hcondition⟩ := h
    have hsubl : left.shown ⊆ left.shown ++ right.shown := List.subset_append_left ..
    have hsubr : right.shown ⊆ left.shown ++ right.shown := List.subset_append_right ..
    have hvisl := List.Subset.trans left.visible_subset_shown hsubl
    have hvisr := List.Subset.trans right.visible_subset_shown hsubr
    intro ref href
    simp only [Source.references, List.mem_append, List.mem_flatMap] at href
    -- a reference is of one side, of a key, or of the condition
    rcases href with ((href | href) | ⟨key, hkey, href | href⟩) | ⟨e, he, href⟩
    · exact (ihl hl ref href).mono hsubl
    · exact (ihr hr ref href).mono hsubr
    · exact ColumnRef.IsOf.mono ((hkeys key hkey).left.inScope ref href) hvisl
    · exact ColumnRef.IsOf.mono ((hkeys key hkey).right.inScope ref href) hvisr
    · exact ColumnRef.IsOf.mono ((hcondition e (Option.mem_toList.mp he)).inScope ref href) hvisr

/-- A well-formed query refers to columns of the relations that its source shows. -/
theorem Query.WellFormed.references {q : Query} (h : q.WellFormed) :
    ∀ ref ∈ q.references, ref.IsOf q.source.shown := by
  intro ref href
  rcases List.mem_append.mp href with href | href
  · exact h.source.references ref href
  · exact (h.selection.references ref href).mono q.source.visible_subset_shown

/-! ## Unambiguous queries -/

/-- No two outputs of a query are equal up to case, and no two columns of a relation that is read in
it. -/
structure Query.Unambiguous (q : Query) : Prop where
  names : DistinctUpToCase q.names
  shown : ∀ r ∈ q.source.shown, DistinctUpToCase r.columns

instance (q : Query) : Decidable q.Unambiguous :=
  decidable_of_iff (DistinctUpToCase q.names ∧ ∀ r ∈ q.source.shown, DistinctUpToCase r.columns)
    ⟨fun h => ⟨h.1, h.2⟩, fun h => ⟨h.names, h.shown⟩⟩

/-- No table of a catalog has two columns that are equal up to case. -/
def Catalog.Unambiguous (c : Catalog) : Prop := ∀ t ∈ c.tables, DistinctUpToCase t.columnNames

instance (c : Catalog) : Decidable c.Unambiguous :=
  inferInstanceAs (Decidable (∀ t ∈ c.tables, DistinctUpToCase t.columnNames))

namespace Query.Unambiguous

variable {p r : Plan} {q base : Query}

/-- In an unambiguous query the name of each column finds that column alone. -/
theorem found (h : q.Unambiguous) :
    ∀ r ∈ q.source.shown, ∀ name ∈ r.columns, r.found name = [name] :=
  fun r hr => (Relation.distinctUpToCase_iff_found (h.shown r hr).nodup).mp (h.shown r hr)

/-- So every reference finds the column it names. -/
theorem found_references (h : q.Unambiguous) (hwf : q.WellFormed) :
    ∀ ref ∈ q.references, ref.relation.found ref.name = [ref.name] := by
  intro ref href
  obtain ⟨hrelation, hname⟩ := hwf.references ref href
  exact h.found _ hrelation _ hname

/-- A table with columns that are distinct up to case is unambiguous. -/
theorem ofTable {id : Nat} {name : String} {columns : List String} (h : DistinctUpToCase columns) :
    (Query.ofTable id name columns).Unambiguous := by
  refine ⟨?_, fun r hr => ?_⟩
  · rwa [Query.names, Selection.names, Query.ofTable, Selection.plain, Plan.names_passThrough]
  · rw [List.mem_singleton.mp hr]
    exact h

/-- An unambiguous plan is unambiguous when it is opened. -/
theorem opened (h : p.query.Unambiguous) : p.opened.Unambiguous := by
  refine ⟨by rw [Plan.names_opened]; exact h.names, ?_⟩
  unfold Plan.opened
  split
  · exact List.forall_mem_cons.mpr ⟨h.names, h.shown⟩
  · exact h.shown

/-- An unambiguous plan is unambiguous under a window or DISTINCT. -/
theorem unwindowed (h : p.query.Unambiguous) : p.unwindowed.Unambiguous := by
  unfold Plan.unwindowed
  split
  · exact h.opened
  · exact h

/-- Other outputs whose names the query has already. -/
theorem withOutputs (h : base.Unambiguous) {outputs : List Output}
    (hnodup : (outputs.map (·.name)).Nodup) (hsub : outputs.map (·.name) ⊆ base.names) :
    (base.withOutputs outputs).Unambiguous :=
  ⟨h.names.of_subset hnodup hsub, h.shown⟩

/-- New identities keep the columns of the relations in a merge. -/
theorem shown_rebased (h : r.query.Unambiguous) (next : Nat) :
    ∀ relation ∈ (p.rebased r next).source.shown, DistinctUpToCase relation.columns := by
  intro relation hrelation
  -- the images have the columns of the relations that were read before
  have hmem := List.mem_map_of_mem (f := Relation.columns) hrelation
  rw [Plan.rebased, Query.relabel, Source.columns_shown_relabel] at hmem
  obtain ⟨old, hold, hcolumns⟩ := List.mem_map.mp hmem
  rw [← hcolumns]
  exact h.opened.shown old hold

end Query.Unambiguous

/-! ## Clashes -/

theorem Plan.names_assigned (p : Plan) (name : String) (e : Expr) :
    (p.opened.withOutputs (setOutput ⟨name, e⟩ p.opened.selection.outputs)).names =
      if name ∈ p.names then p.names else p.names ++ [name] := by
  rw [← p.names_opened]
  exact Query.WellFormed.names_setOutput _ _

/-- The names after a renaming are the renamed names. -/
theorem Plan.names_renamed (p : Plan) (mapping : List (String × String)) :
    (p.opened.withOutputs (renamedOutputs mapping p.opened.selection.outputs)).names =
      p.names.map (renamed mapping) := by
  rw [← p.names_opened]
  exact names_renamedOutputs mapping _

/-- A join shows what its sides show. -/
theorem Query.shown_joinOn (left right : Query) (kind : JoinKind) (keys : List JoinKey) :
    (left.joinOn right kind keys).source.shown = left.source.shown ++ right.source.shown := by
  cases kind with
  | inner | left => rfl

namespace Plan

variable {p r : Plan} {q : Query}

/-- After an assignment there are the names from before and the assigned one. -/
theorem mem_names_assigned {name : String} {e : Expr} (hq : p.assign name e = .ok q) {n : String} :
    n ∈ q.names ↔ n ∈ p.names ∨ n = name := by
  obtain ⟨_, _, rfl⟩ := assign_eq_ok.mp hq
  rw [p.names_assigned]
  split
  next hname =>
    refine ⟨.inl, ?_⟩
    rintro (hold | rfl)
    · exact hold
    · exact hname
  next => rw [List.mem_append, List.mem_singleton]

/-- What the left side has already is not taken from the right. -/
theorem mem_names_merged {options : MergeOptions} {next next' : Nat}
    (hq : p.merge r options next = .ok (q, next')) {n : String} :
    n ∈ q.names ↔ n ∈ p.names ∨ n ∈ r.names := by
  obtain ⟨kind, _, _, keys, _, _, _, rfl, _⟩ := merge_eq_ok.mp hq
  rw [Query.names_joinOn, names_rebased, p.names_opened, r.names_opened, List.mem_append,
    List.mem_filter]
  by_cases hleft : n ∈ p.names
  · simp [hleft]
  · simp [hleft]

end Plan

/-- A query made by an operation on these plans that brings two names together which are equal up to
case only: an assignment of a name that another output has up to case, a renaming that leaves two
such names, or a merge of two plans of which one has an output that the other has up to case. -/
inductive Clash (plans : List Plan) : Query → Prop where
  | assign {p : Plan} {name : String} {e : Expr} {q : Query} {other : String} (hp : p ∈ plans)
    (hq : p.assign name e = .ok q) (hother : other ∈ p.names)
    (hcase : EqualUpToCaseOnly other name) : Clash plans q
  | rename {p : Plan} {mapping : List (String × String)} {q : Query} {a b : String} (hp : p ∈ plans)
    (hq : p.rename mapping = .ok q) (ha : a ∈ p.names) (hb : b ∈ p.names)
    (hcase : EqualUpToCaseOnly (Plan.renamed mapping a) (Plan.renamed mapping b)) : Clash plans q
  | merge {p r : Plan} {options : MergeOptions} {next : Nat} {q : Query} {next' : Nat}
    {a b : String} (hp : p ∈ plans) (hr : r ∈ plans)
    (hq : p.merge r options next = .ok (q, next')) (ha : a ∈ p.names) (hb : b ∈ r.names)
    (hcase : EqualUpToCaseOnly a b) : Clash plans q

variable {plans : List Plan} {q : Query} {next next' : Nat}

/-- A clash leaves two outputs that are equal up to case. -/
theorem Clash.not_unambiguous (h : Clash plans q) : ¬ q.Unambiguous := by
  have hpair : ∃ a ∈ q.names, ∃ b ∈ q.names, EqualUpToCaseOnly a b := by
    cases h with
    | @assign p name e q other hp hq hother hcase =>
      exact ⟨other, (Plan.mem_names_assigned hq).mpr (.inl hother), name,
        (Plan.mem_names_assigned hq).mpr (.inr rfl), hcase⟩
    | @rename p mapping q a b hp hq ha hb hcase =>
      obtain ⟨_, _, rfl⟩ := Plan.rename_eq_ok.mp hq
      rw [p.names_renamed]
      exact ⟨_, List.mem_map_of_mem ha, _, List.mem_map_of_mem hb, hcase⟩
    | @merge p r options next q next' a b hp hr hq ha hb hcase =>
      exact ⟨a, (Plan.mem_names_merged hq).mpr (.inl ha), b,
        (Plan.mem_names_merged hq).mpr (.inr hb), hcase⟩
  obtain ⟨a, ha, b, hb, hcase⟩ := hpair
  exact fun hq => hq.names.not_equalUpToCaseOnly ha hb hcase

/-! ## One operation -/

/-- As they are, the outputs are distinct after every operation. -/
theorem Step.names_nodup (h : Step plans next q next') (hplans : ∀ p ∈ plans, p.query.Unambiguous) :
    q.names.Nodup := by
  cases h with
  | @project p names q hp hq =>
    obtain ⟨_, hnodup, outputs, houtputs, rfl⟩ := Plan.project_eq_ok.mp hq
    rwa [← Plan.names_projected houtputs] at hnodup
  | @assign p name e q hp hq =>
    obtain ⟨_, _, rfl⟩ := Plan.assign_eq_ok.mp hq
    rw [p.names_assigned]
    split
    -- a name that is replaced keeps its place, a new one comes last
    next => exact (hplans p hp).names.nodup
    next hnew =>
      exact (hplans p hp).names.nodup.append (List.nodup_singleton _)
        (List.disjoint_singleton.mpr hnew)
  | @rename p mapping q hp hq =>
    obtain ⟨_, hnodup, rfl⟩ := Plan.rename_eq_ok.mp hq
    rwa [p.names_renamed, ← p.names_opened]
  | @drop p names q hp hq =>
    obtain ⟨_, _, rfl⟩ := Plan.drop_eq_ok.mp hq
    exact (hplans p hp).opened.names.nodup.sublist (List.filter_sublist.map _)
  | @filter p e q hp hq =>
    obtain ⟨_, _, rfl⟩ := Plan.filter_eq_ok.mp hq
    exact (hplans p hp).opened.names.nodup
  | @distinct p q hp hq =>
    obtain ⟨_, rfl⟩ := Plan.distinct?_eq_some.mp hq
    exact (hplans p hp).unwindowed.names.nodup
  | @slice p start stop w q hp hw hq =>
    obtain ⟨_, rfl⟩ := Plan.slice?_eq_some.mp hq
    exact (hplans p hp).unwindowed.names.nodup
  | @merge p r options q next' hp hr hq =>
    obtain ⟨kind, _, _, keys, _, _, _, rfl, _⟩ := Plan.merge_eq_ok.mp hq
    refine Query.nodup_names_joinOn (hplans p hp).opened.names.nodup ?_ kind keys
    rw [Plan.names_rebased]
    exact (hplans r hr).opened.names.nodup

/-- An operation on unambiguous plans gives an unambiguous query, or it is a clash. -/
theorem Step.unambiguous_or_clash (h : Step plans next q next')
    (hplans : ∀ p ∈ plans, p.query.Unambiguous) : q.Unambiguous ∨ Clash plans q := by
  have hnodup := h.names_nodup hplans
  -- the operations that make no name keep what their plans have; the other three may clash
  cases h with
  | @project p names q hp hq =>
    obtain ⟨_, _, outputs, houtputs, rfl⟩ := Plan.project_eq_ok.mp hq
    refine .inl ((hplans p hp).opened.withOutputs hnodup ?_)
    rintro _ hname
    obtain ⟨o, ho, rfl⟩ := List.mem_map.mp hname
    obtain ⟨_, _, hlookup, rfl⟩ := Attempt.exists_of_mem_right houtputs ho
    obtain ⟨base, hbase, hsame, _⟩ := Query.lookup_eq_ok hlookup
    exact List.mem_map.mpr ⟨base, hbase, hsame⟩
  | @assign p name e q hp hq =>
    obtain ⟨_, _, hmade⟩ := Plan.assign_eq_ok.mp hq
    rcases distinctUpToCase_or hnodup with hdistinct | ⟨a, ha, b, hb, hcase⟩
    · exact .inl ⟨hdistinct, by rw [hmade]; exact (hplans p hp).opened.shown⟩
    · have hsingle : DistinctUpToCase [name] := List.nodup_singleton _
      have hnames : ∀ n ∈ q.names, n ∈ p.names ∨ n ∈ [name] := fun n hn =>
        ((Plan.mem_names_assigned hq).mp hn).imp_right List.mem_singleton.mpr
      -- the old names are apart, so one of the two is the new name
      obtain ⟨other, hother, n, hn, hcase⟩ :=
        exists_across (hplans p hp).names hsingle (hnames a ha) (hnames b hb) hcase
      rw [List.mem_singleton.mp hn] at hcase
      exact .inr (.assign hp hq hother hcase)
  | @rename p mapping q hp hq =>
    obtain ⟨_, _, hmade⟩ := Plan.rename_eq_ok.mp hq
    rcases distinctUpToCase_or hnodup with hdistinct | ⟨a, ha, b, hb, hcase⟩
    · exact .inl ⟨hdistinct, by rw [hmade]; exact (hplans p hp).opened.shown⟩
    · rw [hmade, p.names_renamed] at ha hb
      obtain ⟨x, hx, rfl⟩ := List.mem_map.mp ha
      obtain ⟨y, hy, rfl⟩ := List.mem_map.mp hb
      exact .inr (.rename hp hq hx hy hcase)
  | @drop p names q hp hq =>
    obtain ⟨_, _, rfl⟩ := Plan.drop_eq_ok.mp hq
    exact .inl ((hplans p hp).opened.withOutputs hnodup (List.filter_sublist.map _).subset)
  | @filter p e q hp hq =>
    obtain ⟨_, _, rfl⟩ := Plan.filter_eq_ok.mp hq
    exact .inl ⟨(hplans p hp).opened.names, (hplans p hp).opened.shown⟩
  | @distinct p q hp hq =>
    obtain ⟨_, rfl⟩ := Plan.distinct?_eq_some.mp hq
    exact .inl ⟨(hplans p hp).unwindowed.names, (hplans p hp).unwindowed.shown⟩
  | @slice p start stop w q hp hw hq =>
    obtain ⟨_, rfl⟩ := Plan.slice?_eq_some.mp hq
    exact .inl ⟨(hplans p hp).unwindowed.names, (hplans p hp).unwindowed.shown⟩
  | @merge p r options q next' hp hr hq =>
    obtain ⟨kind, _, _, keys, _, _, _, hmade, _⟩ := Plan.merge_eq_ok.mp hq
    rcases distinctUpToCase_or hnodup with hdistinct | ⟨a, ha, b, hb, hcase⟩
    · refine .inl ⟨hdistinct, fun relation hrelation => ?_⟩
      rw [hmade, Query.shown_joinOn] at hrelation
      rcases List.mem_append.mp hrelation with hleft | hright
      · exact (hplans p hp).opened.shown relation hleft
      · exact (hplans r hr).shown_rebased next relation hright
    · have hnames {n : String} := (Plan.mem_names_merged hq (n := n)).mp
      -- each side is apart in itself, so the two are of different sides
      obtain ⟨x, hx, y, hy, hcase⟩ :=
        exists_across (hplans p hp).names (hplans r hr).names (hnames ha) (hnames hb) hcase
      exact .inr (.merge hp hr hq hx hy hcase)

/-! ## Histories of operations -/

/-- Some plan of a history has been made by a clash of those before it. -/
def HasClash (plans : List Plan) : Prop :=
  ∃ newer p older, plans = newer ++ p :: older ∧ Clash older p.query

/-- There is a clash among plans if the last one is a clash or there was one before. -/
theorem hasClash_cons {p : Plan} :
    HasClash (p :: plans) ↔ Clash plans p.query ∨ HasClash plans := by
  constructor
  · rintro ⟨newer, p', older, hplans, hclash⟩
    cases newer with
    | nil =>
      obtain ⟨rfl, rfl⟩ := List.cons.inj hplans
      exact .inl hclash
    | cons first newer =>
      exact .inr ⟨newer, p', older, (List.cons.inj hplans).2, hclash⟩
  · rintro (hclash | ⟨newer, p', older, rfl, hclash⟩)
    · exact ⟨[], p, plans, rfl, hclash⟩
    · exact ⟨p :: newer, p', older, rfl, hclash⟩

/-- A history without a clash has made unambiguous plans only. -/
theorem Session.unambiguous {c : Catalog} (hcase : c.Unambiguous) (h : Session c plans next)
    (hclash : ¬ HasClash plans) : ∀ p ∈ plans, p.query.Unambiguous := by
  induction h with
  | start h => exact fun p hp => absurd hp List.not_mem_nil
  | @table plans next t h ht ih =>
    refine List.forall_mem_cons.mpr
      ⟨.ofTable (hcase t ht), ih fun hold => hclash (hasClash_cons.mpr (.inr hold))⟩
  | @step plans next q next' h hq ih =>
    have hplans := ih fun hold => hclash (hasClash_cons.mpr (.inr hold))
    refine List.forall_mem_cons.mpr ⟨?_, hplans⟩
    exact (hq.unambiguous_or_clash hplans).resolve_right fun hmade =>
      hclash (hasClash_cons.mpr (.inl hmade))

/-- Where no table has two columns that are equal up to case, the plans of a history of operations
are all unambiguous exactly if none of them was made by a clash. Then in every relation that they
read at any depth the name of a column finds that column alone. So does each reference in them,
provided that every table has a column, which is what it takes for all references to be in scope. -/
theorem Session.unambiguous_iff {c : Catalog} (hcase : c.Unambiguous) (h : Session c plans next) :
    ((∀ p ∈ plans, p.query.Unambiguous) ↔ ¬ HasClash plans) ∧
      (¬ HasClash plans →
        ∀ p ∈ plans, ∀ r ∈ p.query.source.shown, ∀ name ∈ r.columns, r.found name = [name]) ∧
      (¬ HasClash plans → c.WellFormed →
        ∀ p ∈ plans, ∀ ref ∈ p.query.references, ref.relation.found ref.name = [ref.name]) := by
  refine ⟨⟨?_, h.unambiguous hcase⟩, fun hclash p hp => ?_, fun hclash hc p hp => ?_⟩
  · rintro hplans ⟨newer, p, older, rfl, hclash⟩
    exact hclash.not_unambiguous (hplans p (by simp))
  · exact (h.unambiguous hcase hclash p hp).found
  · exact (h.unambiguous hcase hclash p hp).found_references ((h.wellFormed hc).2 p hp).1

/-! ## A column with another name -/

namespace Plan

/-- The tracks with another name for the column `AlbumId`. -/
def retitled (title : String) : Plan :=
  ⟨3, tracks.opened.withOutputs
    (renamedOutputs [("AlbumId", title)] tracks.opened.selection.outputs)⟩

/-- Each of them once. -/
def retitledOnce (title : String) : Plan :=
  ⟨4, { (retitled title).query with
    selection := { (retitled title).query.selection with distinct := true } }⟩

/-- And of those the names. -/
def retitledNames (title : String) : Plan :=
  ⟨5, (retitledOnce title).opened.withOutputs
    [⟨"Name", .column (retitledOnce title).relation "Name"⟩]⟩

end Plan

/-- The history in which they are made. -/
theorem Session.retitled (title : String) (h : ["TrackId", title, "Name"].Nodup) :
    Session Catalog.music
      [Plan.retitledNames title, Plan.retitledOnce title, Plan.retitled title, Plan.tracks] 6 := by
  have hrename : Plan.tracks.rename [("AlbumId", title)] = .ok (Plan.retitled title).query :=
    Plan.rename_eq_ok.mpr ⟨List.forall_mem_singleton.mpr (.tail _ (.head _)), h, rfl⟩
  have hdistinct : (Plan.retitled title).distinct? = some (Plan.retitledOnce title).query := rfl
  have hlookup : (Plan.retitledOnce title).opened.lookup "Name" =
      .ok (.column (Plan.retitledOnce title).relation "Name") := by
    have hname : title ≠ "Name" := fun heq => by simp [heq] at h
    have hoffered : (Plan.retitledOnce title).opened.selection.outputs =
      ["TrackId", title, "Name"].map fun name =>
        ⟨name, .column (Plan.retitledOnce title).relation name⟩ := rfl
    simp [Query.lookup, hoffered, hname]
  have hproject : (Plan.retitledOnce title).project ["Name"] =
      .ok (Plan.retitledNames title).query :=
    Plan.project_eq_ok.mpr ⟨List.cons_ne_nil _ _, List.nodup_singleton _, _,
      .cons ⟨hlookup, rfl⟩ .nil, rfl⟩
  have hrenamed : Session Catalog.music [Plan.retitled title, Plan.tracks] 4 :=
    .step .tracks (.rename (.head _) hrename)
  have honce :
      Session Catalog.music [Plan.retitledOnce title, Plan.retitled title, Plan.tracks] 5 :=
    .step hrenamed (.distinct (.head _) hdistinct)
  exact .step honce (.project (.head _) hproject)

/-- Under the name `Album` nothing clashes, so the name of a track is read from its column. -/
theorem Session.unambiguous_iff_album :
    Catalog.music.WellFormed ∧ Catalog.music.Unambiguous ∧
      Session Catalog.music
        [Plan.retitledNames "Album", Plan.retitledOnce "Album", Plan.retitled "Album",
          Plan.tracks] 6 ∧
      ¬ HasClash [Plan.retitledNames "Album", Plan.retitledOnce "Album", Plan.retitled "Album",
        Plan.tracks] ∧
      ∀ ref ∈ (Plan.retitledNames "Album").query.references, ref.relation.found ref.name =
        [ref.name] := by
  have hcase : Catalog.music.Unambiguous := by decide
  have hsession := Session.retitled "Album" (by decide)
  obtain ⟨hiff, -, hreferences⟩ := Session.unambiguous_iff hcase hsession
  have hclash := hiff.mp (by decide)
  exact ⟨Catalog.wellFormed_music, hcase, hsession, hclash,
    hreferences hclash Catalog.wellFormed_music _ (.head _)⟩

/-- The name `NAME` is accepted as well. In the statement that reads the names, the reference to
`Name` then finds two columns of the subquery, and the first of them is the album. -/
theorem Session.unambiguous_loud :
    Catalog.music.WellFormed ∧ Catalog.music.Unambiguous ∧
      Session Catalog.music
        [Plan.retitledNames "NAME", Plan.retitledOnce "NAME", Plan.retitled "NAME", Plan.tracks] 6 ∧
      (Plan.retitled "NAME").names = ["TrackId", "NAME", "Name"] ∧
      ¬ DistinctUpToCase (Plan.retitled "NAME").names ∧
      (∃ text, (Plan.retitledNames "NAME").query.sql .sqlite = .ok text ∧
        text = "SELECT a.Name FROM (SELECT DISTINCT b.TrackId, b.AlbumId AS NAME, b.Name " ++
          "FROM tracks AS b) AS a;") ∧
      ⟨(Plan.retitledOnce "NAME").relation, "Name"⟩ ∈ (Plan.retitledNames "NAME").query.references ∧
      (Plan.retitledOnce "NAME").relation.found "Name" = ["NAME", "Name"] := by
  refine ⟨Catalog.wellFormed_music, by decide, Session.retitled "NAME" (by decide), rfl, by decide,
    ⟨_, rfl, by decide +kernel⟩, by decide, by decide⟩

end LazyFrame
