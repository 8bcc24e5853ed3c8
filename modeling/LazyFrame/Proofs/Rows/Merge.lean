import LazyFrame.Proofs.Rows.Table

/-!
# Merging two plans, on their rows

A merge of two plans is a nested loop over their tables (`Plan.table_merge`), for inner and left
merges and for any two plans, the same one twice included.

The new identities on the right side change no row (`Query.table_relabel`). After that the two sides
read different relations, and a row of the join is a left row followed by a right one. Where the
filters stand decides nothing: in an inner join both are tested on the pair, in a left join the left
one is, while the right one takes part in the search for partners. Either way the pairs that remain
are those of kept rows (`Joinable.kept_joinOn`), and a left row without any stands beside what the
right outputs make of a row of NULL.
-/

namespace LazyFrame

variable {α : Type} {S : Scalars α} {db : Database α}

/-! ## Sides of a join -/

theorem flatMap_filter {β γ : Type} (p : β → Bool) (f : β → List γ) (xs : List β) :
    (xs.filter p).flatMap f = xs.flatMap fun x => if p x then f x else [] := by
  induction xs with
  | nil => rfl
  | cons x rest ih =>
    cases h : p x with
    | true => simp [h, ih]
    | false => simp [h, ih]

theorem all_eq_all {β γ : Type} {R : β → γ → Prop} {bs : List β} {cs : List γ}
    (h : List.Forall₂ R bs cs) {f : β → Bool} {g : γ → Bool} (hR : ∀ b c, R b c → g c = f b) :
    cs.all g = bs.all f := by
  induction h with
  | nil => rfl
  | cons hfirst _ ih => rw [List.all_cons, List.all_cons, hR _ _ hfirst, ih]

/-- Two queries over different relations that are about to be joined on columns they name. -/
structure Query.Joinable (left right : Query) (pairs : List (String × String))
    (keys : List JoinKey) : Prop where
  wellFormed_left : left.WellFormed
  wellFormed_right : right.WellFormed
  plain_left : left.selection.IsPlain
  plain_right : right.selection.IsPlain
  disjoint : left.source.visible.Disjoint right.source.visible
  keys : List.Forall₂ (fun names key => left.lookup names.1 = .ok key.left ∧
    right.lookup names.2 = .ok key.right) pairs keys

namespace Query.Joinable

variable {left right : Query} {pairs : List (String × String)} {keys : List JoinKey}

/-- Each filter is tested on its own part of a row. -/
theorem keeps_append (h : left.Joinable right pairs keys) {l : SourceRow α}
    (hl : l.relations = left.source.visible) (r : SourceRow α) :
    left.selection.keeps S (SourceRow.env S (l ++ r)) = left.selection.keeps S (SourceRow.env S l) ∧
      right.selection.keeps S (SourceRow.env S (l ++ r)) =
        right.selection.keeps S (SourceRow.env S r) := by
  have hdisjoint : l.relations.Disjoint right.source.visible := hl ▸ h.disjoint
  constructor
  · exact Selection.keeps_congr fun e he =>
      SourceRow.value_append_left (h.wellFormed_left.selection.filter e he).inScope hl
  · exact Selection.keeps_congr fun e he =>
      SourceRow.value_append_right (h.wellFormed_right.selection.filter e he).inScope hdisjoint

variable [DecidableEq α]

/-! ## Rows of a join -/

theorem project (h : left.Joinable right pairs keys) {kind : JoinKind} {env envl envr : Env α}
    (hl : ∀ o ∈ left.selection.outputs, o.expr.value S env = o.expr.value S envl)
    (hr : ∀ o ∈ right.selection.outputs, o.expr.value S env = o.expr.value S envr) :
    (left.joinOn right kind keys).selection.project S env =
      Table.beside S (left.table S db) (right.table S db)
      (left.selection.project S envl) (right.selection.project S envr) := by
  have hrest : Table.restNames (left.table S db) (right.table S db) =
      (right.selection.outputs.filter fun output => !left.names.contains output.name).map
        (·.name) := by
    show (right.selection.outputs.map (·.name)).filter _ = _
    rw [List.filter_map]
    rfl
  rw [Selection.project, outputs_joinOn, List.map_append, Table.beside, hrest, List.map_map]
  refine congr_arg₂ _ (List.map_congr_left hl) (List.map_congr_left fun o ho => ?_)
  have hmem := (List.mem_filter.mp ho).1
  rw [hr o hmem]
  exact (cell_of_mem h.wellFormed_right.selection.names_nodup hmem fun o =>
    o.expr.value S envr).symm

/-- On a left row followed by a right one the keys agree as the columns do that they stand for. -/
theorem all_keys (h : left.Joinable right pairs keys) {l : SourceRow α}
    (hl : l.relations = left.source.visible) (r : SourceRow α) :
    (keys.all fun key => S.isTrue (S.binary .eq (key.left.value S (SourceRow.env S (l ++ r)))
        (key.right.value S (SourceRow.env S (l ++ r))))) =
      Table.agree S (left.table S db) (right.table S db) pairs
        (left.selection.project S (SourceRow.env S l))
        (right.selection.project S (SourceRow.env S r)) := by
  have hdisjoint : l.relations.Disjoint right.source.visible := hl ▸ h.disjoint
  refine all_eq_all h.keys fun names key ⟨hleft, hright⟩ => ?_
  have hvalue : key.left.value S (SourceRow.env S (l ++ r)) =
      key.left.value S (SourceRow.env S l) :=
    SourceRow.value_append_left (h.wellFormed_left.isScalarOver_of_lookup hleft).inScope hl
  have hvalue' : key.right.value S (SourceRow.env S (l ++ r)) =
      key.right.value S (SourceRow.env S r) :=
    SourceRow.value_append_right
      (h.wellFormed_right.isScalarOver_of_lookup hright).inScope hdisjoint
  rw [hvalue, hvalue', ← Selection.cell_project hleft, ← Selection.cell_project hright]
  rfl

/-- The right rows that a left row is joined with: kept ones that agree with it. -/
def matching (S : Scalars α) (db : Database α) (left right : Query) (pairs : List (String × String))
    (l : SourceRow α) : List (SourceRow α) :=
  (right.source.rows S db).filter fun r => right.selection.keeps S (SourceRow.env S r) &&
    Table.agree S (left.table S db) (right.table S db) pairs
      (left.selection.project S (SourceRow.env S l)) (right.selection.project S (SourceRow.env S r))

/-- The rows of a join that are kept: kept left rows beside their partners among the kept right
ones. -/
theorem kept_joinOn (h : left.Joinable right pairs keys) (kind : JoinKind) :
    (left.joinOn right kind keys).kept S db = (left.source.rows S db).flatMap fun l =>
      if left.selection.keeps S (SourceRow.env S l) then
        (kind.partners (matching S db left right pairs l)
          (SourceRow.blank S right.source.visible)).map fun r =>
          SourceRow.env S (l ++ r)
      else [] := by
  cases kind with
  | inner =>
    -- both filters are tested behind the join, on the whole pair
    have hsource : (left.joinOn right .inner keys).source.rows S db =
        (left.source.rows S db).flatMap fun l =>
        ((right.source.rows S db).filter fun r =>
          JoinKey.allMatch S keys none (SourceRow.env S (l ++ r))).map (l ++ ·) := rfl
    rw [kept, hsource, List.map_flatMap, List.filter_flatMap]
    refine List.flatMap_congr fun l hlrow => ?_
    have hl := Source.relations_rows l hlrow
    have hkeeps :
        ∀ r, (left.joinOn right .inner keys).selection.keeps S (SourceRow.env S (l ++ r)) =
        (left.selection.keeps S (SourceRow.env S l) &&
          right.selection.keeps S (SourceRow.env S r)) := by
      intro r
      rw [← (h.keeps_append hl r).1, ← (h.keeps_append hl r).2]
      exact Expr.all_conjoin _ _ _
    rw [List.map_map, List.filter_map, List.filter_filter]
    cases hleft : left.selection.keeps S (SourceRow.env S l) with
    | true =>
      -- of the two filters only the right one is left to decide
      refine congrArg (List.map _) (List.filter_congr fun r _ => ?_)
      rw [Function.comp_apply, Function.comp_apply, hkeeps, hleft, Bool.true_and, JoinKey.allMatch,
        h.all_keys hl r, Option.all_none, Bool.and_true]
    | false =>
      have hnone : ((right.source.rows S db).filter fun r =>
          ((left.joinOn right .inner keys).selection.keeps S ∘ SourceRow.env S ∘ (l ++ ·)) r &&
            JoinKey.allMatch S keys none (SourceRow.env S (l ++ r))) = [] := by
        refine List.filter_eq_nil_iff.mpr fun r _ => ?_
        rw [Function.comp_apply, Function.comp_apply, hkeeps, hleft, Bool.false_and, Bool.false_and]
        exact Bool.false_ne_true
      rw [hnone]
      rfl
  | left =>
    -- the right filter is part of the ON, and the left one is tested behind the join
    have hsource : (left.joinOn right .left keys).source.rows S db =
        (left.source.rows S db).flatMap fun l =>
        (JoinKind.left.partners ((right.source.rows S db).filter fun r =>
          JoinKey.allMatch S keys right.selection.filter? (SourceRow.env S (l ++ r)))
            (SourceRow.blank S right.source.visible)).map (l ++ ·) := rfl
    rw [kept, hsource, List.map_flatMap, List.filter_flatMap]
    refine List.flatMap_congr fun l hlrow => ?_
    have hl := Source.relations_rows l hlrow
    -- a right row that is not kept is no partner, as if it were not there
    have hmatching : ((right.source.rows S db).filter fun r =>
        JoinKey.allMatch S keys right.selection.filter? (SourceRow.env S (l ++ r))) =
          matching S db left right pairs l := by
      refine List.filter_congr fun r _ => ?_
      rw [JoinKey.allMatch, h.all_keys hl r, Bool.and_comm, ← (h.keeps_append hl r).2]
      rfl
    have hkeeps : ∀ r, (left.joinOn right .left keys).selection.keeps S (SourceRow.env S (l ++ r)) =
        left.selection.keeps S (SourceRow.env S l) := fun r => (h.keeps_append hl r).1
    rw [hmatching, List.map_map, List.filter_map]
    cases hleft : left.selection.keeps S (SourceRow.env S l) with
    | true =>
      refine congrArg (List.map _) (List.filter_eq_self.mpr fun r _ => ?_)
      rw [Function.comp_apply, Function.comp_apply, hkeeps, hleft]
    | false =>
      refine congrArg (List.map _) (List.filter_eq_nil_iff.mpr fun r _ => ?_)
      rw [Function.comp_apply, Function.comp_apply, hkeeps, hleft]
      exact Bool.false_ne_true

theorem project_append (h : left.Joinable right pairs keys) (kind : JoinKind) {l : SourceRow α}
    (hl : l.relations = left.source.visible) (r : SourceRow α) :
    (left.joinOn right kind keys).selection.project S (SourceRow.env S (l ++ r)) =
      Table.beside S (left.table S db) (right.table S db)
        (left.selection.project S (SourceRow.env S l))
        (right.selection.project S (SourceRow.env S r)) := by
  have hdisjoint : l.relations.Disjoint right.source.visible := hl ▸ h.disjoint
  refine h.project (fun o ho => ?_) fun o ho => ?_
  · exact SourceRow.value_append_left (h.wellFormed_left.selection.outputs o ho).inScope hl
  · exact SourceRow.value_append_right (h.wellFormed_right.selection.outputs o ho).inScope hdisjoint

theorem filter_agree (h : left.Joinable right pairs keys) (l : SourceRow α) :
    (right.table S db).rows.filter (Table.agree S (left.table S db) (right.table S db) pairs
        (left.selection.project S (SourceRow.env S l))) =
      (matching S db left right pairs l).map fun r =>
        right.selection.project S (SourceRow.env S r) := by
  have hrows : (right.table S db).rows = (right.kept S db).map (right.selection.project S) :=
    congrArg Table.rows (table_of_isPlain h.plain_right h.wellFormed_right.selection.isAggregate)
  rw [hrows, kept, List.filter_map, List.filter_map, List.filter_map,
    List.filter_filter, List.map_map]
  refine congrArg (List.map _) (List.filter_congr fun r _ => ?_)
  exact Bool.and_comm _ _

/-- A join of two queries is the nested loop over their tables, and what the right outputs make of a
row of NULL stands in for a right row that is not there. -/
theorem table_joinOn (h : left.Joinable right pairs keys) (kind : JoinKind) :
    (left.joinOn right kind keys).table S db = (left.table S db).loop S (right.table S db)
      (right.selection.project S (Env.blank S)) kind pairs := by
  have hwf : (left.joinOn right kind keys).WellFormed :=
    h.wellFormed_left.joinOn h.wellFormed_right h.disjoint
    (Plan.wellFormed_keys h.wellFormed_left h.wellFormed_right h.keys)
  have hplain : (left.joinOn right kind keys).selection.IsPlain := by
    cases kind <;> exact ⟨rfl, rfl, rfl⟩
  have hnames : (left.joinOn right kind keys).names =
      left.names ++ (left.table S db).restNames (right.table S db) := by
    rw [names, Selection.names, outputs_joinOn, List.map_append]
    refine congrArg (_ ++ ·) ?_
    show _ = (right.selection.outputs.map (·.name)).filter _
    rw [List.filter_map]
    rfl
  have hrows : (left.table S db).rows = (left.kept S db).map (left.selection.project S) :=
    congrArg Table.rows (table_of_isPlain h.plain_left h.wellFormed_left.selection.isAggregate)
  -- the rows that the left filter drops have no partners in the nested loop
  rw [table_of_isPlain hplain hwf.selection.isAggregate, Table.loop, hnames, hrows, h.kept_joinOn,
    List.map_flatMap, List.flatMap_map, kept, List.filter_map, List.flatMap_map, flatMap_filter]
  refine congrArg (Table.mk _) (List.flatMap_congr fun l hlrow => ?_)
  have hl := Source.relations_rows l hlrow
  rw [Function.comp_apply]
  split
  · -- the partners of a kept left row, computed one by one, the row of NULL among them
    rw [h.filter_agree, ← SourceRow.env_blank S right.source.visible,
      JoinKind.partners_map kind fun r => right.selection.project S (SourceRow.env S r),
      List.map_map, List.map_map]
    exact List.map_congr_left fun r _ => h.project_append kind hl r
  · rfl

end Query.Joinable

/-! ## Plans -/

/-- What the right outputs of a merge make of a row of NULL does not depend on their identities. -/
theorem Plan.project_rebased (S : Scalars α) (p r : Plan) (next : Nat) :
    (p.rebased r next).selection.project S (Env.blank S) =
      r.opened.selection.project S (Env.blank S) := by
  rw [Selection.project, rebased, Query.relabel, Selection.project, List.map_map]
  exact List.map_congr_left fun o _ => o.expr.value_substitute _ (Env.blank S)

variable [DecidableEq α]

/-- The table of a query does not depend on the identities of its relations. -/
theorem Query.table_relabel {map : Relabelling} (hmap : map.KeepsShape) {q : Query}
    (h : q.WellFormed)
    (hinj : ∀ r ∈ q.source.visible, ∀ s ∈ q.source.visible, map.image r = map.image s → r = s) :
    (q.relabel map).table S db = q.table S db :=
  (h.relabelled_relabel hmap hinj).table h

/-- A merge of two plans is a nested loop over their tables, on the key columns that the options ask
for. -/
theorem Plan.table_merge (S : Scalars α) (db : Database α) {p r : Plan} {q : Query}
    {options : MergeOptions} {next next' : Nat} (hp : p.query.WellFormed)
    (hr : r.query.WellFormed) (hpid : p.IdsBelow next) (hrid : r.IdsBelow next)
    (hq : p.merge r options next = .ok (q, next')) :
    ∃ kind leftNames rightNames, options.kind = .ok kind ∧
      options.keys p.names r.names = .ok (leftNames, rightNames) ∧
      q.table S db = (p.query.table S db).loop S (r.query.table S db)
        (r.opened.selection.project S (Env.blank S)) kind (leftNames.zip rightNames) := by
  obtain ⟨kind, leftNames, rightNames, keys, hkind, hnames, hkeys, rfl, _⟩ := merge_eq_ok.mp hq
  rw [names_opened, names_opened] at hnames
  have hplain : (p.rebased r next).selection.IsPlain :=
    ⟨r.isPlain_opened.distinct, r.isPlain_opened.limit, r.isPlain_opened.offset⟩
  have hjoin : p.opened.Joinable (p.rebased r next) (leftNames.zip rightNames) keys :=
    ⟨hp.opened, hrid.wellFormed_rebased hr, p.isPlain_opened, hplain, hpid.disjoint_rebased, hkeys⟩
  have hright : (p.rebased r next).table S db = r.opened.table S db :=
    Query.table_relabel (Query.keepsShape_freshRelations _ _) hr.opened fun a ha b hb h =>
      Query.image_freshRelations_inj (hrid.opened a ha) (hrid.opened b hb) h
  refine ⟨kind, leftNames, rightNames, hkind, hnames, ?_⟩
  rw [hjoin.table_joinOn, hright, table_opened hp, table_opened hr, project_rebased]

end LazyFrame
