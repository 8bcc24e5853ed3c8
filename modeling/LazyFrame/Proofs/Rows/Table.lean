import LazyFrame.Proofs.Rows.Reading
import LazyFrame.Proofs.Scope.Preservation

/-!
# Materialized tables

A table is a list of column names with a list of rows. The operations on frames have a plain meaning
on tables: they act on the columns and the rows that are there (`Table.select` … `Table.slice`), and
`Table.merge` is the nested loop over two tables, which puts NULL beside a left row that a left
merge keeps without a partner.

A query has such a table (`Query.table`). When nothing but a filter stands behind its outputs, the
rows are its outputs on the kept rows of the source (`Query.table_of_isPlain`), and the cell of a
column is the value of the expression behind it (`Selection.cell_project`). Opening a plan keeps its
table (`Plan.table_opened`): for a sealed plan because a subquery hands on its rows as they are.
-/

namespace LazyFrame

/-- Column names and rows. -/
structure Table (α : Type) where
  names : List String
  rows : List (List α)

variable {α : Type}

namespace Table

/-- The cell of a row in a column. -/
def cell (S : Scalars α) (t : Table α) (row : List α) (name : String) : α :=
  LazyFrame.cell S t.names row name

/-- The table whose rows are computed one from one. -/
def mapRows (t : Table α) (names : List String) (f : List α → List α) : Table α :=
  ⟨names, t.rows.map f⟩

/-- These columns, in this order. -/
def select (S : Scalars α) (t : Table α) (names : List String) : Table α :=
  t.mapRows names fun row => names.map (t.cell S row)

/-- A column of this name that holds what `f` makes of each row, in its old place or at the end. -/
def assign (S : Scalars α) (t : Table α) (name : String) (f : List α → α) : Table α :=
  let names := if name ∈ t.names then t.names else t.names ++ [name]
  t.mapRows names fun row =>
    names.map fun other => if other = name then f row else t.cell S row other

/-- The columns under their new names, all renamed at once. -/
def rename (t : Table α) (mapping : List (String × String)) : Table α :=
  { t with names := t.names.map fun name => (mapping.lookup name).getD name }

/-- All columns but these. -/
def drop (S : Scalars α) (t : Table α) (names : List String) : Table α :=
  t.select S (t.names.filter fun name => !names.contains name)

/-- The rows for which a predicate is true. -/
def filter (S : Scalars α) (t : Table α) (f : List α → α) : Table α :=
  { t with rows := t.rows.filter fun row => S.isTrue (f row) }

/-- The first of equal rows. -/
def distinct [DecidableEq α] (t : Table α) : Table α := { t with rows := t.rows.eraseDups }

/-- The rows from `start` on and before `stop?`. -/
def slice (t : Table α) (start : Nat) (stop? : Option Nat) : Table α :=
  let front := match stop? with
    | some stop => t.rows.take stop
    | none => t.rows
  { t with rows := front.drop start }

/-- Whether two rows agree on all pairs of key columns. -/
def agree (S : Scalars α) (t u : Table α) (keys : List (String × String)) (l r : List α) : Bool :=
  keys.all fun key => S.isTrue (S.binary .eq (t.cell S l key.1) (u.cell S r key.2))

/-- The columns of a right table whose names the left one does not have. -/
def restNames (t u : Table α) : List String := u.names.filter fun name => !t.names.contains name

/-- Two rows side by side. -/
def beside (S : Scalars α) (t u : Table α) (l r : List α) : List α :=
  l ++ (t.restNames u).map (u.cell S r)

/-- A left row beside NULL in all columns taken from the right. -/
def padded (S : Scalars α) (t u : Table α) (l : List α) : List α :=
  l ++ (t.restNames u).map fun _ => S.null

/-- A left row in a left join: beside each right row that agrees with it, or padded if there is
none. -/
def joined (S : Scalars α) (t u : Table α) (keys : List (String × String)) (l : List α) :
    List (List α) :=
  match u.rows.filter (t.agree S u keys l) with
  | [] => [t.padded S u l]
  | agreeing => agreeing.map (t.beside S u l)

/-- The rows of a left join. -/
def leftJoin (S : Scalars α) (t u : Table α) (keys : List (String × String)) : List (List α) :=
  t.rows.flatMap (t.joined S u keys)

/-- The equi-join of two tables: each left row beside the right rows that agree with it. -/
def equijoin (S : Scalars α) (t u : Table α) (keys : List (String × String)) : List (List α) :=
  t.rows.flatMap fun l => (u.rows.filter (t.agree S u keys l)).map (t.beside S u l)

/-- Two tables merged on pairs of key columns. -/
def merge (S : Scalars α) (t u : Table α) (kind : JoinKind)
    (keys : List (String × String)) : Table α :=
  ⟨t.names ++ t.restNames u,
    match kind with
    | .inner => t.equijoin S u keys
    | .left => t.leftJoin S u keys⟩

/-- The nested loop over two tables in which a row given for the purpose stands in for a right row
that is not there. -/
def loop (S : Scalars α) (t u : Table α) (standIn : List α) (kind : JoinKind)
    (keys : List (String × String)) : Table α :=
  ⟨t.names ++ t.restNames u,
    t.rows.flatMap fun l =>
      (kind.partners (u.rows.filter (t.agree S u keys l)) standIn).map (t.beside S u l)⟩

end Table

/-- The table of a query: its columns and its rows. -/
def Query.table [DecidableEq α] (S : Scalars α) (db : Database α) (q : Query) : Table α :=
  ⟨q.names, q.rows S db⟩

/-! ## Cells -/

section Cells

variable {S : Scalars α}

/-- The cell of an output is found under its name. -/
theorem cell_of_find {outputs : List Output} {name : String} {o : Output}
    (h : outputs.find? (·.name == name) = some o) (f : Output → α) :
    cell S (outputs.map (·.name)) (outputs.map f) name = f o := by
  induction outputs with
  | nil => cases h
  | cons first rest ih =>
    unfold cell at ih ⊢
    by_cases hfirst : first.name = name
    · subst hfirst
      have ho : first = o := by simpa using h
      simp [ho]
    · -- an output of another name is passed over, and so is its cell
      have hrest : rest.find? (·.name == name) = some o := by simpa [hfirst] using h
      have hne : (name == first.name) = false := beq_false_of_ne (Ne.symm hfirst)
      simpa [List.lookup_cons, hne] using ih hrest

/-- The cell of a column is the value of the expression behind it. -/
theorem Selection.cell_project {q : Query} {name : String} {e : Expr} (h : q.lookup name = .ok e)
    (env : Env α) : cell S q.names (q.selection.project S env) name = e.value S env := by
  obtain ⟨o, ho, rfl⟩ := Query.find?_of_lookup h
  exact cell_of_find ho fun o => o.expr.value S env

/-- Where names are distinct, it is found for every output. -/
theorem cell_of_mem {outputs : List Output} (hnodup : (outputs.map (·.name)).Nodup) {o : Output}
    (ho : o ∈ outputs) (f : Output → α) :
    cell S (outputs.map (·.name)) (outputs.map f) o.name = f o := by
  refine cell_of_find ?_ f
  cases hfound : outputs.find? (·.name == o.name) with
  | none => exact absurd (List.find?_eq_none.mp hfound o ho) (by simp)
  | some other =>
    have hmem := List.mem_of_find?_eq_some hfound
    have hname : other.name = o.name := by simpa using List.find?_some hfound
    rw [List.inj_on_of_nodup_map hnodup hmem ho hname]

/-- A row is made of the cells of its names. -/
theorem map_cell {names : List String} (hnodup : names.Nodup) {row : List α}
    (hlength : row.length = names.length) : names.map (cell S names row) = row := by
  induction names generalizing row with
  | nil => exact (List.length_eq_zero_iff.mp hlength).symm
  | cons name rest ih =>
    obtain ⟨hname, hrest⟩ := List.nodup_cons.mp hnodup
    cases row with
    | nil => cases hlength
    | cons first others =>
      have hothers : rest.map (cell S (name :: rest) (first :: others)) =
          rest.map (cell S rest others) := by
        refine List.map_congr_left fun other hother => ?_
        have hne : (other == name) = false := beq_false_of_ne fun h => hname (h ▸ hother)
        simp [cell, List.lookup_cons, hne]
      rw [List.map_cons, hothers, ih hrest (Nat.succ.inj hlength)]
      simp [cell]

end Cells

/-! ## Rows of a selection -/

namespace Selection

variable {S : Scalars α} {s : Selection}

/-- Neither DISTINCT nor a window. -/
structure IsPlain (s : Selection) : Prop where
  distinct : s.distinct = false
  limit : s.limit? = none
  offset : s.offset? = none

/-- A selection is plain exactly if it is not sealed. -/
theorem isPlain_iff : s.IsPlain ↔ s.isSealed = false := by
  unfold isSealed isWindowed
  constructor
  · intro h
    obtain ⟨hd, hl, ho⟩ := h
    rw [hd, hl, ho]
    rfl
  · intro h
    simp only [Bool.or_eq_false_iff, Option.isSome_eq_false_iff, Option.isNone_iff_eq_none] at h
    exact ⟨h.1, h.2.1, h.2.2⟩

/-- A well-formed selection aggregates nothing. -/
theorem WellFormed.isAggregate {relations : List Relation} (h : s.WellFormed relations) :
    s.isAggregate = false := by
  rw [Selection.isAggregate, List.any_eq_false]
  intro o ho
  rw [(h.outputs o ho).scalar]
  exact Bool.false_ne_true

/-- Whether a row is kept depends on the value of the filter only. -/
theorem keeps_congr {env env' : Env α} (h : ∀ e ∈ s.filter?, e.value S env = e.value S env') :
    s.keeps S env = s.keeps S env' := by
  unfold keeps
  cases hfilter : s.filter? with
  | none => rfl
  | some e => rw [Option.all_some, Option.all_some, h e hfilter]

/-- Without a window, all rows are there. -/
theorem window_of_not {β : Type} (h : s.isWindowed = false) (rows : List β) :
    s.window rows = rows := by
  simp only [isWindowed, Bool.or_eq_false_iff, Option.isSome_eq_false_iff,
    Option.isNone_iff_eq_none] at h
  simp [window, h.1, h.2]

/-- What is in the window was there before. -/
theorem mem_of_mem_window {β : Type} {rows : List β} {x : β} (h : x ∈ s.window rows) :
    x ∈ rows := by
  unfold window at h
  dsimp only at h
  split at h
  · exact List.mem_of_mem_drop (List.mem_of_mem_take h)
  · exact List.mem_of_mem_drop h

variable [DecidableEq α]

/-- The rows of a selection: its outputs on the kept rows, then DISTINCT, then the window. -/
theorem rows_of_scalar (h : s.isAggregate = false) (source : List (Env α)) :
    s.rows S source =
      s.window (if s.distinct then ((source.filter (s.keeps S)).map (s.project S)).eraseDups
      else (source.filter (s.keeps S)).map (s.project S)) := by
  rw [rows, h]
  rfl

/-- Every row has a cell for each output. -/
theorem length_of_mem_rows {source : List (Env α)} :
    ∀ row ∈ s.rows S source, row.length = s.names.length := by
  intro row hrow
  -- DISTINCT and the window only leave rows out
  have hall :
      ∀ row ∈ (if s.isAggregate then
          [s.outputs.map fun o => o.expr.overall S (source.filter (s.keeps S))]
        else (source.filter (s.keeps S)).map (s.project S)), row.length = s.names.length := by
    intro row hrow
    split at hrow
    · rw [List.mem_singleton.mp hrow, names, List.length_map, List.length_map]
    · obtain ⟨env, _, rfl⟩ := List.mem_map.mp hrow
      rw [project, names, List.length_map, List.length_map]
  have hmem := mem_of_mem_window hrow
  split at hmem
  · exact hall row (List.mem_eraseDups.mp hmem)
  · exact hall row hmem

/-- Two selections that keep and compute the same on two lists of rows have the same rows. -/
theorem rows_congr {β : Type} {s' : Selection} (hs : s.isAggregate = false)
    (hs' : s'.isAggregate = false) (hdistinct : s.distinct = s'.distinct)
    (hlimit : s.limit? = s'.limit?) (hoffset : s.offset? = s'.offset?) {source : List β}
    {f g : β → Env α} (hkeeps : ∀ b ∈ source, s.keeps S (f b) = s'.keeps S (g b))
    (hproject : ∀ b ∈ source, s.project S (f b) = s'.project S (g b)) :
    s.rows S (source.map f) = s'.rows S (source.map g) := by
  have hall : ((source.map f).filter (s.keeps S)).map (s.project S) =
      ((source.map g).filter (s'.keeps S)).map (s'.project S) := by
    have hkept : source.filter (s.keeps S ∘ f) = source.filter (s'.keeps S ∘ g) :=
      List.filter_congr hkeeps
    rw [List.filter_map, List.filter_map, List.map_map, List.map_map, hkept]
    exact List.map_congr_left fun b hb => hproject b (List.mem_filter.mp hb).1
  rw [rows_of_scalar hs, rows_of_scalar hs', hall, hdistinct]
  simp only [window, hlimit, hoffset]

/-- Under other identities a selection has the same rows over the same source. -/
theorem rows_under {ids : Relation → Nat} {rs : List Relation} (h : s.WellFormed rs)
    (hapart : Apart ids rs) {source : List (SourceRow α)}
    (hsource : ∀ row ∈ source, row.relations = rs) :
    (s.under ids).rows S ((source.map (SourceRow.under ids)).map (SourceRow.env S)) =
      s.rows S (source.map (SourceRow.env S)) := by
  rw [List.map_map]
  refine rows_congr (isAggregate_under.trans h.isAggregate) h.isAggregate rfl rfl rfl
    (fun row hrow => ?_) fun row hrow => ?_
  · exact keeps_under h (hsource row hrow) hapart
  · exact project_under h (hsource row hrow) hapart

end Selection

/-! ## Rows under other identities -/

section Identities

variable [DecidableEq α] {S : Scalars α} {db : Database α} {ids : Relation → Nat}

/-- Under other identities a source has the same rows up to the relations they name. A subquery
hands on its rows without them. -/
theorem Source.Relabelled.rows {s s' : Source} (h : s.Relabelled ids s') (hwf : s.WellFormed)
    (hapart : Apart ids s.visible) : s'.rows S db = (s.rows S db).map (SourceRow.under ids) := by
  induction h with
  | table id name columns =>
    rw [Source.rows, Source.rows, List.map_map]
    rfl
  | @derived ids inner source source' id selection hsource hinner ih =>
    obtain ⟨hsourcewf, _, hselection⟩ := hwf
    have hvisible : Apart inner source.visible :=
      hinner.mono (List.Subset.trans source.visible_subset_relations (List.subset_append_left ..))
    have hrelations : ∀ row ∈ source.rows S db, row.relations = source.visible :=
      Source.relations_rows
    have hrows := Selection.rows_under (S := S) hselection hvisible hrelations
    rw [Source.rows, ih hsourcewf hvisible, hrows, Source.rows, List.map_map, Selection.names_under]
    rfl
  | @join ids left left' right right' kind keys condition? hleft hright ihl ihr =>
    obtain ⟨hl, hr, hkeys, hcondition⟩ := hwf
    have hsubl : left.visible ⊆ left.visible ++ right.visible := List.subset_append_left ..
    have hsubr : right.visible ⊆ left.visible ++ right.visible := List.subset_append_right ..
    refine rows_join_map (ihl hl (hapart.mono hsubl)) (ihr hr (hapart.mono hsubr)) ?_
      SourceRow.under_append fun l hlrow r hrrow => ?_
    · rw [hright.visible, SourceRow.under_blank]
    · -- the pairs that match do so under either identities
      have hrelations : SourceRow.relations (l ++ r) = left.visible ++ right.visible := by
        rw [SourceRow.relations_append, Source.relations_rows l hlrow,
          Source.relations_rows r hrrow]
      exact JoinKey.allMatch_under hrelations hapart
        (fun key hkey =>
          ⟨((hkeys key hkey).left.mono hsubl).inScope, ((hkeys key hkey).right.mono hsubr).inScope⟩)
        fun e he => ((hcondition e he).mono hsubr).inScope

end Identities

/-! ## Tables of queries -/

section Tables

variable {S : Scalars α} {db : Database α} {q : Query}

/-- A relation passes on a row as it is. -/
theorem Query.project_passThrough {r : Relation} (hnodup : r.columns.Nodup) {row : List α}
    (hlength : row.length = r.columns.length) :
    (Selection.plain (passThrough r) none).project S (SourceRow.env S [(r, cell S r.columns row)]) =
      row := by
  have hread : SourceRow.env S [(r, cell S r.columns row)] r = cell S r.columns row := by
    funext name
    simp [SourceRow.env]
  have hcells : r.columns.map (SourceRow.env S [(r, cell S r.columns row)] r) = row := by
    rw [hread]
    exact map_cell hnodup hlength
  rw [Selection.project, Selection.plain, passThrough, List.map_map]
  exact hcells

variable [DecidableEq α]

/-- The rows of the source that a query keeps. -/
def Query.kept (S : Scalars α) (db : Database α) (q : Query) : List (Env α) :=
  ((q.source.rows S db).map (SourceRow.env S)).filter (q.selection.keeps S)

/-- The rows of a query: its outputs on the kept rows, then DISTINCT, then the window. -/
theorem Query.rows_of_scalar (h : q.selection.isAggregate = false) :
    q.rows S db = q.selection.window
      (if q.selection.distinct then ((q.kept S db).map (q.selection.project S)).eraseDups
        else (q.kept S db).map (q.selection.project S)) :=
  Selection.rows_of_scalar h _

/-- The table of a query without DISTINCT and window: its outputs on the rows it keeps. -/
theorem Query.table_of_isPlain (h : q.selection.IsPlain)
    (hscalar : q.selection.isAggregate = false) :
    q.table S db = ⟨q.names, (q.kept S db).map (q.selection.project S)⟩ := by
  have hrows : q.rows S db = (q.kept S db).map (q.selection.project S) := by
    have hwindowed : q.selection.isWindowed = false := by
      rw [Selection.isWindowed, h.limit, h.offset]; rfl
    rw [rows_of_scalar hscalar, Selection.window_of_not hwindowed, h.distinct]
    rfl
  rw [table, hrows]

/-- Queries that differ in identities only have the same table. -/
theorem Query.Relabelled.table {q' : Query} (h : q.Relabelled q') (hwf : q.WellFormed) :
    q'.table S db = q.table S db := by
  have hnames := h.names
  obtain ⟨ids, hsource, hselection, hapart⟩ := h
  have hvisible : Apart ids q.source.visible :=
    hapart.mono (List.Subset.trans q.source.visible_subset_relations (List.subset_append_left ..))
  have hrows : q'.rows S db = q.rows S db := by
    rw [rows, hselection, hsource.rows hwf.source hvisible]
    exact Selection.rows_under hwf.selection hvisible Source.relations_rows
  rw [Query.table, Query.table, hnames, hrows]

/-- A query of a whole table has its columns and its rows. -/
theorem Query.table_ofTable (id : Nat) (name : String) (columns : List String) :
    (Query.ofTable id name columns).table S db =
      ⟨columns, (db name).map fun cells => columns.map cells⟩ := by
  have hplain : (Query.ofTable id name columns).selection.IsPlain := ⟨rfl, rfl, rfl⟩
  have hscalar : (Query.ofTable id name columns).selection.isAggregate = false := by
    refine List.any_eq_false.mpr fun o ho => ?_
    obtain ⟨_, _, rfl⟩ := List.mem_map.mp ho
    exact Bool.false_ne_true
  have hproject : ∀ env : Env α, (Query.ofTable id name columns).selection.project S env =
      columns.map (env ⟨id, .table name, columns⟩) := fun env => List.map_map
  have hkept : (Query.ofTable id name columns).kept S db =
      (db name).map fun cells => SourceRow.env S [(⟨id, .table name, columns⟩, cells)] :=
    (List.filter_eq_self.mpr fun _ _ => rfl).trans List.map_map
  rw [table_of_isPlain hplain hscalar, hkept, List.map_map]
  refine congr_arg₂ Table.mk (Plan.names_passThrough _) (List.map_congr_left fun cells _ => ?_)
  rw [Function.comp_apply, hproject]
  refine List.map_congr_left fun column _ => ?_
  simp [SourceRow.env]

/-- An opened plan is plain. -/
theorem Plan.isPlain_opened (p : Plan) : p.opened.selection.IsPlain :=
  Selection.isPlain_iff.mpr p.isSealed_opened

/-- Opening a plan keeps its table. -/
theorem Plan.table_opened {p : Plan} (h : p.query.WellFormed) :
    p.opened.table S db = p.query.table S db := by
  by_cases hsealed : p.isSealed = true
  · have hnodup : p.relation.columns.Nodup := h.selection.names_nodup
    have hlength : ∀ row ∈ p.query.rows S db, row.length = p.relation.columns.length :=
      Selection.length_of_mem_rows
    have hopened : p.opened = ⟨p.asSource, .plain (Query.passThrough p.relation) none⟩ :=
      if_pos hsealed
    -- the subquery hands on its rows, and all columns of it are read back
    have hkept : p.opened.kept S db = (p.query.rows S db).map fun row =>
        SourceRow.env S [(p.relation, LazyFrame.cell S p.relation.columns row)] := by
      rw [Query.kept, hopened]
      refine (List.filter_eq_self.mpr fun _ _ => rfl).trans ?_
      rw [asSource, Source.rows, List.map_map]
      rfl
    have hrows : (p.opened.kept S db).map (p.opened.selection.project S) = p.query.rows S db := by
      rw [hkept, hopened, List.map_map]
      refine (List.map_congr_left fun row hrow => ?_).trans (List.map_id _)
      exact Query.project_passThrough hnodup (hlength row hrow)
    rw [Query.table_of_isPlain p.isPlain_opened h.opened.selection.isAggregate, names_opened, hrows]
    rfl
  · have hopened : p.opened = p.query := if_neg hsealed
    rw [hopened]

end Tables

end LazyFrame
