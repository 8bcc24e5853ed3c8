import LazyFrame.Proofs.Rows.Table

/-!
# Operations on one plan, on its rows

Every operation on a plan does to its table what it says: `Plan.table_project` …
`Plan.table_slice?`. A change of the outputs is a function of the rows, since each new output is a
function of the old ones (`Query.table_withOutputs`); a filter acts on the rows because the
conjunction of two predicates is true when both are; DISTINCT and a window are put on a query that
has no window yet.
-/

namespace LazyFrame

variable {α : Type} {S : Scalars α} {db : Database α}

/-! ## Columns -/

section Columns

variable [DecidableEq α]

/-- A query with other outputs that are computed one row from one old row. -/
theorem Query.table_withOutputs {q : Query} (hplain : q.selection.IsPlain)
    (hscalar : q.selection.isAggregate = false) {outputs : List Output}
    (hnew : (q.withOutputs outputs).selection.isAggregate = false) {names : List String}
    {f : List α → List α} (hnames : outputs.map (·.name) = names)
    (hf : ∀ env, outputs.map (fun o => o.expr.value S env) = f (q.selection.project S env)) :
    (q.withOutputs outputs).table S db = (q.table S db).mapRows names f := by
  have hplain' : (q.withOutputs outputs).selection.IsPlain :=
    ⟨hplain.distinct, hplain.limit, hplain.offset⟩
  have hproject : (q.withOutputs outputs).selection.project S = fun env =>
      f (q.selection.project S env) :=
    funext hf
  rw [table_of_isPlain hplain' hnew, table_of_isPlain hplain hscalar, Table.mapRows,
    hproject, List.map_map]
  exact congrArg (Table.mk · _) hnames

namespace Plan

variable {p : Plan} {q : Query}

/-- New outputs on an opened plan, each of them a function of its name and of the old row. -/
theorem table_withOutputs (h : p.query.WellFormed) {outputs : List Output}
    (hq : (p.opened.withOutputs outputs).WellFormed) {names : List String}
    (hnames : outputs.map (·.name) = names) {f : List α → String → α}
    (hf : ∀ o ∈ outputs, ∀ env, o.expr.value S env = f (p.opened.selection.project S env) o.name) :
    (p.opened.withOutputs outputs).table S db = (p.query.table S db).mapRows names fun row =>
      names.map (f row) := by
  rw [← table_opened h]
  refine Query.table_withOutputs p.isPlain_opened h.opened.selection.isAggregate
    hq.selection.isAggregate hnames fun env => ?_
  rw [← hnames, List.map_map]
  exact List.map_congr_left fun o ho => hf o ho env

/-- What is found under a name has the cell of that name for its value. -/
theorem value_of_lookup {name : String} {e : Expr} (h : p.opened.lookup name = .ok e)
    (env : Env α) :
    e.value S env = (p.query.table S db).cell S (p.opened.selection.project S env) name := by
  rw [Table.cell, Query.table, ← Plan.names, ← names_opened]
  exact (Selection.cell_project h env).symm

/-- An output of the opened plan has the cell of its name for its value. -/
theorem value_of_mem (h : p.query.WellFormed) {o : Output} (ho : o ∈ p.opened.selection.outputs)
    (env : Env α) :
    o.expr.value S env = (p.query.table S db).cell S (p.opened.selection.project S env) o.name := by
  rw [Table.cell, Query.table, ← Plan.names, ← names_opened]
  exact (cell_of_mem h.opened.selection.names_nodup ho fun o => o.expr.value S env).symm

/-- Selecting columns selects them of the table. -/
theorem table_project (h : p.query.WellFormed) {names : List String}
    (hq : p.project names = .ok q) : q.table S db = (p.query.table S db).select S names := by
  have hwf := h.project hq
  obtain ⟨_, _, outputs, houtputs, rfl⟩ := project_eq_ok.mp hq
  refine table_withOutputs h hwf (names_projected houtputs) fun o ho env => ?_
  obtain ⟨name, _, hlookup, rfl⟩ := Attempt.exists_of_mem_right houtputs ho
  exact value_of_lookup hlookup env

/-- Among distinct names, setting an output leaves only the others in place. -/
theorem mem_setOutput_of_nodup {output : Output} {outputs : List Output}
    (hnodup : (outputs.map (·.name)).Nodup) {o : Output} (ho : o ∈ setOutput output outputs) :
    o = output ∨ o ∈ outputs ∧ o.name ≠ output.name := by
  induction outputs with
  | nil => exact Or.inl (List.mem_singleton.mp ho)
  | cons first rest ih =>
    obtain ⟨hfirst, hrest⟩ := List.nodup_cons.mp hnodup
    unfold setOutput at ho
    by_cases hname : first.name = output.name
    · rw [if_pos (by simpa using hname)] at ho
      rcases List.mem_cons.mp ho with rfl | ho
      · exact Or.inl rfl
      · -- the output in the old place was the only one of its name
        refine Or.inr ⟨List.mem_cons_of_mem _ ho, fun heq => hfirst ?_⟩
        show first.name ∈ rest.map (·.name)
        rw [hname, ← heq]
        exact List.mem_map_of_mem ho
    · rw [if_neg (by simpa using hname)] at ho
      rcases List.mem_cons.mp ho with rfl | ho
      · exact Or.inr ⟨List.mem_cons_self .., hname⟩
      · exact (ih hrest ho).imp_right (And.imp_left (List.mem_cons_of_mem _))

/-- Assigning keeps the columns and adds one if there is none of that name. -/
theorem names_assign {name : String} {e : Expr} (hq : p.assign name e = .ok q) :
    q.names = if name ∈ p.names then p.names else p.names ++ [name] := by
  obtain ⟨_, _, rfl⟩ := assign_eq_ok.mp hq
  rw [← names_opened]
  exact Query.WellFormed.names_setOutput _ _

/-- An output that was set has the value of its expression, and the others have the one they had. -/
theorem value_of_mem_setOutput (h : p.query.WellFormed) {name : String} {e : Expr} {o : Output}
    (ho : o ∈ setOutput ⟨name, e⟩ p.opened.selection.outputs) (env : Env α) :
    o.expr.value S env = if o.name = name then e.value S env
      else (p.query.table S db).cell S (p.opened.selection.project S env) o.name := by
  rcases mem_setOutput_of_nodup h.opened.selection.names_nodup ho with rfl | ⟨hmem, hne⟩
  · rw [if_pos rfl]
  · rw [if_neg hne]
    exact value_of_mem h hmem env

/-- Assigning assigns to the table what the expression means of its rows. -/
theorem table_assign (h : p.query.WellFormed) {name : String} {e : Expr}
    (hq : p.assign name e = .ok q) {f : List α → α}
    (hf : ∀ env, e.value S env = f (p.opened.selection.project S env)) :
    q.table S db = (p.query.table S db).assign S name f := by
  have hwf := h.assign hq
  have hnames := names_assign hq
  obtain ⟨_, _, rfl⟩ := assign_eq_ok.mp hq
  refine table_withOutputs h hwf hnames fun o ho env => ?_
  rw [← hf env]
  exact value_of_mem_setOutput h ho env

/-- The rows of an assignment, each from the source row that the old row was computed on. -/
theorem rows_assign (h : p.query.WellFormed) {name : String} {e : Expr}
    (hq : p.assign name e = .ok q) :
    q.rows S db = (p.opened.kept S db).map fun env => q.names.map fun other =>
      if other = name then e.value S env
      else (p.query.table S db).cell S (p.opened.selection.project S env) other := by
  have hwf := h.assign hq
  obtain ⟨_, _, rfl⟩ := assign_eq_ok.mp hq
  have hplain :
      (p.opened.withOutputs (setOutput ⟨name, e⟩ p.opened.selection.outputs)).selection.IsPlain :=
    ⟨p.isPlain_opened.distinct, p.isPlain_opened.limit, p.isPlain_opened.offset⟩
  have htable : Query.table S db _ = _ := Query.table_of_isPlain hplain hwf.selection.isAggregate
  refine (congrArg Table.rows htable).trans (List.map_congr_left fun env _ => ?_)
  rw [Query.names, Selection.names, List.map_map]
  exact List.map_congr_left fun o ho => value_of_mem_setOutput h ho env

/-- Renaming renames the columns of the table. -/
theorem table_rename (h : p.query.WellFormed) {mapping : List (String × String)}
    (hq : p.rename mapping = .ok q) : q.table S db = (p.query.table S db).rename mapping := by
  have hwf := h.rename hq
  obtain ⟨_, _, rfl⟩ := rename_eq_ok.mp hq
  have hnames := names_renamedOutputs mapping p.opened.selection.outputs
  have hsame :
      ∀ env : Env α, (renamedOutputs mapping p.opened.selection.outputs).map
        (fun o => o.expr.value S env) =
      p.opened.selection.project S env := fun env => by simp [renamedOutputs, Selection.project]
  have htable : Query.table S db _ = (p.opened.table S db).mapRows _ fun row => row :=
    Query.table_withOutputs p.isPlain_opened h.opened.selection.isAggregate
      hwf.selection.isAggregate hnames hsame
  rw [htable, table_opened h, Table.mapRows, Table.rename, List.map_id']
  exact congrArg (Table.mk · _) (congrArg (List.map _) (names_opened p))

/-- Leaving columns out leaves them out of the table. -/
theorem table_drop (h : p.query.WellFormed) {names : List String} (hq : p.drop names = .ok q) :
    q.table S db = (p.query.table S db).drop S names := by
  have hwf := h.drop hq
  obtain ⟨_, _, rfl⟩ := drop_eq_ok.mp hq
  have hnames : (remainingOutputs names p.opened.selection.outputs).map (·.name) =
      p.names.filter fun name => !names.contains name := by
    rw [← names_opened, remainingOutputs, Query.names, Selection.names, List.filter_map]
    rfl
  refine table_withOutputs h hwf hnames fun o ho env => ?_
  exact value_of_mem h (List.mem_filter.mp ho).1 env

end Plan

end Columns

/-! ## Rows -/

section Rows

variable [DecidableEq α]

/-- No row stands twice once duplicates are gone. -/
theorem nodup_eraseDups (rows : List (List α)) : rows.eraseDups.Nodup := by
  induction h : rows.length using Nat.strongRecOn generalizing rows with
  | ind n ih =>
    cases rows with
    | nil => exact List.nodup_nil
    | cons row rest =>
      -- the equal rows behind it are gone before the recursion, so it is on a shorter list
      have hle : (rest.filter fun other => !other == row).length ≤ rest.length :=
        List.length_filter_le _ _
      have hlt : (rest.filter fun other => !other == row).length < n := by
        rw [List.length_cons] at h
        omega
      rw [List.eraseDups_cons, List.nodup_cons]
      refine ⟨fun hmem => ?_, ih _ hlt _ rfl⟩
      have hne := (List.mem_filter.mp (List.mem_eraseDups.mp hmem)).2
      simp at hne

/-- Rows without duplicates stay as they are. -/
theorem eraseDups_of_nodup {rows : List (List α)} (h : rows.Nodup) : rows.eraseDups = rows := by
  induction rows with
  | nil => rfl
  | cons row rest ih =>
    obtain ⟨hrow, hrest⟩ := List.nodup_cons.mp h
    have hkeep : (rest.filter fun other => !other == row) = rest := by
      refine List.filter_eq_self.mpr fun other hother => ?_
      have hne : other ≠ row := fun heq => hrow (heq ▸ hother)
      simp [hne]
    rw [List.eraseDups_cons, hkeep, ih hrest]

/-- Duplicates go once and for all. -/
theorem eraseDups_eraseDups (rows : List (List α)) : rows.eraseDups.eraseDups = rows.eraseDups :=
  eraseDups_of_nodup (nodup_eraseDups rows)

namespace Plan

variable {p : Plan} {q : Query}

/-- The rows of a plan are its outputs on the source rows that it keeps once it is opened. -/
theorem rows_eq_kept (h : p.query.WellFormed) :
    p.query.rows S db = (p.opened.kept S db).map (p.opened.selection.project S) := by
  have hopened : (p.opened.table S db).rows = (p.query.table S db).rows :=
    congrArg Table.rows (table_opened h)
  rw [Query.table_of_isPlain p.isPlain_opened h.opened.selection.isAggregate] at hopened
  exact hopened.symm

/-- A filter keeps some of the rows that were kept. -/
theorem kept_filter {e : Expr} (hq : p.filter e = .ok q) :
    q.kept S db = (p.opened.kept S db).filter fun env => S.isTrue (e.value S env) := by
  obtain ⟨_, _, rfl⟩ := filter_eq_ok.mp hq
  rw [Query.kept, Query.kept, List.filter_filter]
  refine List.filter_congr fun env _ => ?_
  rw [Bool.and_comm]
  exact Expr.all_conjoin env _ _

/-- A filter drops source rows and leaves the outputs alone. -/
theorem table_filter_kept (h : p.query.WellFormed) {e : Expr} (hq : p.filter e = .ok q) :
    q.table S db = { p.query.table S db with
      rows := ((p.opened.kept S db).filter fun env => S.isTrue (e.value S env)).map
        (p.opened.selection.project S) } := by
  have hwf := h.filter hq
  have hkept : q.kept S db = _ := kept_filter hq
  obtain ⟨_, _, rfl⟩ := filter_eq_ok.mp hq
  have hplain : Selection.IsPlain
      { p.opened.selection with filter? := Expr.conjoin p.opened.selection.filter? (some e) } :=
    ⟨p.isPlain_opened.distinct, p.isPlain_opened.limit, p.isPlain_opened.offset⟩
  rw [Query.table_of_isPlain hplain hwf.selection.isAggregate, hkept, ← table_opened h,
    Query.table_of_isPlain p.isPlain_opened h.opened.selection.isAggregate]
  rfl

/-- A filter keeps the rows of the table for which it is true. -/
theorem table_filter (h : p.query.WellFormed) {e : Expr} (hq : p.filter e = .ok q)
    {f : List α → α} (hf : ∀ env, e.value S env = f (p.opened.selection.project S env)) :
    q.table S db = (p.query.table S db).filter S f := by
  have hrows : (p.query.table S db).rows =
      (p.opened.kept S db).map (p.opened.selection.project S) := rows_eq_kept h
  rw [table_filter_kept h hq, Table.filter, hrows, List.filter_map]
  simp only [Function.comp_def, hf]

/-- A plan without a window is the plan itself or the opened one. -/
theorem table_unwindowed (h : p.query.WellFormed) :
    p.unwindowed.table S db = p.query.table S db := by
  unfold unwindowed
  split
  · exact table_opened h
  · rfl

end Plan

/-- DISTINCT on rows without a window takes their duplicates out. -/
theorem Query.rows_distinct {q : Query} (hscalar : q.selection.isAggregate = false)
    (hwindowed : q.selection.isWindowed = false) :
    Query.rows S db { q with selection := { q.selection with distinct := true } } =
      (q.rows S db).eraseDups := by
  have hnew : Query.rows S db { q with selection := { q.selection with distinct := true } } =
      ((q.kept S db).map (q.selection.project S)).eraseDups :=
    (rows_of_scalar (q := { q with selection := { q.selection with distinct := true } })
      hscalar).trans (Selection.window_of_not hwindowed _)
  rw [hnew, rows_of_scalar hscalar, Selection.window_of_not hwindowed]
  split
  · exact (eraseDups_eraseDups _).symm
  · rfl

/-- A window on rows without one cuts them. -/
theorem Query.rows_window {q : Query} (hscalar : q.selection.isAggregate = false)
    (hwindowed : q.selection.isWindowed = false) (w : Window) :
    Query.rows S db
      { q with selection := { q.selection with limit? := w.limit?, offset? := w.offset? } } =
      Selection.window { q.selection with limit? := w.limit?, offset? := w.offset? }
        (q.rows S db) := by
  have hold : q.rows S db = _ := rows_of_scalar hscalar
  rw [Selection.window_of_not hwindowed] at hold
  rw [hold]
  exact rows_of_scalar
    (q := { q with selection := { q.selection with limit? := w.limit?, offset? := w.offset? } })
    hscalar

/-- The window of a plan cuts the rows from its start on and before its stop. -/
theorem Selection.window_eq_slice {s : Selection} {w : Window} (hlimit : s.limit? = w.limit?)
    (hoffset : s.offset? = w.offset?)
    (hexact : ∀ stop ∈ w.stop?, (stop.sub w.start).count = stop.count - w.start.count)
    {β : Type} (rows : List β) :
    s.window rows = (match w.stop?.map Number.count with
      | some stop => rows.take stop
      | none => rows).drop w.start.count := by
  -- no offset is written for a start that skips nothing
  have hskip : (w.offset?.bind Bound.count?).getD 0 = w.start.count := by
    unfold Window.offset?
    split
    · rfl
    · rename_i h
      exact (Number.count_of_not_pos (Bool.eq_false_iff.mpr h)).symm
  unfold window
  rw [hlimit, hoffset, hskip, Window.limit?]
  cases hstop : w.stop? with
  | none => rfl
  | some stop =>
    show (rows.drop w.start.count).take (stop.sub w.start).count =
      (rows.take stop.count).drop w.start.count
    -- the limit counts from the start, the stop from the first row
    rw [hexact stop hstop, List.drop_take]

namespace Plan

variable {p : Plan} {q : Query}

/-- DISTINCT takes the duplicates out of the table. -/
theorem table_distinct? (h : p.query.WellFormed) :
    (p.distinct?.getD p.query).table S db = (p.query.table S db).distinct := by
  cases hq : p.distinct? with
  | some q =>
    obtain ⟨_, rfl⟩ := distinct?_eq_some.mp hq
    have hrows : Query.rows S db _ = (p.unwindowed.rows S db).eraseDups :=
      Query.rows_distinct h.unwindowed.selection.isAggregate (isWindowed_unwindowed p)
    rw [← table_unwindowed h]
    exact congrArg (Table.mk _) hrows
  | none =>
    obtain ⟨hdistinct, hwindowed⟩ := distinct?_eq_none.mp hq
    have hrows : (p.query.rows S db).eraseDups = p.query.rows S db := by
      rw [Query.rows_of_scalar h.selection.isAggregate, Selection.window_of_not hwindowed,
        if_pos hdistinct]
      exact eraseDups_eraseDups _
    exact congrArg (Table.mk _) hrows.symm

/-- A slice keeps the columns. -/
theorem names_slice? (p : Plan) (w : Window) : ((p.slice? w).getD p.query).names = p.names := by
  cases hq : p.slice? w with
  | some q =>
    obtain ⟨_, rfl⟩ := slice?_eq_some.mp hq
    show p.unwindowed.names = _
    unfold unwindowed
    split
    · exact p.names_opened
    · rfl
  | none => rfl

/-- A slice of a plan is a slice of its table; a window that leaves out no row is not put on a
plan. -/
theorem table_slice? (h : p.query.WellFormed) {w : Window}
    (hexact : ∀ stop ∈ w.stop?, (stop.sub w.start).count = stop.count - w.start.count) :
    ((p.slice? w).getD p.query).table S db =
      (p.query.table S db).slice w.start.count (w.stop?.map Number.count) := by
  cases hq : p.slice? w with
  | some q =>
    obtain ⟨_, rfl⟩ := slice?_eq_some.mp hq
    have hrows : Query.rows S db _ = Selection.window _ (p.unwindowed.rows S db) :=
      Query.rows_window h.unwindowed.selection.isAggregate (isWindowed_unwindowed p) w
    rw [← table_unwindowed h]
    exact congrArg (Table.mk _) (hrows.trans (Selection.window_eq_slice rfl rfl hexact _))
  | none =>
    have hwhole := slice?_eq_none.mp hq
    rw [Window.isWhole, Bool.and_eq_true, Bool.not_eq_true', Option.isNone_iff_eq_none] at hwhole
    unfold Table.slice
    rw [hwhole.2, Number.count_of_not_pos hwhole.1]
    rfl

end Plan

end Rows

end LazyFrame
