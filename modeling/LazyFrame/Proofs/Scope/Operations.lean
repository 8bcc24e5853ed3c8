import LazyFrame.Proofs.Scope.WellFormed

/-!
# What the operations on plans do

Each operation is told once by an inversion: what it checks, and which query it gives when the
checks are passed (`project_eq_ok` … `slice?_eq_some`, `merge_eq_ok`). Everything that is proved
about the operations starts from these and does not look into them again.
-/

namespace LazyFrame

/-! ## Names -/

theorem firstRepeated_eq_none {seen names : List String} :
    firstRepeated seen names = none ↔ names.Nodup ∧ ∀ name ∈ names, name ∉ seen := by
  induction names generalizing seen with
  | nil => simp [firstRepeated]
  | cons name rest ih =>
    unfold firstRepeated
    by_cases h : name ∈ seen
    · simp [h]
    · -- what is seen grows by the first name, so the rest has to avoid that one too
      rw [if_neg (by simpa using h), ih, List.nodup_cons]
      constructor
      · intro hboth
        obtain ⟨hrest, hfresh⟩ := hboth
        refine ⟨⟨fun hmem => hfresh name hmem (List.mem_cons_self ..), hrest⟩,
          fun other hother => ?_⟩
        rcases List.mem_cons.mp hother with rfl | hother
        · exact h
        · exact fun hseen => hfresh other hother (List.mem_cons_of_mem _ hseen)
      · intro hboth
        obtain ⟨⟨hname, hrest⟩, hfresh⟩ := hboth
        refine ⟨hrest, fun other hother hseen => ?_⟩
        rcases List.mem_cons.mp hseen with rfl | hseen
        · exact hname hother
        · exact hfresh other (List.mem_cons_of_mem _ hother) hseen

/-- Names pass the check exactly if none stands twice. -/
theorem checkUnique_eq_ok {names : List String} : checkUnique names = .ok () ↔ names.Nodup := by
  unfold checkUnique
  cases h : firstRepeated [] names with
  | none => simpa using (firstRepeated_eq_none.mp h).1
  | some name =>
    constructor
    · intro hok
      cases hok
    · intro hnodup
      rw [firstRepeated_eq_none.mpr ⟨hnodup, by simp⟩] at h
      cases h

namespace Query

/-- A column stands for the expression of the first output of its name. -/
theorem find?_of_lookup {q : Query} {name : String} {e : Expr} (h : q.lookup name = .ok e) :
    ∃ o, q.selection.outputs.find? (·.name == name) = some o ∧ o.expr = e := by
  unfold lookup at h
  cases ho : q.selection.outputs.find? (·.name == name) with
  | none =>
    rw [ho] at h
    cases h
  | some o =>
    rw [ho] at h
    cases h
    exact ⟨o, rfl, rfl⟩

/-- What is found under a name is the expression of an output of that name. -/
theorem lookup_eq_ok {q : Query} {name : String} {e : Expr} (h : q.lookup name = .ok e) :
    ∃ o ∈ q.selection.outputs, o.name = name ∧ o.expr = e := by
  obtain ⟨o, ho, he⟩ := find?_of_lookup h
  exact ⟨o, List.mem_of_find?_eq_some ho, by simpa using List.find?_some ho, he⟩

/-- A name that is there is found. -/
theorem exists_lookup {q : Query} {name : String} (h : name ∈ q.names) :
    ∃ e, q.lookup name = .ok e := by
  obtain ⟨o, ho, hname⟩ := List.mem_map.mp h
  cases hfound : q.selection.outputs.find? (·.name == name) with
  | none => exact absurd (List.find?_eq_none.mp hfound o ho) (by simp [hname])
  | some found => exact ⟨found.expr, by simp only [lookup, hfound]⟩

/-- A name is found exactly if it is there. -/
theorem exists_lookup_iff {q : Query} {name : String} :
    (∃ e, q.lookup name = .ok e) ↔ name ∈ q.names := by
  constructor
  · intro h
    obtain ⟨e, he⟩ := h
    obtain ⟨o, ho, hname, _⟩ := lookup_eq_ok he
    exact List.mem_map.mpr ⟨o, ho, hname⟩
  · exact exists_lookup

/-- A join has the outputs of the left side, and those of the right side under new names. -/
theorem outputs_joinOn (left right : Query) (kind : JoinKind) (keys : List JoinKey) :
    (left.joinOn right kind keys).selection.outputs = left.selection.outputs ++
      right.selection.outputs.filter fun output => !left.names.contains output.name := by
  cases kind with
  | inner | left => rfl

/-- The names of the left side, and those of the right side that are not among them. -/
theorem names_joinOn (left right : Query) (kind : JoinKind) (keys : List JoinKey) :
    (left.joinOn right kind keys).names = left.names ++ right.names.filter fun name =>
      !left.names.contains name := by
  cases kind with
  | inner | left =>
    simp [joinOn, names, Selection.names, Selection.plain, List.filter_map, Function.comp_def]

/-- The names of a join are distinct if those of its sides are. -/
theorem nodup_names_joinOn {left right : Query} (hl : left.names.Nodup) (hr : right.names.Nodup)
    (kind : JoinKind) (keys : List JoinKey) : (left.joinOn right kind keys).names.Nodup := by
  rw [names_joinOn, List.nodup_append]
  refine ⟨hl, hr.filter _, fun name hleft other hright heq => ?_⟩
  have hnew : other ∉ left.names := by simpa using (List.mem_filter.mp hright).2
  exact hnew (heq ▸ hleft)

/-- A join reads the source of the left query with another one on its right. -/
theorem exists_source_joinOn (left right : Query) (kind : JoinKind)
    (keys : List JoinKey) : ∃ condition?,
    (left.joinOn right kind keys).source = .join left.source right.source kind keys condition? := by
  cases kind with
  | inner => exact ⟨none, rfl⟩
  | left => exact ⟨right.selection.filter?, rfl⟩

end Query

/-! ## Inversions -/

namespace Plan

variable {p : Plan} {q : Query}

/-- A relation passes on all of its columns. -/
theorem names_passThrough (r : Relation) : (Query.passThrough r).map (·.name) = r.columns := by
  rw [Query.passThrough, List.map_map]
  exact List.map_id _

/-- Opening a plan keeps its columns. -/
theorem names_opened (p : Plan) : p.opened.names = p.names := by
  unfold opened
  split
  · exact names_passThrough p.relation
  · rfl

/-- An opened plan is not sealed. -/
theorem isSealed_opened (p : Plan) : p.opened.selection.isSealed = false := by
  unfold opened
  split
  · rfl
  · rename_i h
    exact Bool.eq_false_iff.mpr h

/-- An opened plan has no window. -/
theorem isWindowed_opened (p : Plan) : p.opened.selection.isWindowed = false := by
  have h := p.isSealed_opened
  rw [Selection.isSealed, Bool.or_eq_false_iff] at h
  exact h.2

/-- A plan that is opened for the sake of its window has none. -/
theorem isWindowed_unwindowed (p : Plan) : p.unwindowed.selection.isWindowed = false := by
  unfold unwindowed
  split
  · exact p.isWindowed_opened
  · rename_i h
    exact Bool.eq_false_iff.mpr h

/-- A selection of columns succeeds exactly if there are some, none twice, and all are found; it
gives the outputs found. -/
theorem project_eq_ok {names : List String} :
    p.project names = .ok q ↔ names ≠ [] ∧ names.Nodup ∧
      ∃ outputs, List.Forall₂ (fun name o => p.opened.lookup name = .ok o.expr ∧
        o.name = name) names outputs ∧ q = p.opened.withOutputs outputs := by
  -- the outputs are looked up one by one
  have hmap {outputs : List Output} :
      names.mapM
        (fun name => p.opened.lookup name >>= fun expr => Except.ok (Output.mk name expr)) =
        .ok outputs ↔
        List.Forall₂ (fun name o => p.opened.lookup name = .ok o.expr ∧
          o.name = name) names outputs := by
    rw [Attempt.mapM_eq_ok]
    refine iff_of_eq (congrArg (fun R => List.Forall₂ R names outputs) ?_)
    funext name o
    refine propext (Attempt.bind_eq_ok.trans ⟨?_, ?_⟩)
    · intro h
      obtain ⟨e, he, ho⟩ := h
      cases ho
      exact ⟨he, rfl⟩
    · intro h
      obtain ⟨he, rfl⟩ := h
      exact ⟨o.expr, he, rfl⟩
  unfold project
  simp only [Attempt.error_bind, Attempt.guard_eq_ok, Attempt.check_bind_eq_ok,
    checkUnique_eq_ok, hmap, Attempt.bind_eq_ok (α := List Output), Except.ok.injEq,
    List.isEmpty_iff, eq_comm (b := q)]

/-- A selection has the names that were asked for. -/
theorem names_projected {base : Query} {names : List String} {outputs : List Output}
    (h : List.Forall₂ (fun name o => base.lookup name = .ok o.expr ∧ o.name = name) names outputs) :
    outputs.map (·.name) = names := by
  induction h with
  | nil => rfl
  | cons hfirst _ ih => rw [List.map_cons, ih, hfirst.2]

/-- An assignment succeeds exactly if the expression passes the check and aggregates nothing; it
sets one output. -/
theorem assign_eq_ok {name : String} {e : Expr} :
    p.assign name e = .ok q ↔ p.opened.checkScope e = .ok () ∧ e.hasAggregate = false ∧
      q = p.opened.withOutputs (setOutput ⟨name, e⟩ p.opened.selection.outputs) := by
  unfold assign
  simp only [Attempt.error_bind, Attempt.guard_eq_ok, Attempt.check_bind_eq_ok, Except.ok.injEq,
    Bool.not_eq_true, eq_comm (b := q)]

/-- The outputs under their new names. -/
def renamedOutputs (mapping : List (String × String)) (outputs : List Output) : List Output :=
  outputs.map fun output => { output with name := renamed mapping output.name }

/-- A renaming renames the outputs one by one. -/
theorem names_renamedOutputs (mapping : List (String × String)) (outputs : List Output) :
    (renamedOutputs mapping outputs).map (·.name) =
      (outputs.map (·.name)).map (renamed mapping) := by
  simp [renamedOutputs]

/-- A renaming succeeds exactly if its columns are there and no two outputs end with one name. -/
theorem rename_eq_ok {mapping : List (String × String)} :
    p.rename mapping = .ok q ↔ (∀ entry ∈ mapping, entry.1 ∈ p.opened.names) ∧
      (p.opened.names.map (renamed mapping)).Nodup ∧
      q = p.opened.withOutputs (renamedOutputs mapping p.opened.selection.outputs) := by
  have hnames : (renamedOutputs mapping p.opened.selection.outputs).map (·.name) =
      p.opened.names.map (renamed mapping) := names_renamedOutputs mapping _
  have hknown : (∀ entry ∈ mapping, (if p.opened.names.contains entry.1 then Except.ok ()
        else .error (.unknownColumn entry.1 (some .toRename)) : Attempt Unit) = .ok ()) ↔
      ∀ entry ∈ mapping, entry.1 ∈ p.opened.names := by
    refine forall₂_congr fun entry _ => ?_
    by_cases h : entry.1 ∈ p.opened.names
    · simp [h]
    · simp [h]
  unfold rename
  change ((mapping.forM _ >>= fun _ =>
    checkUnique ((renamedOutputs mapping p.opened.selection.outputs).map (·.name)) >>= fun _ =>
      .ok (p.opened.withOutputs (renamedOutputs mapping p.opened.selection.outputs))) = .ok q) ↔ _
  simp only [Attempt.check_bind_eq_ok, Attempt.forM_eq_ok, hknown, hnames, checkUnique_eq_ok,
    Except.ok.injEq, eq_comm (b := q)]

/-- The outputs that stay when some names are left out. -/
def remainingOutputs (names : List String) (outputs : List Output) : List Output :=
  outputs.filter fun output => !names.contains output.name

/-- Leaving columns out succeeds exactly if they are there and something is left. -/
theorem drop_eq_ok {names : List String} :
    p.drop names = .ok q ↔ (∀ name ∈ names, name ∈ p.opened.names) ∧
      remainingOutputs names p.opened.selection.outputs ≠ [] ∧
      q = p.opened.withOutputs (remainingOutputs names p.opened.selection.outputs) := by
  have hknown : (∀ name ∈ names, (if p.opened.names.contains name then Except.ok ()
        else .error (.unknownColumn name (some .toDrop)) : Attempt Unit) = .ok ()) ↔
      ∀ name ∈ names, name ∈ p.opened.names := by
    refine forall₂_congr fun name _ => ?_
    by_cases h : name ∈ p.opened.names
    · simp [h]
    · simp [h]
  unfold drop
  simp only [Attempt.error_bind, Attempt.guard_eq_ok, Attempt.check_bind_eq_ok,
    Attempt.forM_eq_ok, hknown, Except.ok.injEq, List.isEmpty_iff, eq_comm (b := q)]
  rfl

/-- A filter succeeds exactly if it passes the check and aggregates nothing; it is put together with
the one before. -/
theorem filter_eq_ok {e : Expr} :
    p.filter e = .ok q ↔ p.opened.checkScope e = .ok () ∧ e.hasAggregate = false ∧
      q = { p.opened with selection :=
        { p.opened.selection with filter? := Expr.conjoin p.opened.selection.filter? (some e) }
          } := by
  unfold filter
  simp only [Attempt.error_bind, Attempt.guard_eq_ok, Attempt.check_bind_eq_ok, Except.ok.injEq,
    Bool.not_eq_true, eq_comm (b := q)]

/-- DISTINCT makes a new query unless the rows are distinct already and no window has been cut from
them. -/
theorem distinct?_eq_some :
    p.distinct? = some q ↔
    (p.query.selection.distinct = false ∨ p.query.selection.isWindowed = true) ∧
      q = { p.unwindowed with selection := { p.unwindowed.selection with distinct := true } } := by
  unfold distinct?
  by_cases h : (p.query.selection.distinct && !p.query.selection.isWindowed) = true
  · simp_all
  · rw [if_neg h]
    simp only [Option.some.injEq]
    constructor
    · intro hq
      obtain rfl := hq
      refine ⟨?_, rfl⟩
      -- DISTINCT is skipped only where it stands already and no window follows
      cases hd : p.query.selection.distinct
      · exact Or.inl rfl
      · right
        simpa [hd] using h
    · intro hq
      obtain ⟨_, rfl⟩ := hq
      rfl

/-- DISTINCT makes no new query exactly if the rows are distinct already and no window has been cut
from them. -/
theorem distinct?_eq_none :
    p.distinct? = none ↔ p.query.selection.distinct = true ∧
    p.query.selection.isWindowed = false := by
  unfold distinct?
  split <;> simp_all

/-- A window makes a new query unless it is the whole. -/
theorem slice?_eq_some {w : Window} :
    p.slice? w = some q ↔ w.isWhole = false ∧
      q = { p.unwindowed with selection :=
        { p.unwindowed.selection with limit? := w.limit?, offset? := w.offset? } } := by
  unfold slice?
  cases w.isWhole with
  | true => simp
  | false => simp [eq_comm]

/-- A window makes no new query exactly if it is the whole. -/
theorem slice?_eq_none {w : Window} : p.slice? w = none ↔ w.isWhole = true := by
  unfold slice?
  cases w.isWhole with
  | true => simp
  | false => simp

/-- An aggregate reads one column of the opened plan. -/
theorem aggregate_eq_ok {fn : AggregateFn} {name : String} :
    p.aggregate fn name = .ok q ↔ ∃ operand, p.opened.lookup name = .ok operand ∧
      q = ⟨p.opened.source, .plain [⟨name, .aggregate fn operand⟩] p.opened.selection.filter?⟩ := by
  unfold aggregate
  simp only [Attempt.bind_eq_ok, Except.ok.injEq, eq_comm (b := q)]

/-- There is an aggregate of every column. -/
theorem exists_aggregate (fn : AggregateFn) {name : String} (h : name ∈ p.names) :
    ∃ q, p.aggregate fn name = .ok q := by
  rw [← names_opened] at h
  obtain ⟨operand, hoperand⟩ := Query.exists_lookup h
  exact ⟨_, aggregate_eq_ok.mpr ⟨operand, hoperand, rfl⟩⟩

/-- The right side of a merge: over relations that the left side does not read. -/
def rebased (p r : Plan) (next : Nat) : Query :=
  r.opened.relabel (Query.freshRelations next (p.opened.shared r.opened))

/-- The right side of a merge has the columns of the right plan. -/
theorem names_rebased (p r : Plan) (next : Nat) : (p.rebased r next).names = r.opened.names :=
  Query.names_relabel _ _

/-- A merge succeeds exactly if its kind and its keys are known and both columns of each key are
found; then it is a join. -/
theorem merge_eq_ok {r : Plan} {options : MergeOptions} {next next' : Nat} :
    p.merge r options next = .ok (q, next') ↔ ∃ kind leftNames rightNames keys,
      options.kind = .ok kind ∧ options.keys p.opened.names r.opened.names =
        .ok (leftNames, rightNames) ∧
      List.Forall₂ (fun names key => p.opened.lookup names.1 = .ok key.left ∧
        (p.rebased r next).lookup names.2 = .ok key.right) (leftNames.zip rightNames) keys ∧
      q = p.opened.joinOn (p.rebased r next) kind keys ∧
      next' = next + (p.opened.shared r.opened).length := by
  have hmap {pairs : List (String × String)} {keys : List JoinKey} :
      pairs.mapM (fun names => p.opened.lookup names.1 >>=
        fun l => (p.rebased r next).lookup names.2 >>= fun r =>
          Except.ok (JoinKey.mk l r)) = .ok keys ↔
        List.Forall₂ (fun names key => p.opened.lookup names.1 = .ok key.left ∧
          (p.rebased r next).lookup names.2 = .ok key.right) pairs keys := by
    rw [Attempt.mapM_eq_ok]
    refine iff_of_eq (congrArg (fun R => List.Forall₂ R pairs keys) ?_)
    funext names key
    simp only [Attempt.bind_eq_ok, Except.ok.injEq]
    refine propext ⟨?_, ?_⟩
    · intro h
      obtain ⟨l, hl, e, he, rfl⟩ := h
      exact ⟨hl, he⟩
    · intro h
      obtain ⟨hl, he⟩ := h
      exact ⟨key.left, hl, key.right, he, rfl⟩
  -- what is left are the checks in front of the keys, which the bind of the attempts spells out
  unfold merge
  simp only [Attempt.bind_eq_ok]
  constructor
  · intro h
    obtain ⟨kind, hkind, ⟨leftNames, rightNames⟩, hnames, keys, hkeys, h⟩ := h
    cases h
    exact ⟨kind, leftNames, rightNames, keys, hkind, hnames, hmap.mp hkeys, rfl, rfl⟩
  · intro h
    obtain ⟨kind, leftNames, rightNames, keys, hkind, hnames, hkeys, rfl, rfl⟩ := h
    exact ⟨kind, hkind, ⟨leftNames, rightNames⟩, hnames, keys, hmap.mpr hkeys, rfl⟩

end Plan

end LazyFrame
