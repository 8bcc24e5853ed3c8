import LazyFrame.Catalog
import LazyFrame.Proofs.Scope.Preservation

/-!
# Sessions

A session is any history of operations over the tables of a catalog: it starts with no plan at
all, and every step makes one more plan, of a table or from plans that were made before. Old plans
stay, so they may be built upon again, and a merge may take any two of them, the same one twice
included. The identities are counted along: each plan gets the next one, and a merge first takes
those that the right side needs.

`Session.wellFormed` is the invariant of all sessions: every plan is well formed, and no identity
that is in use comes after the next one. `Step.wellFormed` is its single step.
-/

namespace LazyFrame

/-- All tables have columns, with distinct names. -/
def Catalog.WellFormed (c : Catalog) : Prop :=
  ∀ t ∈ c.tables, t.columnNames ≠ [] ∧ t.columnNames.Nodup

instance (c : Catalog) : Decidable c.WellFormed :=
  inferInstanceAs (Decidable (∀ t ∈ c.tables, t.columnNames ≠ [] ∧ t.columnNames.Nodup))

/-- A catalog of two tables that share a column. -/
def Catalog.music : Catalog :=
  ⟨0, .sqlite,
    [⟨0, "tracks", [.named "TrackId" "INTEGER", .named "AlbumId" "INTEGER", .named "Name" "TEXT"]⟩,
      ⟨1, "albums", [.named "AlbumId" "INTEGER", .named "Title" "TEXT"]⟩]⟩

theorem Catalog.wellFormed_music : Catalog.music.WellFormed := by
  decide

/-- A query made by one operation on plans, and the next identity after it. -/
inductive Step (plans : List Plan) (next : Nat) : Query → Nat → Prop where
  | project {p : Plan} {names : List String} {q : Query} (hp : p ∈ plans)
    (hq : p.project names = .ok q) :
    Step plans next q next
  | assign {p : Plan} {name : String} {e : Expr} {q : Query} (hp : p ∈ plans)
    (hq : p.assign name e = .ok q) :
    Step plans next q next
  | rename {p : Plan} {mapping : List (String × String)} {q : Query} (hp : p ∈ plans)
    (hq : p.rename mapping = .ok q) : Step plans next q next
  | drop {p : Plan} {names : List String} {q : Query} (hp : p ∈ plans) (hq : p.drop names = .ok q) :
    Step plans next q next
  | filter {p : Plan} {e : Expr} {q : Query} (hp : p ∈ plans) (hq : p.filter e = .ok q) :
    Step plans next q next
  | distinct {p : Plan} {q : Query} (hp : p ∈ plans) (hq : p.distinct? = some q) :
    Step plans next q next
  | slice {p : Plan} {start stop : Value} {w : Window} {q : Query} (hp : p ∈ plans)
    (hw : Window.ofValues start stop = .ok w) (hq : p.slice? w = some q) : Step plans next q next
  | merge {p r : Plan} {options : MergeOptions} {q : Query} {next' : Nat} (hp : p ∈ plans)
    (hr : r ∈ plans) (hq : p.merge r options next = .ok (q, next')) : Step plans next q next'

/-- The plans that a history of operations has made, and the next identity. -/
inductive Session (c : Catalog) : List Plan → Nat → Prop where
  | start {next : Nat} (h : ∀ t ∈ c.tables, t.id < next) : Session c [] next
  | table {plans : List Plan} {next : Nat} {t : TableInfo} (h : Session c plans next)
    (ht : t ∈ c.tables) :
    Session c (⟨next, Query.ofTable t.id t.name t.columnNames⟩ :: plans) (next + 1)
  | step {plans : List Plan} {next : Nat} {q : Query} {next' : Nat} (h : Session c plans next)
    (hq : Step plans next q next') : Session c (⟨next', q⟩ :: plans) (next' + 1)

/-- One operation gives a well-formed query over identities that have been handed out. -/
theorem Step.wellFormed {plans : List Plan} {next next' : Nat} {q : Query}
    (h : Step plans next q next') (hwf : ∀ p ∈ plans, p.query.WellFormed)
    (hids : ∀ p ∈ plans, p.IdsBelow next) : q.WellFormed ∧ next ≤ next' ∧ q.IdsBelow next' := by
  -- only a merge hands out identities; the other operations keep those of the plan
  cases h with
  | project hp hq =>
    refine ⟨(hwf _ hp).project hq, Nat.le_refl _, ?_⟩
    obtain ⟨_, _, _, _, rfl⟩ := Plan.project_eq_ok.mp hq
    exact (hids _ hp).opened
  | assign hp hq =>
    refine ⟨(hwf _ hp).assign hq, Nat.le_refl _, ?_⟩
    obtain ⟨_, _, rfl⟩ := Plan.assign_eq_ok.mp hq
    exact (hids _ hp).opened
  | rename hp hq =>
    refine ⟨(hwf _ hp).rename hq, Nat.le_refl _, ?_⟩
    obtain ⟨_, _, rfl⟩ := Plan.rename_eq_ok.mp hq
    exact (hids _ hp).opened
  | drop hp hq =>
    refine ⟨(hwf _ hp).drop hq, Nat.le_refl _, ?_⟩
    obtain ⟨_, _, rfl⟩ := Plan.drop_eq_ok.mp hq
    exact (hids _ hp).opened
  | filter hp hq =>
    refine ⟨(hwf _ hp).filter hq, Nat.le_refl _, ?_⟩
    obtain ⟨_, _, rfl⟩ := Plan.filter_eq_ok.mp hq
    exact (hids _ hp).opened
  | distinct hp hq =>
    refine ⟨(hwf _ hp).distinct? hq, Nat.le_refl _, ?_⟩
    obtain ⟨_, rfl⟩ := Plan.distinct?_eq_some.mp hq
    exact (hids _ hp).unwindowed
  | slice hp _ hq =>
    refine ⟨(hwf _ hp).slice? hq, Nat.le_refl _, ?_⟩
    obtain ⟨_, rfl⟩ := Plan.slice?_eq_some.mp hq
    exact (hids _ hp).unwindowed
  | merge hp hr hq =>
    obtain ⟨hle, hbelow⟩ := (hids _ hp).merge (hids _ hr) hq
    exact ⟨(hwf _ hp).merge (hwf _ hr) (hids _ hp) (hids _ hr) hq, hle, hbelow⟩

/-- In every session all plans are well formed, over identities that have been handed out. -/
theorem Session.wellFormed {c : Catalog} (hc : c.WellFormed) {plans : List Plan} {next : Nat}
    (h : Session c plans next) :
    (∀ t ∈ c.tables, t.id < next) ∧ ∀ p ∈ plans, p.query.WellFormed ∧ p.IdsBelow next := by
  induction h with
  | start h => exact ⟨h, fun p hp => by cases hp⟩
  | @table plans next t h ht ih =>
    obtain ⟨htables, hplans⟩ := ih
    refine ⟨fun t ht => Nat.lt_succ_of_lt (htables t ht), fun p hp => ?_⟩
    rcases List.mem_cons.mp hp with rfl | hp
    · refine ⟨.ofTable (hc t ht).1 (hc t ht).2, Nat.lt_succ_self _, fun r hr => ?_⟩
      rw [List.mem_singleton.mp hr]
      exact Nat.lt_succ_of_lt (htables t ht)
    · exact ⟨(hplans p hp).1, (hplans p hp).2.mono (Nat.le_succ _)⟩
  | @step plans next q next' h hq ih =>
    -- the new plan takes `next'` for itself, after what its query needed
    obtain ⟨htables, hplans⟩ := ih
    obtain ⟨hwf, hle, hids⟩ := hq.wellFormed (fun p hp => (hplans p hp).1) fun p hp =>
      (hplans p hp).2
    refine ⟨fun t ht => Nat.lt_succ_of_lt (Nat.lt_of_lt_of_le (htables t ht) hle), fun p hp => ?_⟩
    rcases List.mem_cons.mp hp with rfl | hp
    · exact ⟨hwf, Nat.lt_succ_self _, fun r hr => Nat.lt_succ_of_lt (hids r hr)⟩
    · exact ⟨(hplans p hp).1, (hplans p hp).2.mono (Nat.le_succ_of_le hle)⟩

/-- All columns of one of its tables. -/
def Plan.tracks : Plan := ⟨2, Query.ofTable 0 "tracks" ["TrackId", "AlbumId", "Name"]⟩

theorem Session.tracks : Session Catalog.music [Plan.tracks] 3 := by
  have hfresh : ∀ t ∈ Catalog.music.tables, t.id < 2 := by decide
  exact .table (.start hfresh) (.head _)

end LazyFrame
