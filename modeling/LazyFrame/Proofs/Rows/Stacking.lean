import LazyFrame.Proofs.Rows.Operations
import LazyFrame.Proofs.Scope.Session

/-!
# Stacked operations

Every operation on one plan means on its rows what its name says, whatever DISTINCT, LIMIT and
OFFSET the plan has already (`Plan.acts_on_rows`). An operation decides for itself whether it
changes the SELECT of the plan or reads that SELECT as a subquery. Changing a SELECT acts in front
of its DISTINCT and its window, reading it acts behind them, so the decision shows in the rows
unless it is the right one.

Columns and predicates may look at more than the rows of the plan: at every column of the source
that the opened plan reads, whether or not an output shows it. So these operations are told by
source rows. Each row of the plan is computed on one source row of the opened plan
(`Plan.rows_eq_kept`), a filter tests its predicate there, and a new column is computed there.
-/

namespace LazyFrame

variable {α : Type} [DecidableEq α]

namespace Plan

/-- What the operations on one plan do to its rows. -/
structure ActsOnRows (S : Scalars α) (db : Database α) (p : Plan) : Prop where
  /-- Opening a plan keeps columns and rows. -/
  opened : p.opened.table S db = p.query.table S db
  /-- Each row of the plan is computed on one of the source rows that the opened plan keeps, in
  their order. -/
  rows : p.query.rows S db = (p.opened.kept S db).map (p.opened.selection.project S)
  project : ∀ {names : List String} {q : Query}, p.project names = .ok q →
    q.table S db = (p.query.table S db).select S names
  drop : ∀ {names : List String} {q : Query}, p.drop names = .ok q →
    q.table S db = (p.query.table S db).drop S names
  rename : ∀ {mapping : List (String × String)} {q : Query}, p.rename mapping = .ok q →
    q.table S db = (p.query.table S db).rename mapping
  /-- A filter keeps the rows whose source row makes the predicate true. -/
  filter : ∀ {e : Expr} {q : Query}, p.filter e = .ok q →
    q.names = p.names ∧ q.rows S db =
      ((p.opened.kept S db).filter fun env => S.isTrue (e.value S env)).map
        (p.opened.selection.project S)
  /-- An assignment computes its column on the source row and leaves the others as they are. -/
  assign : ∀ {name : String} {e : Expr} {q : Query}, p.assign name e = .ok q →
    q.names = (if name ∈ p.names then p.names else p.names ++ [name]) ∧
      q.rows S db = (p.opened.kept S db).map fun env => q.names.map fun other =>
        if other = name then e.value S env
        else (p.query.table S db).cell S (p.opened.selection.project S env) other
  distinct : (p.distinct?.getD p.query).table S db = (p.query.table S db).distinct
  /-- A slice whose end is not beyond `2 ^ 53` keeps the rows from its start on and before its
  end. -/
  slice : ∀ {start stop : Value} {w : Window}, Window.ofValues start stop = .ok w →
    (∀ behind ∈ w.stop?, behind.count ≤ 2 ^ 53) →
      ((p.slice? w).getD p.query).names = p.names ∧ ((p.slice? w).getD p.query).rows S db =
        ((p.query.table S db).slice w.start.count (w.stop?.map Number.count)).rows

variable {p : Plan} {S : Scalars α} {db : Database α}

/-- On a plan with any DISTINCT, LIMIT and OFFSET all operations act on the rows that it has with
them. -/
theorem acts_on_rows (S : Scalars α) (db : Database α) (h : p.query.WellFormed) :
    p.ActsOnRows S db where
  opened := table_opened h
  rows := rows_eq_kept h
  project := table_project h
  drop := table_drop h
  rename := table_rename h
  filter hq :=
    have htable := table_filter_kept h hq
    ⟨congrArg Table.names htable, congrArg Table.rows htable⟩
  assign hq := ⟨names_assign hq, rows_assign h hq⟩
  distinct := table_distinct? h
  slice hw hexact :=
    have htable := table_slice? h (Window.count_sub hw hexact)
    ⟨congrArg Table.names htable, congrArg Table.rows htable⟩

/-- The tracks behind the first one. -/
def laterTracks : Plan :=
  ⟨3, { tracks.query with
    selection := { tracks.query.selection with offset? := some (.rows (.finite 1)) } }⟩

/-- Whether a track of `laterTracks` is on this album. -/
def onAlbum (album : Int) : Expr :=
  .binary .eq (.column ⟨3, .derived, ["TrackId", "AlbumId", "Name"]⟩ "AlbumId")
    (.literal (.integer album))

end Plan

theorem Session.laterTracks : Session Catalog.music [Plan.laterTracks, Plan.tracks] 4 := by
  have hwindow : Window.ofValues (.number (.finite 1)) .missing = .ok ⟨.finite 1, none⟩ := rfl
  have hslice : Plan.tracks.slice? ⟨.finite 1, none⟩ = some Plan.laterTracks.query := rfl
  exact .step Session.tracks (.slice (.head _) hwindow hslice)

/-- The first of the later tracks is the second one, and the only one of them on its album. -/
theorem Plan.acts_on_rows_laterTracks : ∃ w q,
    Plan.laterTracks.query.WellFormed ∧
      Window.ofValues .missing (.number (.finite 1)) = .ok w ∧
      ((Plan.laterTracks.slice? w).getD Plan.laterTracks.query).rows Scalars.integers
        Database.music = [[some 2, some 7, none]] ∧
      Plan.laterTracks.filter (Plan.onAlbum 7) = .ok q ∧
      q.rows Scalars.integers Database.music = [[some 2, some 7, none]] := by
  have hwf :=
    ((Session.laterTracks.wellFormed Catalog.wellFormed_music).2 Plan.laterTracks (.head _)).1
  have hacts := Plan.acts_on_rows Scalars.integers Database.music hwf
  have hwindow : Window.ofValues .missing (.number (.finite 1)) = .ok ⟨0, some (.finite 1)⟩ := rfl
  have hexact : ∀ behind ∈ some (Number.finite 1), behind.count ≤ 2 ^ 53 := by
    intro behind hbehind
    cases hbehind
    decide +kernel
  have hfilter : ∃ q, Plan.laterTracks.filter (Plan.onAlbum 7) = .ok q := ⟨_, rfl⟩
  obtain ⟨q, hq⟩ := hfilter
  refine ⟨_, q, hwf, hwindow, ?_, hq, ?_⟩
  · exact (hacts.slice hwindow hexact).2.trans (by decide +kernel)
  · exact (hacts.filter hq).2.trans (by decide +kernel)

end LazyFrame
