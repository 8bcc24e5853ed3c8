import LazyFrame.Frame.Basic
import LazyFrame.Proofs.Number.Rounding
import LazyFrame.Proofs.Rows.Stacking

/-!
# Counts, aggregates and previews

A plan is summed up by statements of their own: its number of rows, an aggregate of one of its
columns, and its first rows. Each is made from the plan in another way. The count reads the plan as
a subquery; the aggregate keeps source and filter of the opened plan and drops the outputs; the
preview puts a window on the plan or on the opened one. All three agree with the rows of the plan
itself (`Plan.summarizes_rows`).

An aggregate puts all rows that pass the filter together into one (`Query.rows_of_aggregate`). Those
of the opened plan are the rows of the plan, one for one, so nothing is counted twice or left out by
DISTINCT, a window or a join.
-/

namespace LazyFrame

variable {α : Type} [DecidableEq α] {S : Scalars α} {db : Database α}

/-- Aggregates give one row, computed over all rows that are kept. -/
theorem Query.rows_of_aggregate {q : Query} (hplain : q.selection.IsPlain)
    (haggregate : q.selection.isAggregate = true) :
    q.rows S db = [q.selection.outputs.map fun o => o.expr.overall S (q.kept S db)] := by
  have hwindowed : q.selection.isWindowed = false := by
    rw [Selection.isWindowed, hplain.limit, hplain.offset]
    rfl
  rw [rows, Selection.rows, Selection.window_of_not hwindowed, hplain.distinct, haggregate]
  rfl

/-- A whole number that is not negative can be the start of a window. -/
theorem Window.isStart_of_toRat? {n : Number} {k : Nat} (h : n.toRat? = some (k : Rat)) :
    isStart n = true := by
  have hzero : (0 : Number).toRat? = some 0 := rfl
  have hinteger : n.isInteger = true := by
    rw [Number.isInteger, h]
    rfl
  rw [isStart, hinteger, Number.lt_of_toRat? h hzero]
  simp

namespace Plan

variable {p : Plan}

theorem rows_count (p : Plan) : p.count.rows S db = [[S.count (p.query.rows S db).length]] := by
  have hkept : (p.count.kept S db).length = (p.query.rows S db).length := by
    have hall : p.count.kept S db = (p.asSource.rows S db).map (SourceRow.env S) :=
      List.filter_eq_self.mpr fun _ _ => rfl
    rw [hall, List.length_map, asSource, Source.rows, List.length_map]
    rfl
  rw [Query.rows_of_aggregate ⟨rfl, rfl, rfl⟩ rfl, ← hkept]
  rfl

theorem rows_aggregate (h : p.query.WellFormed) {fn : AggregateFn} {name : String} {q : Query}
    (hq : p.aggregate fn name = .ok q) :
    q.rows S db =
      [[S.aggregate fn ((p.query.rows S db).map fun row =>
      (p.query.table S db).cell S row name)]] := by
  obtain ⟨operand, hoperand, rfl⟩ := aggregate_eq_ok.mp hq
  -- the aggregate keeps what the opened plan keeps, and computes its operand there
  have hvalues : (p.opened.kept S db).map (fun env => operand.value S env) =
      (p.query.rows S db).map fun row => (p.query.table S db).cell S row name := by
    rw [rows_eq_kept h, List.map_map]
    exact List.map_congr_left fun env _ => value_of_lookup hoperand env
  rw [Query.rows_of_aggregate ⟨rfl, rfl, rfl⟩ rfl, ← hvalues]
  rfl

theorem rows_preview (h : p.query.WellFormed) {n : Number} (hexact : n.IsExact) :
    (Frame.preview p n).names = p.names ∧ (Frame.preview p n).rows S db =
      (p.query.rows S db).take n.count := by
  have hcount : ∀ stop ∈ some n, (stop.sub 0).count = stop.count - (0 : Number).count := by
    intro stop hstop
    cases hstop
    exact Number.count_sub_zero hexact
  have htable : (Frame.preview p n).table S db = (p.query.table S db).slice 0 (some n.count) := by
    rw [Frame.preview, table_slice? h hcount]
    rfl
  exact ⟨congrArg Table.names htable, congrArg Table.rows htable⟩

/-- What the statements that sum a plan up say of its rows. -/
structure SummarizesRows (S : Scalars α) (db : Database α) (p : Plan) : Prop where
  count : p.count.rows S db = [[S.count (p.query.rows S db).length]]
  /-- Every column has every aggregate, and it is that of its cells. -/
  aggregate : ∀ fn, ∀ name ∈ p.names, ∃ q, p.aggregate fn name = .ok q ∧
    q.rows S db =
      [[S.aggregate fn ((p.query.rows S db).map fun row => (p.query.table S db).cell S row name)]]
  /-- A preview of any length is possible, and has the first rows under the names of the plan. -/
  preview : ∀ {n : Number} {k : Nat}, n.toRat? = some (k : Rat) → n.IsExact →
    Frame.headCount (.number n) = .ok n ∧ (Frame.preview p n).names = p.names ∧
      (Frame.preview p n).rows S db = (p.query.rows S db).take k

/-- Counts, aggregates and previews agree with the rows of a plan, with whatever DISTINCT, LIMIT,
OFFSET, filter and joins it has. -/
theorem summarizes_rows (S : Scalars α) (db : Database α) (h : p.query.WellFormed) :
    p.SummarizesRows S db where
  count := rows_count p
  aggregate fn name hname := by
    obtain ⟨q, hq⟩ := exists_aggregate fn hname
    exact ⟨q, hq, rows_aggregate h hq⟩
  preview {n _} hn hexact := by
    have hrows : (Frame.preview p n).names = p.names ∧
        (Frame.preview p n).rows S db = (p.query.rows S db).take n.count := rows_preview h hexact
    rw [Number.count_of_toRat? hn] at hrows
    exact ⟨if_pos (Window.isStart_of_toRat? hn), hrows⟩

/-- There are two later tracks, both on an album, and a preview of one row has the first of them. -/
theorem summarizes_rows_laterTracks : ∃ q,
    Plan.laterTracks.query.WellFormed ∧
      Plan.laterTracks.count.rows Scalars.integers Database.music = [[some 2]] ∧
      Plan.laterTracks.aggregate .sum "AlbumId" = .ok q ∧
      q.rows Scalars.integers Database.music = [[some 15]] ∧
      (Frame.preview Plan.laterTracks 1).rows Scalars.integers Database.music =
        [[some 2, some 7, none]] := by
  have hwf :=
    ((Session.laterTracks.wellFormed Catalog.wellFormed_music).2 Plan.laterTracks (.head _)).1
  have hsummary := summarizes_rows Scalars.integers Database.music hwf
  obtain ⟨q, hq, hsum⟩ := hsummary.aggregate .sum "AlbumId" (by decide)
  have hone : (1 : Number).toRat? = some ((1 : Nat) : Rat) := by decide +kernel
  have hpreview := hsummary.preview hone (Number.isExact_round 1)
  refine ⟨q, hwf, hsummary.count.trans (by decide +kernel), hq, hsum.trans (by decide +kernel), ?_⟩
  exact hpreview.2.2.trans (by decide +kernel)

end Plan

end LazyFrame
