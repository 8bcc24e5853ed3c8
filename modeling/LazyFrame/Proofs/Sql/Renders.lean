import LazyFrame.Proofs.Scope.Session
import LazyFrame.Proofs.Sql.Writable

/-!
# Every plan of a session renders

`Session.wellFormed` says that the plans of a session are well formed, and
`Query.exists_statement_iff` that a well-formed query has a statement unless a literal in it
cannot be written. Put together, no plan that operations can make fails to render for any other
reason, in either dialect, and neither does its count nor an aggregate of one of its columns
(`Session.wellFormed_and_renders`).
-/

namespace LazyFrame

namespace Plan

variable {p : Plan} {q : Query}

theorem isWritable_opened (h : p.query.IsWritable) : p.opened.IsWritable := by
  unfold opened
  split
  · refine ⟨⟨h.source, h.selection⟩, ⟨fun o ho => ?_, fun e he => by cases he⟩⟩
    obtain ⟨name, _, rfl⟩ := List.mem_map.mp ho
    trivial
  · exact h

theorem isWritable_count_iff : p.count.IsWritable ↔ p.query.IsWritable := by
  constructor
  · intro h
    exact ⟨h.source.1, h.source.2⟩
  · intro h
    refine ⟨⟨h.source, h.selection⟩, ⟨fun o ho => ?_, fun e he => by cases he⟩⟩
    rw [List.mem_singleton.mp ho]
    trivial

theorem isWritable_aggregate {fn : AggregateFn} {name : String} (h : p.query.IsWritable)
    (hq : p.aggregate fn name = .ok q) : q.IsWritable := by
  obtain ⟨operand, hoperand, rfl⟩ := aggregate_eq_ok.mp hq
  obtain ⟨output, houtput, _, rfl⟩ := Query.lookup_eq_ok hoperand
  have hopened := isWritable_opened h
  refine ⟨hopened.source, ⟨fun o ho => ?_, hopened.selection.filter⟩⟩
  rw [List.mem_singleton.mp ho]
  exact hopened.selection.outputs output houtput

/-- A well-formed plan renders unless a literal cannot be written. -/
theorem exists_sql_iff (h : p.query.WellFormed) (d : Dialect) :
    (∃ text, p.query.sql d = .ok text) ↔ p.query.IsWritable := by
  rw [Query.exists_sql_iff, Query.exists_statement_iff h.source h.visible_nodup h.selection.inScope]

/-- So does its count. -/
theorem exists_sql_count_iff (h : p.query.WellFormed) (d : Dialect) :
    (∃ text, p.count.sql d = .ok text) ↔ p.query.IsWritable := by
  have hselection : p.count.selection.InScope p.count.source.visible := by
    refine ⟨List.cons_ne_nil _ _, fun o ho => ?_, fun e he => (by cases he),
      fun b hb => (by cases hb), fun b hb => (by cases hb)⟩
    rw [List.mem_singleton.mp ho]
    exact fun ref href => absurd href List.not_mem_nil
  have hsource : p.count.source.WellFormed := ⟨h.source, h.visible_nodup, h.selection⟩
  have hnodup : p.count.source.visible.Nodup := List.nodup_singleton p.relation
  rw [Query.exists_sql_iff, Query.exists_statement_iff hsource hnodup hselection,
    isWritable_count_iff]

/-- So does every aggregate of one of its columns. -/
theorem exists_sql_aggregate_iff (h : p.query.WellFormed) {fn : AggregateFn} {name : String}
    (hq : p.aggregate fn name = .ok q) (d : Dialect) : (∃ text, q.sql d = .ok text) ↔
    q.IsWritable := by
  obtain ⟨operand, hoperand, rfl⟩ := aggregate_eq_ok.mp hq
  have hopened := h.opened
  have hselection : Selection.InScope p.opened.source.visible
      (.plain [⟨name, .aggregate fn operand⟩] p.opened.selection.filter?) := by
    refine ⟨List.cons_ne_nil _ _, fun o ho => ?_, hopened.selection.filter,
      fun b hb => (by cases hb), fun b hb => (by cases hb)⟩
    rw [List.mem_singleton.mp ho]
    exact (hopened.isScalarOver_of_lookup hoperand).inScope
  rw [Query.exists_sql_iff]
  exact Query.exists_statement_iff (q := ⟨p.opened.source, .plain _ _⟩) hopened.source
    hopened.visible_nodup hselection

end Plan

/-- Every plan of a session is well formed. It renders in every dialect exactly if all of its
literals can be written, and so do its count and the aggregates of its columns. -/
theorem Session.wellFormed_and_renders {c : Catalog} (hc : c.WellFormed) {plans : List Plan}
    {next : Nat} (h : Session c plans next) {p : Plan} (hp : p ∈ plans) :
    p.query.WellFormed ∧ ∀ d : Dialect,
      ((∃ text, p.query.sql d = .ok text) ↔ p.query.IsWritable) ∧
      ((∃ text, p.count.sql d = .ok text) ↔ p.query.IsWritable) ∧
      ∀ fn, ∀ name ∈ p.names, ∃ q, p.aggregate fn name = .ok q ∧
        ((∃ text, q.sql d = .ok text) ↔ q.IsWritable) ∧ (p.query.IsWritable → q.IsWritable) := by
  have hwf : p.query.WellFormed := ((h.wellFormed hc).2 p hp).1
  refine ⟨hwf,
    fun d => ⟨Plan.exists_sql_iff hwf d, Plan.exists_sql_count_iff hwf d, fun fn name hname => ?_⟩⟩
  obtain ⟨q, hq⟩ := Plan.exists_aggregate fn hname
  exact ⟨q, hq, Plan.exists_sql_aggregate_iff hwf hq d, fun hw => Plan.isWritable_aggregate hw hq⟩

/-- The distinct tracks, merged with themselves and narrowed to their names. -/
theorem Session.wellFormed_and_renders_merged :
    ∃ (merged narrowed : Plan) (plans : List Plan) (next : Nat),
    Catalog.music.WellFormed ∧ Session Catalog.music plans next ∧ merged ∈ plans ∧
    narrowed ∈ plans ∧
      merged.query.source.visible.length = 2 ∧ narrowed.query.WellFormed ∧
      ∀ d, (∃ text, narrowed.query.sql d = .ok text) ∧ ∃ text, narrowed.count.sql d = .ok text := by
  have hdistinct := Session.step Session.tracks (.distinct (.head _) rfl)
  have hmerge := Session.step hdistinct
    (@Step.merge _ _ _ _ ⟨some ["TrackId"], none, none, none⟩ _ _ (.head _) (.head _) rfl)
  have hproject := Session.step hmerge (@Step.project _ _ _ ["Name"] _ (.head _) rfl)
  have h := Session.wellFormed_and_renders Catalog.wellFormed_music hproject (.head _)
  refine ⟨_, _, _, _, Catalog.wellFormed_music, hproject, .tail _ (.head _), .head _, rfl,
    h.1, fun d => ?_⟩
  -- the statement is computed here, so its literals can be written
  have hwritable := (h.2 d).1.mp ⟨_, rfl⟩
  exact ⟨(h.2 d).1.mpr hwritable, (h.2 d).2.1.mpr hwritable⟩

end LazyFrame
