import LazyFrame.Proofs.Rows.Stacking
import LazyFrame.Proofs.Scope.Descent

/-!
# Columns keep their meaning

A source with others joined to its right has rows that begin with a row of its own
(`Source.Extends.front_mem_rows`), a left join included, since it is the right part that is blank
there. An expression over the old source does not notice what follows. So in every plan that
descends from another one a column of the old plan may be used, and on each source row it has the
value that it had on the part of that row which the old plan knew
(`Session.Descent.column_keeps_meaning`).
-/

namespace LazyFrame

variable {α : Type} [DecidableEq α] {S : Scalars α} {db : Database α}

/-- The part of a row that belongs to a source which stands leftmost. -/
def SourceRow.front (s : Source) (row : SourceRow α) : SourceRow α := List.take s.visible.length row

theorem Source.length_of_mem_rows {s : Source} :
    ∀ row ∈ s.rows S db, row.length = s.visible.length := by
  intro row hrow
  rw [← Source.relations_rows row hrow, SourceRow.relations, List.length_map]

namespace Source.Extends

variable {s t : Source}

/-- Each row begins with a row of the old source. -/
theorem front_mem_rows (h : s.Extends t) :
    ∀ row ∈ t.rows S db, SourceRow.front s row ∈ s.rows S db := by
  induction h with
  | refl =>
    intro row hrow
    rw [SourceRow.front, ← Source.length_of_mem_rows row hrow, List.take_length]
    exact hrow
  | @join left right kind keys condition? h ih =>
    intro row hrow
    obtain ⟨l, hl, hrow⟩ := List.mem_flatMap.mp hrow
    obtain ⟨r, _, rfl⟩ := List.mem_map.mp hrow
    have hle : s.visible.length ≤ l.length := by
      rw [Source.length_of_mem_rows l hl]
      exact h.visible_begins.length_le
    have hfront : SourceRow.front s (l ++ r) = SourceRow.front s l :=
      List.take_append_of_le_length hle
    rw [hfront]
    exact ih l hl

/-- An expression over the old source has its old value. -/
theorem value_eq (h : s.Extends t) {e : Expr} (he : e.InScope s.visible) {row : SourceRow α}
    (hrow : row ∈ t.rows S db) :
    e.value S (SourceRow.env S row) = e.value S (SourceRow.env S (SourceRow.front s row)) := by
  have hrelations := Source.relations_rows _ (h.front_mem_rows row hrow)
  have hvalue :
      e.value S (SourceRow.env S (SourceRow.front s row ++ row.drop s.visible.length)) = _ :=
    SourceRow.value_append_left he hrelations
  rw [SourceRow.front, List.take_append_drop] at hvalue
  exact hvalue

end Source.Extends

/-- A column of a plan may be used in every plan that descends from it, alone or in what is made of
it and of anything else that is accepted there. On each source row it has the value of the column in
the row that the old plan makes of the beginning of it. -/
theorem Session.Descent.column_keeps_meaning (S : Scalars α) (db : Database α) {c : Catalog}
    (hc : c.WellFormed) {f g : Plan} {plans : List Plan} {next : Nat}
    (h : Descent c f plans next g) {name : String} (hname : name ∈ f.names) :
    ∃ e, f.lookup name = .ok e ∧
      g.opened.checkScope e = .ok () ∧
      (∀ e' : Expr, e'.MadeOf (fun x => x = e ∨ g.opened.Accepts x) →
        (∃ q, g.filter e' = .ok q) ∧ ∀ other, ∃ q, g.assign other e' = .ok q) ∧
      ∀ row ∈ g.opened.source.rows S db, ∃ front ∈ f.opened.source.rows S db,
        front <+: row ∧ (∀ other ∈ f.opened.source.rows S db, other <+: row → other = front) ∧
        e.value S (SourceRow.env S row) = e.value S (SourceRow.env S front) ∧
        e.value S (SourceRow.env S row) =
          cell S f.names (f.opened.selection.project S (SourceRow.env S front)) name := by
  obtain ⟨e, he⟩ := Query.exists_lookup (q := f.opened) (by rw [Plan.names_opened]; exact hname)
  have haccepts : g.opened.Accepts e := h.accepts hc he
  have hextends := h.source_extends
  obtain ⟨hsession, hf, _⟩ := h.session
  have hwf := ((hsession.wellFormed hc).2 f hf).1
  have hscope : e.InScope f.opened.source.visible := (hwf.opened.isScalarOver_of_lookup he).inScope
  refine ⟨e, he, haccepts.scope, fun e' he' => ?_, fun row hrow => ?_⟩
  · have hall : g.opened.Accepts e' :=
      .of_madeOf (he'.mono fun x hx => hx.elim (fun heq => heq ▸ haccepts) id)
    exact ⟨Plan.exists_filter_iff.mpr hall, fun _ => Plan.exists_assign_iff.mpr hall⟩
  · have hfront := hextends.front_mem_rows row hrow
    have hvalue : e.value S (SourceRow.env S row) = _ := hextends.value_eq hscope hrow
    -- the source has grown to the right, so the old row is the beginning of the new one
    refine ⟨SourceRow.front f.opened.source row, hfront, List.take_prefix _ _,
      fun other hother hbegins => ?_, hvalue, ?_⟩
    · -- rows of one source are of one length
      rw [List.prefix_iff_eq_take] at hbegins
      rw [hbegins, Source.length_of_mem_rows other hother]
      rfl
    · rw [hvalue, ← Plan.names_opened, Selection.cell_project he]

namespace Plan

/-- The identities of the later tracks. -/
def laterIds : Plan :=
  ⟨4, { laterTracks.opened with
    selection := .plain [⟨"TrackId", .column laterTracks.relation "TrackId"⟩] none }⟩

/-- A left merge on the identities of tracks. -/
def onTrackId : MergeOptions := ⟨some ["TrackId"], none, none, some "left"⟩

/-- The identities of the later tracks, beside all columns of the tracks. -/
def laterMerged : Plan :=
  ⟨5, laterIds.query.joinOn tracks.query .left
    [⟨.column laterTracks.relation "TrackId",
      .column ⟨0, .table "tracks", ["TrackId", "AlbumId", "Name"]⟩ "TrackId"⟩]⟩

end Plan

theorem Session.descent_laterMerged : Session.Descent Catalog.music Plan.laterTracks
    [Plan.laterMerged, Plan.laterIds, Plan.laterTracks, Plan.tracks] 6 Plan.laterMerged := by
  have hproject : Plan.laterTracks.project ["TrackId"] = .ok Plan.laterIds.query := rfl
  have hmerge : Plan.laterIds.merge Plan.tracks Plan.onTrackId 5 =
      .ok (Plan.laterMerged.query, 5) := rfl
  exact .grow (.grow (.start Session.laterTracks (.head _)) (.project hproject))
    (.merge (.tail _ (.tail _ (.head _))) hmerge)

/-- The album of a later track is no column of its own any more when the merge puts another one of
that name there, and yet it can be asked for. -/
theorem Session.Descent.column_keeps_meaning_laterTracks : ∃ e plans next,
    Catalog.music.WellFormed ∧
      Session.Descent Catalog.music Plan.laterTracks plans next Plan.laterMerged ∧
      "AlbumId" ∈ Plan.laterTracks.names ∧ Plan.laterTracks.lookup "AlbumId" = .ok e ∧
      Plan.laterMerged.lookup "AlbumId" ≠ .ok e ∧
      (∃ q, Plan.laterMerged.filter (.binary .eq e (.literal (.integer 8))) = .ok q) ∧
      ∀ row ∈ Plan.laterMerged.opened.source.rows Scalars.integers Database.music,
        ∃ front ∈ Plan.laterTracks.opened.source.rows Scalars.integers Database.music,
          front <+: row ∧ e.value Scalars.integers (SourceRow.env Scalars.integers row) =
            e.value Scalars.integers (SourceRow.env Scalars.integers front) := by
  have hname : "AlbumId" ∈ Plan.laterTracks.names := by decide
  obtain ⟨e, he, _, haccepted, hrows⟩ :=
    Session.Descent.column_keeps_meaning Scalars.integers Database.music
    Catalog.wellFormed_music Session.descent_laterMerged hname
  cases he
  have hother : Plan.laterMerged.lookup "AlbumId" ≠
      .ok (.column Plan.laterTracks.relation "AlbumId") := by
    intro h
    cases h
  refine ⟨_, _, _, Catalog.wellFormed_music, Session.descent_laterMerged, hname, rfl, hother, ?_,
    fun row hrow => ?_⟩
  · exact (haccepted _ (.binary .eq (.base (.inl rfl)) (.literal _))).1
  · obtain ⟨front, hfront, hbegins, _, hvalue, _⟩ := hrows row hrow
    exact ⟨front, hfront, hbegins, hvalue⟩

end LazyFrame
