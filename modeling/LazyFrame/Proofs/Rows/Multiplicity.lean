import LazyFrame.Proofs.Rows.Padding

/-!
# How often a left merge repeats a row

A left merge keeps the left rows in their order and repeats each of them as often as there are
right rows to stand beside it, at least once: `Plan.rows_merge_left_repeated`. What counts are the
rows of the right plan's own result, behind its filter, its DISTINCT and its window. So a filter on
the right makes partners fewer and never takes a left row away, and a left row that the left filter
has taken away does not come back.

The equation is one about tables (`Table.select_loop_left`). A row of the nested loop begins with
the left row, whatever stands beside it, so reading it back by the left names gives that row again;
and the number of blocks is the number of partners, or one if there are none.
-/

namespace LazyFrame

variable {α : Type}

/-- Equality is not true when one side is NULL. -/
def Scalars.NullsApart (S : Scalars α) : Prop :=
  ∀ a, S.isTrue (S.binary .eq S.null a) = false ∧ S.isTrue (S.binary .eq a S.null) = false

theorem Scalars.nullsApart_integers : Scalars.integers.NullsApart := by
  intro a
  constructor
  · cases a <;> rfl
  · -- the meaning of `=` looks at its first operand, and there at a zero, before it comes to NULL
    cases a with
    | none => rfl
    | some x => by_cases hx : x = 0 <;> simp [Scalars.integers, Integers.isTrue, hx]

/-! ## Tables -/

/-- The columns of a longer row that begins with another one hold what they hold there. -/
theorem cell_append_left {S : Scalars α} {names rest : List String} {row others : List α}
    (hlength : row.length = names.length) {name : String} (hname : name ∈ names) :
    cell S (names ++ rest) (row ++ others) name = cell S names row name := by
  have hfound : ((names.zip row).lookup name).isSome = true := by
    rw [Option.isSome_iff_ne_none]
    intro hnone
    rw [List.lookup_eq_none_iff] at hnone
    obtain ⟨i, hi, hget⟩ := List.getElem_of_mem hname
    have hi' : i < (names.zip row).length := by
      rw [List.length_zip]
      omega
    have hne := hnone _ (List.getElem_mem hi')
    simp [hget] at hne
  obtain ⟨a, ha⟩ := Option.isSome_iff_exists.mp hfound
  rw [cell, cell, List.zip_append hlength.symm, List.lookup_append, ha]
  rfl

namespace Table

variable {S : Scalars α} {t u : Table α} {keys : List (String × String)}

/-- The number of right rows that agree with a left one. -/
def partnerCount (S : Scalars α) (t u : Table α) (keys : List (String × String))
    (l : List α) : Nat :=
  u.rows.countP (t.agree S u keys l)

/-- Rows that agree have no NULL among their keys. -/
theorem ne_null_of_agree (hS : S.NullsApart) {l r : List α} (h : t.agree S u keys l r = true) :
    ∀ key ∈ keys, t.cell S l key.1 ≠ S.null ∧ u.cell S r key.2 ≠ S.null := by
  intro key hkey
  have heq := List.all_eq_true.mp h key hkey
  constructor
  · intro hnull
    rw [hnull, (hS _).1] at heq
    cases heq
  · intro hnull
    rw [hnull, (hS _).2] at heq
    cases heq

theorem length_partners {β : Type} (matching : List β) (blank : β) :
    (JoinKind.left.partners matching blank).length = max 1 matching.length := by
  unfold JoinKind.partners
  cases matching with
  | nil => rfl
  | cons first rest =>
    show rest.length + 1 = max 1 (rest.length + 1)
    omega

/-- The left names read the left row back from any row that begins with it. -/
theorem map_cell_beside (hnodup : t.names.Nodup) {l : List α}
    (hlength : l.length = t.names.length) (r : List α) :
    t.names.map (LazyFrame.cell S (t.names ++ t.restNames u) (t.beside S u l r)) = l := by
  have hread : t.names.map (LazyFrame.cell S (t.names ++ t.restNames u) (t.beside S u l r)) =
      t.names.map (LazyFrame.cell S t.names l) :=
    List.map_congr_left fun name hname => cell_append_left hlength hname
  rw [hread, map_cell hnodup hlength]

/-- In the left columns of a left merge every left row stands once for each partner, and once if it
has none. -/
theorem select_loop_left (standIn : List α) (hnodup : t.names.Nodup)
    (hlength : ∀ l ∈ t.rows, l.length = t.names.length) :
    ((t.loop S u standIn .left keys).select S t.names).rows =
      t.rows.flatMap fun l => List.replicate (max 1 (t.partnerCount S u keys l)) l := by
  show (t.loop S u standIn .left keys).rows.map _ = _
  rw [loop, List.map_flatMap]
  refine List.flatMap_congr fun l hl => ?_
  -- every row of the block is read back as the same left row
  have hblock : ∀ rows : List (List α),
      (rows.map (t.beside S u l)).map
          (fun row => t.names.map (LazyFrame.cell S (t.names ++ t.restNames u) row)) =
        List.replicate rows.length l := by
    intro rows
    rw [List.map_map, ← List.map_const']
    refine List.map_congr_left fun r _ => ?_
    rw [Function.comp_apply]
    exact map_cell_beside hnodup (hlength l hl) r
  rw [partnerCount, List.countP_eq_length_filter, ← length_partners _ standIn]
  exact hblock _

end Table

/-! ## Plans -/

namespace Plan

variable [DecidableEq α] {p r : Plan} {q : Query} {options : MergeOptions} {next next' : Nat}

/-- A left merge, read in the columns of its left plan, gives each row of the left plan as often as
the right plan has rows with the same keys, and once if it has none. Where equality is not true of
NULL, no row with a NULL key counts. -/
theorem rows_merge_left_repeated (S : Scalars α) (db : Database α) (hp : p.query.WellFormed)
    (hr : r.query.WellFormed) (hpid : p.IdsBelow next) (hrid : r.IdsBelow next)
    (hkind : options.kind = .ok .left) (hq : p.merge r options next = .ok (q, next')) :
    ∃ leftNames rightNames,
      options.keys p.names r.names = .ok (leftNames, rightNames) ∧
      ((q.table S db).select S p.names).rows = ((p.query.rows S db).flatMap fun l =>
        List.replicate (max 1 ((p.query.table S db).partnerCount S (r.query.table S db)
          (leftNames.zip rightNames) l)) l) ∧
      (S.NullsApart → ∀ l row,
        (p.query.table S db).agree S (r.query.table S db) (leftNames.zip rightNames) l row = true →
          ∀ key ∈ leftNames.zip rightNames, (p.query.table S db).cell S l key.1 ≠ S.null ∧
            (r.query.table S db).cell S row key.2 ≠ S.null) := by
  obtain ⟨kind, leftNames, rightNames, hkind', hkeys, htable⟩ := table_merge S db hp hr hpid hrid hq
  obtain rfl := Except.ok.inj (hkind.symm.trans hkind')
  refine ⟨leftNames, rightNames, hkeys, ?_, fun hS l row hagree => Table.ne_null_of_agree hS hagree⟩
  rw [htable]
  exact Table.select_loop_left _ hp.selection.names_nodup fun l hl =>
    Selection.length_of_mem_rows l hl

/-- The tracks before the third one. -/
def earlyTracks : Plan :=
  ⟨3, { tracks.query with selection := { tracks.query.selection with
    filter? :=
  some (.binary .lt (.column ⟨0, .table "tracks", ["TrackId", "AlbumId", "Name"]⟩ "TrackId")
      (.literal (.integer 3))) } }⟩

end Plan

theorem Session.earlyTracks : Session Catalog.music [Plan.earlyTracks, Plan.tracks] 4 := by
  have hfilter : Plan.tracks.filter
      (.binary .lt (.column ⟨0, .table "tracks", ["TrackId", "AlbumId", "Name"]⟩ "TrackId")
        (.literal (.integer 3))) = .ok Plan.earlyTracks.query := rfl
  exact .step Session.tracks (.filter (.head _) hfilter)

/-- The tracks beside the early tracks of the same album: two for each of the first two, and none
for the third, which stays all the same. Both sides read the one table. -/
theorem Plan.rows_merge_left_repeated_tracks : ∃ q next',
    Plan.tracks.query.WellFormed ∧ Plan.earlyTracks.query.WellFormed ∧ Plan.tracks.IdsBelow 4 ∧
      Plan.earlyTracks.IdsBelow 4 ∧
      (MergeOptions.mk (some ["AlbumId"]) none none (some "left")).kind = .ok .left ∧
      Plan.tracks.merge Plan.earlyTracks ⟨some ["AlbumId"], none, none, some "left"⟩ 4 =
        .ok (q, next') ∧
      ((q.table Scalars.integers Database.music).select Scalars.integers Plan.tracks.names).rows =
        [[some 1, some 7, none], [some 1, some 7, none], [some 2, some 7, none],
          [some 2, some 7, none], [some 3, some 8, none]] ∧
      Scalars.integers.NullsApart ∧
      ∀ l row, (Plan.tracks.query.table Scalars.integers Database.music).agree
          Scalars.integers (Plan.earlyTracks.query.table Scalars.integers Database.music)
            [("AlbumId", "AlbumId")] l row = true →
        (Plan.tracks.query.table Scalars.integers Database.music).cell Scalars.integers l
          "AlbumId" ≠ none := by
  have hplans := (Session.earlyTracks.wellFormed Catalog.wellFormed_music).2
  obtain ⟨htracks, htid⟩ := hplans Plan.tracks (.tail _ (.head _))
  obtain ⟨hearly, heid⟩ := hplans Plan.earlyTracks (.head _)
  have hkind : (MergeOptions.mk (some ["AlbumId"]) none none (some "left")).kind = .ok .left := rfl
  refine ⟨_, _, htracks, hearly, htid, heid, hkind, rfl, ?_⟩
  obtain ⟨_, _, hkeys, hrows, hnulls⟩ :=
    Plan.rows_merge_left_repeated Scalars.integers Database.music htracks hearly htid heid hkind rfl
  cases hkeys
  have happart := Scalars.nullsApart_integers
  exact ⟨hrows, happart, fun l row hagree => (hnulls happart l row hagree _ (.head _)).1⟩

end LazyFrame
