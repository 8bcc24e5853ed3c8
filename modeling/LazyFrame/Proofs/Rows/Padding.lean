import LazyFrame.Proofs.Rows.Merge
import LazyFrame.Proofs.Rows.Operations
import LazyFrame.Proofs.Scope.Session

/-!
# Padding of left merges

A left join of two tables keeps every left row: beside the right rows that agree with it, or padded
with NULL if there are none (`Table.leftJoin`). A left merge of two plans gives these rows only
under a condition, and `Plan.rows_merge_left_iff` says which. The right outputs are computed above
the join, on the columns of the right source. For a left row without a partner those columns are
NULL, while what an output makes of them need not be: a constant stays what it is, and a test for
NULL becomes true. So the rows are those of a left join if every left row has a partner, or if every
output taken from the right is NULL on a row of NULL; otherwise they are not.

A sealed plan is read as a subquery. All its outputs are computed below the join then, and a left
merge with it always pads (`Plan.rows_merge_left_of_isSealed`).
-/

namespace LazyFrame

variable {α : Type}

/-! ## Tables -/

namespace Table

/-- Lists put together from blocks of the same lengths are the same exactly if all blocks are. -/
theorem flatMap_eq_iff {β γ : Type} {f g : β → List γ} {xs : List β}
    (hlength : ∀ x ∈ xs, (f x).length = (g x).length) : xs.flatMap f = xs.flatMap g ↔
    ∀ x ∈ xs, f x = g x := by
  induction xs with
  | nil => simp
  | cons x rest ih =>
    obtain ⟨hx, hrest⟩ := List.forall_mem_cons.mp hlength
    rw [List.flatMap_cons, List.flatMap_cons, List.forall_mem_cons, ← ih hrest]
    constructor
    · exact fun h => List.append_inj h hx
    · intro h
      obtain ⟨hfirst, hothers⟩ := h
      rw [hfirst, hothers]

variable {S : Scalars α} {t u : Table α} {keys : List (String × String)} {standIn : List α}

/-- A row pads a left one if it is NULL in the columns that are taken from it. -/
theorem beside_eq_padded (l : List α) :
    t.beside S u l standIn = t.padded S u l ↔
    ∀ name ∈ t.restNames u, u.cell S standIn name = S.null := by
  rw [beside, padded, List.append_cancel_left_eq, List.map_inj_left]

/-- The rows that a left merge makes of one left row. -/
theorem looped_eq_joined (l : List α) :
    (JoinKind.left.partners (u.rows.filter (t.agree S u keys l)) standIn).map (t.beside S u l) =
        t.joined S u keys l ↔
      (∃ r ∈ u.rows, t.agree S u keys l r = true) ∨
      ∀ name ∈ t.restNames u, u.cell S standIn name = S.null := by
  unfold joined
  cases hagreeing : u.rows.filter (t.agree S u keys l) with
  | nil =>
    -- no partner: the only row is the left one beside what stands in for one
    have hnone : ¬ ∃ r ∈ u.rows, t.agree S u keys l r = true := by
      intro h
      obtain ⟨r, hr, hagree⟩ := h
      exact List.filter_eq_nil_iff.mp hagreeing r hr hagree
    rw [or_iff_right hnone, ← beside_eq_padded l]
    exact List.singleton_inj
  | cons r rest =>
    -- with partners nothing is padded
    have hr : r ∈ u.rows.filter (t.agree S u keys l) := hagreeing ▸ List.mem_cons_self
    exact iff_of_true rfl (.inl ⟨r, List.mem_filter.mp hr⟩)

/-- It makes as many as a left join, padded or not. -/
theorem length_looped (l : List α) :
    ((JoinKind.left.partners (u.rows.filter (t.agree S u keys l)) standIn).map
      (t.beside S u l)).length = (t.joined S u keys l).length := by
  unfold joined
  cases u.rows.filter (t.agree S u keys l) <;> rfl

/-- The nested loop is a left join exactly if no left row is without a partner or the stand-in is
NULL in the columns taken from the right. -/
theorem rows_loop_eq_leftJoin :
    (t.loop S u standIn .left keys).rows = t.leftJoin S u keys ↔
      (∀ l ∈ t.rows, ∃ r ∈ u.rows, t.agree S u keys l r = true) ∨
        ∀ name ∈ t.restNames u, u.cell S standIn name = S.null := by
  rw [loop, leftJoin, flatMap_eq_iff fun l _ => length_looped l]
  by_cases hnull : ∀ name ∈ t.restNames u, u.cell S standIn name = S.null
  · exact iff_of_true (fun l _ => (looped_eq_joined l).mpr (.inr hnull)) (.inr hnull)
  · rw [or_iff_left hnull]
    exact forall₂_congr fun l _ => (looped_eq_joined l).trans (or_iff_left hnull)

/-- The nested loop is the merge of the tables exactly if it pads wherever a left merge has to. -/
theorem loop_eq_merge_iff {kind : JoinKind} :
    t.loop S u standIn kind keys = t.merge S u kind keys ↔
      (kind = .left → (∀ l ∈ t.rows, ∃ r ∈ u.rows, t.agree S u keys l r = true) ∨
        ∀ name ∈ t.restNames u, u.cell S standIn name = S.null) := by
  cases kind with
  | inner => exact iff_of_true rfl (fun h => by cases h)
  | left =>
    have hrows : t.loop S u standIn .left keys = t.merge S u .left keys ↔
        (t.loop S u standIn .left keys).rows = t.leftJoin S u keys :=
      ⟨fun h => congrArg Table.rows h, fun h => congrArg (Table.mk _) h⟩
    rw [hrows, rows_loop_eq_leftJoin]
    exact ⟨fun h _ => h, fun h => h rfl⟩

end Table

/-! ## Plans -/

namespace Plan

variable {S : Scalars α} {db : Database α} {p r : Plan} {q : Query} {options : MergeOptions}
    {next next' : Nat}

/-- All outputs of a sealed plan are NULL on a row of NULL, since they are columns of a subquery. -/
theorem value_blank_of_isSealed (h : r.isSealed = true) :
    ∀ o ∈ r.opened.selection.outputs, o.expr.value S (Env.blank S) = S.null := by
  intro o ho
  have hopened : r.opened = ⟨r.asSource, .plain (Query.passThrough r.relation) none⟩ := if_pos h
  rw [hopened] at ho
  obtain ⟨name, _, rfl⟩ := List.mem_map.mp ho
  rfl

variable [DecidableEq α]

/-- What stands in for a row of the right plan is NULL in the columns taken from it exactly if its
outputs are. -/
theorem standIn_eq_null_iff (h : r.query.WellFormed) (t : Table α) :
    (∀ name ∈ t.restNames (r.query.table S db),
        (r.query.table S db).cell S (r.opened.selection.project S (Env.blank S)) name = S.null) ↔
      ∀ o ∈ r.opened.selection.outputs, o.name ∉ t.names →
        o.expr.value S (Env.blank S) = S.null := by
  have hnames : (r.query.table S db).names = r.opened.selection.outputs.map (·.name) :=
    (names_opened r).symm
  rw [Table.restNames, hnames]
  constructor
  · intro hnull o ho hnew
    rw [value_of_mem h ho]
    exact hnull o.name (List.mem_filter.mpr ⟨List.mem_map_of_mem ho, by simpa using hnew⟩)
  · intro hnull name hname
    obtain ⟨hmem, hnew⟩ := List.mem_filter.mp hname
    obtain ⟨o, ho, rfl⟩ := List.mem_map.mp hmem
    rw [← value_of_mem h ho]
    exact hnull o ho (by simpa using hnew)

/-- If a merge is a left one, every left row has a partner or all that is taken from the right is
NULL on a row of NULL. Either way there is nothing but NULL beside a left row without a partner. -/
def Pads (S : Scalars α) (db : Database α) (p r : Plan) (options : MergeOptions) : Prop :=
  options.kind = .ok .left → ∀ leftNames rightNames,
    options.keys p.names r.names = .ok (leftNames, rightNames) →
      (∀ l ∈ p.query.rows S db, ∃ row ∈ r.query.rows S db,
        (p.query.table S db).agree S (r.query.table S db) (leftNames.zip rightNames) l row = true) ∨
      ∀ o ∈ r.opened.selection.outputs, o.name ∉ p.names → o.expr.value S (Env.blank S) = S.null

/-- A merge of two plans has the columns of the merged tables, and their rows exactly if it pads. -/
theorem table_merge_iff (S : Scalars α) (db : Database α) (hp : p.query.WellFormed)
    (hr : r.query.WellFormed) (hpid : p.IdsBelow next) (hrid : r.IdsBelow next)
    (hq : p.merge r options next = .ok (q, next')) :
    ∃ kind leftNames rightNames, options.kind = .ok kind ∧
      options.keys p.names r.names = .ok (leftNames, rightNames) ∧
      q.names = p.names ++ r.names.filter (fun name => !p.names.contains name) ∧
      (q.table S db =
        (p.query.table S db).merge S (r.query.table S db) kind (leftNames.zip rightNames) ↔
        p.Pads S db r options) := by
  obtain ⟨kind, leftNames, rightNames, hkind, hkeys, htable⟩ := table_merge S db hp hr hpid hrid hq
  refine ⟨kind, leftNames, rightNames, hkind, hkeys, congrArg Table.names htable, ?_⟩
  rw [htable, Table.loop_eq_merge_iff, standIn_eq_null_iff hr, Pads, hkind, hkeys]
  constructor
  · intro h hleft _ _ heq
    cases heq
    exact h (Except.ok.inj hleft)
  · intro h hleft
    exact h (congrArg Except.ok hleft) leftNames rightNames rfl

/-- The rows of a left merge, with what the right outputs make of a row of NULL beside a left row
without a partner. -/
theorem rows_merge_left (S : Scalars α) (db : Database α) (hp : p.query.WellFormed)
    (hr : r.query.WellFormed) (hpid : p.IdsBelow next) (hrid : r.IdsBelow next)
    (hkind : options.kind = .ok .left) (hq : p.merge r options next = .ok (q, next')) :
    ∃ leftNames rightNames,
      options.keys p.names r.names = .ok (leftNames, rightNames) ∧
      q.rows S db = ((p.query.table S db).loop S (r.query.table S db)
        (r.opened.selection.project S (Env.blank S)) .left (leftNames.zip rightNames)).rows := by
  obtain ⟨kind, leftNames, rightNames, hkind', hkeys, htable⟩ := table_merge S db hp hr hpid hrid hq
  obtain rfl := Except.ok.inj (hkind.symm.trans hkind')
  exact ⟨leftNames, rightNames, hkeys, congrArg Table.rows htable⟩

/-- A left merge with a sealed plan is a left join. -/
theorem rows_merge_left_of_isSealed (hp : p.query.WellFormed) (hr : r.query.WellFormed)
    (hpid : p.IdsBelow next) (hrid : r.IdsBelow next) (hkind : options.kind = .ok .left)
    (hq : p.merge r options next = .ok (q, next')) (hsealed : r.isSealed = true) :
    ∃ leftNames rightNames,
      options.keys p.names r.names = .ok (leftNames, rightNames) ∧
      q.rows S db =
        (p.query.table S db).leftJoin S (r.query.table S db) (leftNames.zip rightNames) := by
  obtain ⟨leftNames, rightNames, hkeys, hrows⟩ := rows_merge_left S db hp hr hpid hrid hkind hq
  refine ⟨leftNames, rightNames, hkeys, hrows.trans (Table.rows_loop_eq_leftJoin.mpr (.inr ?_))⟩
  exact (standIn_eq_null_iff hr _).mpr fun o ho _ => value_blank_of_isSealed hsealed o ho

/-- A left merge is a left join exactly if every left row has a partner among the right ones, or
every output that is taken from the right is NULL on a row of NULL. -/
theorem rows_merge_left_iff (S : Scalars α) (db : Database α) (hp : p.query.WellFormed)
    (hr : r.query.WellFormed) (hpid : p.IdsBelow next) (hrid : r.IdsBelow next)
    (hkind : options.kind = .ok .left) (hq : p.merge r options next = .ok (q, next')) :
    ∃ leftNames rightNames,
      options.keys p.names r.names = .ok (leftNames, rightNames) ∧
      (q.rows S db =
        (p.query.table S db).leftJoin S (r.query.table S db) (leftNames.zip rightNames) ↔
        (∀ l ∈ p.query.rows S db, ∃ row ∈ r.query.rows S db,
            (p.query.table S db).agree S (r.query.table S db)
            (leftNames.zip rightNames) l row = true) ∨
          ∀ o ∈ r.opened.selection.outputs, o.name ∉ p.names →
            o.expr.value S (Env.blank S) = S.null) := by
  obtain ⟨leftNames, rightNames, hkeys, hrows⟩ := rows_merge_left S db hp hr hpid hrid hkind hq
  refine ⟨leftNames, rightNames, hkeys, ?_⟩
  rw [hrows, Table.rows_loop_eq_leftJoin, standIn_eq_null_iff hr]
  exact Iff.rfl

/-- All columns of the albums. -/
def albums : Plan := ⟨3, Query.ofTable 1 "albums" ["AlbumId", "Title"]⟩

/-- The albums with one more column that is always true. -/
def flagged : Plan :=
  ⟨4, { albums.query with
    selection :=
  .plain (albums.query.selection.outputs ++ [⟨"flag", .literal (.bool true)⟩]) none }⟩

end Plan

/-- A left merge on the column that both sides have. -/
def MergeOptions.left : MergeOptions := ⟨none, none, none, some "left"⟩

theorem Session.flagged : Session Catalog.music [Plan.flagged, Plan.albums, Plan.tracks] 5 := by
  have halbums : Session Catalog.music [Plan.albums, Plan.tracks] 4 :=
    .table Session.tracks (.tail _ (.head _))
  have hassign : Plan.albums.assign "flag" (.literal (.bool true)) = .ok Plan.flagged.query := rfl
  exact .step halbums (.assign (.head _) hassign)

/-- The albums themselves have no column but NULL for a track without an album. -/
theorem Plan.rows_merge_left_iff_albums : ∃ q next',
    Plan.tracks.query.WellFormed ∧ Plan.albums.query.WellFormed ∧ Plan.tracks.IdsBelow 5 ∧
    Plan.albums.IdsBelow 5 ∧
      MergeOptions.left.kind = .ok .left ∧ Plan.tracks.merge Plan.albums .left 5 = .ok (q, next') ∧
      q.rows Scalars.integers Database.music =
        (Plan.tracks.query.table Scalars.integers Database.music).leftJoin Scalars.integers
          (Plan.albums.query.table Scalars.integers Database.music) [("AlbumId", "AlbumId")] := by
  have hplans := (Session.flagged.wellFormed Catalog.wellFormed_music).2
  obtain ⟨htracks, htid⟩ := hplans Plan.tracks (.tail _ (.tail _ (.head _)))
  obtain ⟨halbums, haid⟩ := hplans Plan.albums (.tail _ (.head _))
  have hnulls : ∀ o ∈ Plan.albums.opened.selection.outputs, o.name ∉ Plan.tracks.names →
      o.expr.value Scalars.integers (Env.blank Scalars.integers) = Scalars.integers.null := by
    intro o ho _
    obtain ⟨_, _, rfl⟩ := List.mem_map.mp ho
    rfl
  have hkind : MergeOptions.left.kind = .ok .left := rfl
  refine ⟨_, _, htracks, halbums, htid, haid, hkind, rfl, ?_⟩
  obtain ⟨_, _, hkeys, hrows⟩ :=
    Plan.rows_merge_left_iff Scalars.integers Database.music htracks halbums htid haid hkind rfl
  cases hkeys
  exact hrows.mpr (.inr hnulls)

/-- The third track has no album, and still it is flagged. -/
theorem Plan.rows_merge_left_flagged : ∃ q next',
    Session Catalog.music [Plan.flagged, Plan.albums, Plan.tracks] 5 ∧
      Plan.tracks.merge Plan.flagged .left 5 = .ok (q, next') ∧
      q.names = ["TrackId", "AlbumId", "Name", "Title", "flag"] ∧
      q.rows Scalars.integers Database.music =
        [[some 1, some 7, none, none, some 1], [some 2, some 7, none, none, some 1],
          [some 3, some 8, none, none, some 1]] ∧
      Plan.flagged.query.rows Scalars.integers Database.music = [[some 7, none, some 1]] ∧
      q.rows Scalars.integers Database.music ≠
        (Plan.tracks.query.table Scalars.integers Database.music).leftJoin Scalars.integers
          (Plan.flagged.query.table Scalars.integers Database.music) [("AlbumId", "AlbumId")] := by
  refine ⟨_, _, Session.flagged, rfl, rfl, rfl, rfl, ?_⟩
  decide

end LazyFrame
