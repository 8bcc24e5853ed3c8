import LazyFrame.Proofs.Rows.Multiplicity

/-!
# Inner merges are equi-joins

The rows of an inner merge are those of the equi-join of the two tables: in the order of the nested
loop each left row beside each right row that agrees with it on the keys, without the right columns
whose names the left side has (`Plan.rows_merge_inner`).

The two plans may read the same relations, or be the same plan. The equi-join takes no notice of
that, since it is made of tables and tables have no identities. So a right plan that was built again
over other identities gives the same rows, however many of them the left plan reads as well. It is
also accepted by the same merges, for they look at the names of the right side only
(`Plan.exists_merge_of_names`).
-/

namespace LazyFrame

variable {α : Type}

namespace Plan

variable {p r : Plan} {q : Query} {options : MergeOptions} {next next' : Nat}

/-- A right plan is as good for a merge as any other one with its names. -/
theorem exists_merge_of_names (hq : p.merge r options next = .ok (q, next')) {r' : Plan}
    (hnames : r'.names = r.names) (next₂ : Nat) :
    ∃ q₂ next₂', p.merge r' options next₂ = .ok (q₂, next₂') := by
  obtain ⟨kind, leftNames, rightNames, keys, hkind, hoptions, hkeys, _⟩ := merge_eq_ok.mp hq
  have hsame : r'.opened.names = r.opened.names := by rw [names_opened, names_opened, hnames]
  have hpairs : ∀ names ∈ leftNames.zip rightNames, ∃ key : JoinKey, p.opened.lookup names.1 =
      .ok key.left ∧ (p.rebased r' next₂).lookup names.2 = .ok key.right := by
    intro names hmem
    obtain ⟨key, hleft, hright⟩ := Attempt.exists_of_mem_left hkeys hmem
    obtain ⟨o, ho, hname, _⟩ := Query.lookup_eq_ok hright
    have hright' : names.2 ∈ (p.rebased r' next₂).names := by
      rw [names_rebased, hsame, ← names_rebased p r next, ← hname]
      exact List.mem_map_of_mem ho
    obtain ⟨e, he⟩ := Query.exists_lookup hright'
    exact ⟨⟨key.left, e⟩, hleft, he⟩
  obtain ⟨keys', hkeys'⟩ := Attempt.exists_forall₂_iff.mpr hpairs
  exact ⟨_, _, merge_eq_ok.mpr ⟨kind, leftNames, rightNames, keys', hkind, hsame ▸ hoptions,
    hkeys', rfl, rfl⟩⟩

variable [DecidableEq α]

/-- An inner merge of any two plans has the rows of the equi-join of their tables on the key columns
that the options ask for. The right plan may be replaced by one that differs from it in identities
only. -/
theorem rows_merge_inner (S : Scalars α) (db : Database α) (hp : p.query.WellFormed)
    (hr : r.query.WellFormed) (hpid : p.IdsBelow next) (hrid : r.IdsBelow next)
    (hkind : options.kind = .ok .inner) (hq : p.merge r options next = .ok (q, next')) :
    ∃ leftNames rightNames,
      options.keys p.names r.names = .ok (leftNames, rightNames) ∧
      q.names = p.names ++ r.names.filter (fun name => !p.names.contains name) ∧
      q.rows S db =
        (p.query.table S db).equijoin S (r.query.table S db) (leftNames.zip rightNames) ∧
      ∀ (r' : Plan) (next₂ : Nat), r.query.Relabelled r'.query → p.IdsBelow next₂ →
        r'.IdsBelow next₂ →
        ∃ q₂ next₂', p.merge r' options next₂ = .ok (q₂, next₂') ∧ q₂.names = q.names ∧
          q₂.rows S db = q.rows S db := by
  obtain ⟨kind, leftNames, rightNames, hkind', hkeys, htable⟩ := table_merge S db hp hr hpid hrid hq
  obtain rfl := Except.ok.inj (hkind.symm.trans hkind')
  refine ⟨leftNames, rightNames, hkeys, congrArg Table.names htable, congrArg Table.rows htable, ?_⟩
  intro r' next₂ hsame hpid₂ hrid'
  have hnames : r'.names = r.names := hsame.names
  obtain ⟨q₂, next₂', hq₂⟩ := exists_merge_of_names hq hnames next₂
  obtain ⟨kind₂, left₂, right₂, hkind₂, hkeys₂, htable₂⟩ :=
    table_merge S db hp (hsame.wellFormed hr) hpid₂ hrid' hq₂
  -- the options ask for the same merge, and the tables that it takes are the same
  obtain rfl := Except.ok.inj (hkind.symm.trans hkind₂)
  rw [hnames, hkeys] at hkeys₂
  cases hkeys₂
  have heq : q₂.table S db = q.table S db := htable₂.trans (by rw [htable, hsame.table hr]; rfl)
  exact ⟨q₂, next₂', hq₂, congrArg Table.names heq, congrArg Table.rows heq⟩

/-- The early tracks, built again over relations of their own. -/
def earlyTracksAgain : Plan := ⟨20, earlyTracks.query.under fun r => r.id + 10⟩

end Plan

/-- The tracks merged with the early ones of the same album, over the one table and over a second
reading of it. The third track has no partner. -/
theorem Plan.rows_merge_inner_earlyTracks : ∃ q next' q₂ next₂',
    Plan.tracks.query.WellFormed ∧ Plan.earlyTracks.query.WellFormed ∧ Plan.tracks.IdsBelow 4 ∧
      Plan.earlyTracks.IdsBelow 4 ∧
      (MergeOptions.mk (some ["AlbumId"]) none none none).kind = .ok .inner ∧
      Plan.tracks.merge Plan.earlyTracks ⟨some ["AlbumId"], none, none, none⟩ 4 = .ok (q, next') ∧
      q.rows Scalars.integers Database.music =
        [[some 1, some 7, none], [some 1, some 7, none], [some 2, some 7, none],
          [some 2, some 7, none]] ∧
      Plan.earlyTracks.query.Relabelled Plan.earlyTracksAgain.query ∧
      Plan.tracks.merge Plan.earlyTracksAgain ⟨some ["AlbumId"], none, none, none⟩ 21 =
        .ok (q₂, next₂') ∧
      q₂.rows Scalars.integers Database.music = q.rows Scalars.integers Database.music := by
  have hplans := (Session.earlyTracks.wellFormed Catalog.wellFormed_music).2
  obtain ⟨htracks, htid⟩ := hplans Plan.tracks (.tail _ (.head _))
  obtain ⟨hearly, heid⟩ := hplans Plan.earlyTracks (.head _)
  have hkind : (MergeOptions.mk (some ["AlbumId"]) none none none).kind = .ok .inner := rfl
  have happart : Apart (fun r => r.id + 10) Plan.earlyTracks.query.occurring := by
    refine .of_injective fun r s h => ?_
    cases r
    cases s
    simpa [Relation.under] using h
  have hagain : Plan.earlyTracks.query.Relabelled Plan.earlyTracksAgain.query :=
    Query.relabelled_under happart
  have haid : Plan.earlyTracksAgain.IdsBelow 21 := by
    refine ⟨by decide, fun r hr => ?_⟩
    rw [List.mem_singleton.mp hr]
    decide
  have hmerge :
      ∃ q next', Plan.tracks.merge Plan.earlyTracks ⟨some ["AlbumId"], none, none, none⟩ 4 =
        .ok (q, next') :=
    ⟨_, _, rfl⟩
  obtain ⟨q, next', hq⟩ := hmerge
  obtain ⟨leftNames, rightNames, hkeys, _, hrows, hrebuilt⟩ :=
    Plan.rows_merge_inner Scalars.integers Database.music htracks hearly htid heid hkind hq
  cases hkeys
  obtain ⟨q₂, next₂', hq₂, _, hrows₂⟩ :=
    hrebuilt Plan.earlyTracksAgain 21 hagain (htid.mono (by decide)) haid
  exact ⟨q, next', q₂, next₂', htracks, hearly, htid, heid, hkind, hq,
    hrows.trans (by decide +kernel), hagain, hq₂, hrows₂⟩

end LazyFrame
