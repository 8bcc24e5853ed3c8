import LazyFrame.Proofs.Faults.Proper
import LazyFrame.Proofs.Scope.Session

/-!
# Which merges are accepted

The options of a merge say which columns of both plans are compared. `MergeOptions.Means` tells the
three ways in which they can do so, by the names of the two plans alone: columns of the same names,
columns of each side, or the one column that both plans have. A merge succeeds exactly when the
options have such a meaning and ask for a kind of join that there is (`Plan.exists_merge_iff`). The
checks of the options do not see to that alone: the names given for one side are not looked at
before the columns behind them are taken.
-/

namespace LazyFrame

/-! ## What options mean -/

namespace MergeOptions

/-- The options stand for these key columns, pair by pair, of plans with such outputs. -/
inductive Means (left right : List String) : MergeOptions → List String → List String → Prop where
  | common {names : List String} {how? : Option String} (hne : names ≠ [])
      (hknown : ∀ name ∈ names, name ∈ left ∧ name ∈ right) :
      Means left right ⟨some names, none, none, how?⟩ names names
  | own {l r : List String} {how? : Option String} (hne : l ≠ []) (hlength : l.length = r.length)
    (hleft : l ⊆ left) (hright : r ⊆ right) : Means left right ⟨none, some l, some r, how?⟩ l r
  | only {name : String} {how? : Option String}
    (honly : ∀ other, (other ∈ left ∧ other ∈ right) ↔ other = name) :
      Means left right ⟨none, none, none, how?⟩ [name] [name]

namespace Means

variable {left right l r : List String} {o : MergeOptions}

theorem length_eq (h : Means left right o l r) : l.length = r.length := by
  cases h with
  | common | only => rfl
  | own _ hlength => exact hlength

theorem subset_left (h : Means left right o l r) : l ⊆ left := by
  cases h with
  | common _ hknown => exact fun name hname => (hknown name hname).1
  | own _ _ hleft => exact hleft
  | only honly => exact List.cons_subset.mpr ⟨((honly _).mpr rfl).1, List.nil_subset _⟩

theorem subset_right (h : Means left right o l r) : r ⊆ right := by
  cases h with
  | common _ hknown => exact fun name hname => (hknown name hname).2
  | own _ _ _ hright => exact hright
  | only honly => exact List.cons_subset.mpr ⟨((honly _).mpr rfl).2, List.nil_subset _⟩

end Means

/-- There are two kinds of joins, and an inner one is meant where none is named. -/
theorem exists_kind_iff {o : MergeOptions} :
    (∃ kind, o.kind = .ok kind) ↔ o.how? = none ∨ o.how? = some "inner" ∨ o.how? = some "left" := by
  obtain ⟨on?, leftOn?, rightOn?, how?⟩ := o
  cases how? with
  | none => simp [kind, JoinKind.ofName?]
  | some how =>
    by_cases hinner : how = "inner"
    · simp [kind, JoinKind.ofName?, hinner]
    · by_cases hleft : how = "left"
      · simp [kind, JoinKind.ofName?, hleft]
      · simp [kind, JoinKind.ofName?, hinner, hleft]

/-- Two lists of names share exactly one name when one is left of the first after the second has
been looked into. -/
theorem filter_contains_eq_singleton {left right : List String} (hnodup : left.Nodup)
    {name : String} :
    left.filter right.contains = [name] ↔ ∀ other, (other ∈ left ∧ other ∈ right) ↔
    other = name := by
  have hmem (other : String) : other ∈ left.filter right.contains ↔
      other ∈ left ∧ other ∈ right := by
    rw [List.mem_filter, List.contains_iff_mem]
  constructor
  · intro h other
    rw [← hmem, h, List.mem_singleton]
  · intro h
    refine List.perm_singleton.mp
      ((List.perm_ext_iff_of_nodup (hnodup.filter _) (List.nodup_singleton name)).mpr ?_)
    intro other
    rw [hmem, h, List.mem_singleton]

/-- The three ways in which the checks let key columns pass. Names that a side gives for itself pass
unseen. -/
theorem requested_cases {o : MergeOptions} {left right l r : List String}
    (h : o.requested left right = .ok (l, r)) :
    (∃ how?, o = ⟨some l, none, none, how?⟩ ∧ r = l) ∨
      (∃ how?, o = ⟨none, some l, some r, how?⟩ ∧ l.length = r.length) ∨
      ∃ how? name, o = ⟨none, none, none, how?⟩ ∧ left.filter right.contains = [name] ∧ l = [name] ∧
        r = [name] := by
  obtain ⟨on?, leftOn?, rightOn?, how?⟩ := o
  unfold requested at h
  -- one case for each way to give the keys; most combinations are refused
  split at h
  next hon hl hr =>
    obtain ⟨_, hnames⟩ := Attempt.check_bind_eq_ok.mp h
    cases hnames
    cases hon
    cases hl
    cases hr
    exact .inl ⟨how?, rfl, rfl⟩
  next => cases h
  next hon hl hr =>
    cases hon
    cases hl
    cases hr
    split at h
    next hlength =>
      cases h
      exact .inr (.inl ⟨how?, rfl, hlength⟩)
    next => cases h
  next => cases h
  next => cases h
  next hon hl hr =>
    cases hon
    cases hl
    cases hr
    split at h
    next name hshared =>
      cases h
      exact .inr (.inr ⟨how?, name, rfl, hshared, rfl, rfl⟩)
    next => cases h
    next => cases h

theorem keys_eq_ok {o : MergeOptions} {left right l r : List String} :
    o.keys left right = .ok (l, r) ↔ o.requested left right = .ok (l, r) ∧ l ≠ [] := by
  unfold keys
  rw [Attempt.bind_eq_ok]
  constructor
  · intro h
    obtain ⟨⟨l', r'⟩, hrequested, h⟩ := h
    obtain ⟨hne, hnames⟩ := Attempt.guard_eq_ok.mp h
    cases hnames
    exact ⟨hrequested, fun hnil => hne (List.isEmpty_iff.mpr hnil)⟩
  · intro h
    exact ⟨(l, r), h.1,
      Attempt.guard_eq_ok.mpr ⟨fun hempty => h.2 (List.isEmpty_iff.mp hempty), rfl⟩⟩

theorem length_eq_of_keys {o : MergeOptions} {left right l r : List String}
    (h : o.keys left right = .ok (l, r)) : l.length = r.length := by
  obtain ⟨_, _, rfl⟩ | ⟨_, _, hlength⟩ | ⟨_, _, _, _, rfl, rfl⟩ :=
    requested_cases (keys_eq_ok.mp h).1
  · rfl
  · exact hlength
  · rfl

/-- What options mean is what their checks let pass, where both plans have the columns. -/
theorem means_iff {o : MergeOptions} {left right l r : List String} (hnodup : left.Nodup) :
    Means left right o l r ↔ o.keys left right = .ok (l, r) ∧ l ⊆ left ∧ r ⊆ right := by
  constructor
  · intro h
    refine ⟨keys_eq_ok.mpr ?_, h.subset_left, h.subset_right⟩
    cases h with
    | common hne hknown =>
      refine ⟨Attempt.check_bind_eq_ok.mpr ⟨Attempt.forM_eq_ok.mpr fun name hname => ?_, rfl⟩, hne⟩
      simp [hknown name hname]
    | own hne hlength => exact ⟨if_pos hlength, hne⟩
    | @only name _ honly =>
      have hshared := (filter_contains_eq_singleton hnodup).mpr honly
      exact ⟨by simp only [requested, hshared], List.cons_ne_nil _ _⟩
  · intro h
    obtain ⟨hkeys, hleft, hright⟩ := h
    obtain ⟨hrequested, hne⟩ := keys_eq_ok.mp hkeys
    obtain ⟨_, rfl, rfl⟩ | ⟨_, rfl, hlength⟩ | ⟨_, name, rfl, hshared, rfl, rfl⟩ :=
      requested_cases hrequested
    · exact .common hne fun name hname => ⟨hleft hname, hright hname⟩
    · exact .own hne hlength hleft hright
    · exact .only ((filter_contains_eq_singleton hnodup).mp hshared)

end MergeOptions

/-! ## Merges -/

theorem Query.lookup_faults (q : Query) (name : String) :
    Attempt.Ends Fault.OfMerge (fun _ => True) (q.lookup name) := by
  unfold lookup
  cases q.selection.outputs.find? (·.name == name) with
  | some o => exact .ok trivial
  | none => exact .error (.column _ _)

namespace Plan

variable {p r : Plan} {o : MergeOptions} {next : Nat}

/-- The columns that the left names stand for on the left side, and the right names on the right
side, pair by pair. -/
abbrev Pairs (p r : Plan) (next : Nat) (pairs : List (String × String))
    (keys : List JoinKey) : Prop :=
  List.Forall₂ (fun names key => p.opened.lookup names.1 = .ok key.left ∧
    (p.rebased r next).lookup names.2 = .ok key.right) pairs keys

/-- Both sides have columns for pairs of names exactly when the names are theirs. -/
theorem exists_pairs_iff {l rs : List String} (hlength : l.length = rs.length) :
    (∃ keys, p.Pairs r next (l.zip rs) keys) ↔ l ⊆ p.names ∧ rs ⊆ r.names := by
  have hside (names : String × String) : (∃ key : JoinKey, p.opened.lookup names.1 = .ok key.left ∧
      (p.rebased r next).lookup names.2 = .ok key.right) ↔ names.1 ∈ p.names ∧
      names.2 ∈ r.names := by
    rw [← names_opened p, ← names_opened r, ← names_rebased p r next, ← Query.exists_lookup_iff,
      ← Query.exists_lookup_iff]
    constructor
    · intro h
      obtain ⟨key, hleft, hright⟩ := h
      exact ⟨⟨key.left, hleft⟩, key.right, hright⟩
    · intro h
      obtain ⟨⟨left, hleft⟩, right, hright⟩ := h
      exact ⟨⟨left, right⟩, hleft, hright⟩
  -- the lists are equally long, so pairing them loses no name
  have hl : (l.zip rs).map Prod.fst = l := List.map_fst_zip (Nat.le_of_eq hlength)
  have hrs : (l.zip rs).map Prod.snd = rs := List.map_snd_zip (Nat.le_of_eq hlength.symm)
  rw [Attempt.exists_forall₂_iff]
  simp only [hside]
  constructor
  · intro h
    refine ⟨fun name hname => ?_, fun name hname => ?_⟩
    · rw [← hl] at hname
      obtain ⟨names, hnames, rfl⟩ := List.mem_map.mp hname
      exact (h names hnames).1
    · rw [← hrs] at hname
      obtain ⟨names, hnames, rfl⟩ := List.mem_map.mp hname
      exact (h names hnames).2
  · intro h names hnames
    exact ⟨h.1 (List.of_mem_zip hnames).1, h.2 (List.of_mem_zip hnames).2⟩

/-- A merge compares the columns that its options mean. -/
theorem merge_eq_ok_iff_means (hp : p.query.WellFormed) {q : Query} {next' : Nat} :
    p.merge r o next = .ok (q, next') ↔ ∃ kind l rs keys, o.kind = .ok kind ∧
    o.Means p.names r.names l rs ∧
      p.Pairs r next (l.zip rs) keys ∧ q = p.opened.joinOn (p.rebased r next) kind keys ∧
      next' = next + (p.opened.shared r.opened).length := by
  have hmeans {l rs : List String} {keys : List JoinKey} (hkeys : p.Pairs r next (l.zip rs) keys) :
      o.keys p.names r.names = .ok (l, rs) ↔ o.Means p.names r.names l rs := by
    have hnodup : p.names.Nodup := hp.selection.names_nodup
    rw [MergeOptions.means_iff hnodup]
    constructor
    · intro h
      exact ⟨h, (exists_pairs_iff (MergeOptions.length_eq_of_keys h)).mp ⟨keys, hkeys⟩⟩
    · exact fun h => h.1
  rw [merge_eq_ok, names_opened, names_opened]
  constructor
  · intro h
    obtain ⟨kind, l, rs, keys, hkind, hnames, hkeys, h⟩ := h
    exact ⟨kind, l, rs, keys, hkind, (hmeans hkeys).mp hnames, hkeys, h⟩
  · intro h
    obtain ⟨kind, l, rs, keys, hkind, hnames, hkeys, h⟩ := h
    exact ⟨kind, l, rs, keys, hkind, (hmeans hkeys).mpr hnames, hkeys, h⟩

theorem exists_merge_iff (hp : p.query.WellFormed) :
    (∃ made, p.merge r o next = .ok made) ↔
    (o.how? = none ∨ o.how? = some "inner" ∨ o.how? = some "left") ∧
      ∃ l rs, o.Means p.names r.names l rs := by
  rw [← MergeOptions.exists_kind_iff]
  constructor
  · intro h
    obtain ⟨⟨q, next'⟩, hq⟩ := h
    obtain ⟨kind, l, rs, _, hkind, hmeans, _⟩ := (merge_eq_ok_iff_means hp).mp hq
    exact ⟨⟨kind, hkind⟩, l, rs, hmeans⟩
  · intro h
    obtain ⟨⟨kind, hkind⟩, l, rs, hmeans⟩ := h
    have hpairs : ∃ keys, p.Pairs r next (l.zip rs) keys :=
      (exists_pairs_iff hmeans.length_eq).mpr ⟨hmeans.subset_left, hmeans.subset_right⟩
    obtain ⟨keys, hkeys⟩ := hpairs
    exact ⟨_, (merge_eq_ok_iff_means hp).mpr ⟨kind, l, rs, keys, hkind, hmeans, hkeys, rfl, rfl⟩⟩

/-- A merge fails with a fault of a merge only: the columns are looked up after the checks, and a
lookup fails by an unknown column. -/
theorem merge_faults (p r : Plan) (o : MergeOptions) (next : Nat) :
    Attempt.Ends Fault.OfMerge (fun _ => True) (p.merge r o next) := by
  refine o.kind_faults.bind fun kind _ => (o.keys_faults _ _).bind fun names _ => ?_
  refine Attempt.Ends.bind (Q := fun _ => True) ?_ fun keys _ => .ok trivial
  refine Attempt.Ends.mono (Attempt.Ends.mapM (Q := fun _ => True) fun names _ => ?_) (fun _ h => h)
    fun _ _ => trivial
  exact (Query.lookup_faults _ _).bind fun _ _ =>
    (Query.lookup_faults _ _).bind fun _ _ => .ok trivial

/-- What a merge accepts, what it makes and how it fails. -/
structure MergeContract (p r : Plan) (o : MergeOptions) (next : Nat) : Prop where
  accepts : (∃ made, p.merge r o next = .ok made) ↔
    (o.how? = none ∨ o.how? = some "inner" ∨ o.how? = some "left") ∧
    ∃ l rs, o.Means p.names r.names l rs
  source : ∀ q next', p.merge r o next = .ok (q, next') → ∃ kind l rs keys condition?,
    o.kind = .ok kind ∧ o.Means p.names r.names l rs ∧ p.Pairs r next (l.zip rs) keys ∧
    keys.length = l.length ∧
      q.source = .join p.opened.source (p.rebased r next).source kind keys condition?
  names : ∀ q next', p.merge r o next = .ok (q, next') →
    q.names = p.names ++ r.names.filter (fun name => !p.names.contains name) ∧ q.names.Nodup
  faults : ∀ f, p.merge r o next = .error f → f.OfMerge

theorem mergeContract (hp : p.query.WellFormed) (hr : r.query.WellFormed) (o : MergeOptions)
    (next : Nat) : p.MergeContract r o next := by
  refine ⟨exists_merge_iff hp, fun q next' hq => ?_, fun q next' hq => ?_,
    fun f hf => (p.merge_faults r o next).of_error hf⟩
  · obtain ⟨kind, l, rs, keys, hkind, hmeans, hkeys, rfl, _⟩ := (merge_eq_ok_iff_means hp).mp hq
    obtain ⟨condition?, hsource⟩ := Query.exists_source_joinOn p.opened (p.rebased r next) kind keys
    have hlength : keys.length = l.length := by
      rw [← hkeys.length_eq, List.length_zip, hmeans.length_eq, Nat.min_self]
    exact ⟨kind, l, rs, keys, condition?, hkind, hmeans, hkeys, hlength, hsource⟩
  · obtain ⟨kind, l, rs, keys, _, _, _, rfl, _⟩ := (merge_eq_ok_iff_means hp).mp hq
    have hleft : p.opened.names.Nodup := hp.opened.selection.names_nodup
    have hright : (p.rebased r next).names.Nodup := by
      rw [names_rebased]
      exact hr.opened.selection.names_nodup
    refine ⟨?_, Query.nodup_names_joinOn hleft hright kind keys⟩
    rw [Query.names_joinOn, names_rebased, names_opened, names_opened]

/-- A table merged with itself on one of the three names that both sides share. -/
theorem mergeContract_tracks : Plan.tracks.query.WellFormed ∧
    Plan.tracks.MergeContract Plan.tracks ⟨some ["AlbumId"], none, none, none⟩ 3 ∧
    ∃ made, Plan.tracks.merge Plan.tracks ⟨some ["AlbumId"], none, none, none⟩ 3 = .ok made := by
  have hwf : Plan.tracks.query.WellFormed := .ofTable (by decide) (by decide)
  have hcontract := mergeContract hwf hwf ⟨some ["AlbumId"], none, none, none⟩ 3
  exact ⟨hwf, hcontract, hcontract.accepts.mpr ⟨.inl rfl, _, _, .common (by decide) (by decide)⟩⟩

end Plan

end LazyFrame
