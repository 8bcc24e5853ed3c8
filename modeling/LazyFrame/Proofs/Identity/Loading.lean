import LazyFrame.Proofs.Identity.Build
import LazyFrame.Proofs.Scope.Session

/-!
# What was built before does not show

A catalog is loaded by asking a database for its tables and their columns. What it holds is told by
the answers alone, except for the identities of the tables, which are counted from the one that the
load was given (`Catalog.loadedFrom_iff`).

Two catalogs with the same tables need not correspond to each other under any injective map of
identities: the gap between the last table and the identity that comes next may be of any size, and
there may be no room for it on the other side. But both correspond to the catalog whose identities
start at zero and that has built nothing yet (`Catalog.alike_listed`). So a description has one text
over all of them, whatever was built before (`sql_depends_on_structure_only`).
-/

namespace LazyFrame

/-! ## Surroundings that answer -/

section Asking

variable {I : Interface} {α β σ : Type} {serve : (r : I.Request) → σ → I.Answer r × σ}

/-- One computation after the other: the second one is served in the state that the first one
leaves. -/
theorem Asking.run_bind (x : Asking I α) (f : α → Asking I β) (s : σ) :
    (x >>= f).run.run serve s =
      match x.run.run serve s with
      | (.ok a, t) => (f a).run.run serve t
      | (.error e, t) => (.error e, t) := by
  refine (Dialogue.run_bind serve x.run _ s).trans ?_
  cases x.run.run serve s with
  | mk result t => cases result <;> rfl

/-- Going on with the outcome goes on with whatever came out. -/
theorem Asking.run_outcome (x : Asking I α) (s : σ) :
    (Asking.outcome x).run.run serve s = (.ok (x.run.run serve s).1, (x.run.run serve s).2) :=
  Dialogue.run_bind serve x.run _ s

end Asking

/-- Surroundings with a state of their own. -/
abbrev Surroundings (σ : Type) := (r : Outside.Request) → σ → Outside.Answer r × σ

/-- The tables of a database and the columns of each. -/
structure Listing where
  names : List String
  columns : String → List Column

namespace Listing

/-- The surroundings list these tables and columns over a connection, whatever else they do. -/
structure IsAnsweredBy (l : Listing) {σ : Type} (serve : Surroundings σ)
    (connection : Nat) : Prop where
  names : ∀ s, (serve (.listTables connection) s).1 = .ok l.names
  columns : ∀ name s, (serve (.listColumns connection name) s).1 = .ok (l.columns name)

/-- The tables of a listing under identities from `first` on; a name that is listed twice is one
table. -/
def tables (l : Listing) (first : Nat) : List TableInfo :=
  (l.names.eraseDups.zipIdx first).map fun entry => ⟨entry.2, entry.1, l.columns entry.1⟩

/-- Surroundings that know nothing but a listing. -/
def surroundings (l : Listing) : Surroundings Unit
  | .connect _, _ => (.error (.unclassified "no connection"), ())
  | .listTables _, _ => (.ok l.names, ())
  | .listColumns _ name, _ => (.ok (l.columns name), ())
  | .execute _ _, _ => (.ok (.list []), ())
  | .ping _, _ => (.ok (), ())
  | .log _, _ => ((), ())
  | .now, _ => (0, ())

theorem isAnsweredBy_surroundings (l : Listing) (connection : Nat) :
    l.IsAnsweredBy l.surroundings connection :=
  ⟨fun _ => rfl, fun _ _ => rfl⟩

end Listing

namespace Catalog

/-! ## Loading -/

/-- A catalog that was loaded from surroundings with this listing, under identities from `first`
on. -/
def LoadedFrom (c : Catalog) (l : Listing) (first : Nat) : Prop :=
  ∃ (σ : Type) (serve : Surroundings σ) (connection : Connection)
    (wanted? : Option Dialect) (s s' : σ),
    l.IsAnsweredBy serve connection.id ∧
    (load connection wanted? first).run.run serve s = (.ok c, s')

variable {l : Listing} {σ : Type} {serve : Surroundings σ} {connection : Nat}

/-- The names that come first are kept, and each takes one identity. The induction is on the names;
what is known already is left out of the rest. -/
theorem loadTables_run (h : l.IsAnsweredBy serve connection) (names : List String)
    (known : List TableInfo) (next : Nat) (s : σ) :
    ((loadTables connection known names next).run.run serve s).1 =
      .ok (known ++
        ((names.filter fun name => !known.any (·.name == name)).eraseDups.zipIdx next).map
          fun entry => ⟨entry.2, entry.1, l.columns entry.1⟩) := by
  induction names generalizing known next s with
  | nil =>
    rw [List.filter_nil, List.eraseDups_nil, List.zipIdx_nil, List.map_nil, List.append_nil]
    rfl
  | cons name rest ih =>
    unfold loadTables
    by_cases hknown : known.any (·.name == name) = true
    · rw [if_pos hknown, ih, List.filter_cons_of_neg (by simpa using hknown)]
    · -- the name is new: it is asked for, and known from here on
      have hrest :
          (rest.filter fun other =>
            !(known ++ [TableInfo.mk next name (l.columns name)]).any (·.name == other)) =
          (rest.filter fun other => !known.any (·.name == other)).filter fun other =>
            !other == name := by
        rw [List.filter_filter]
        refine List.filter_congr fun other _ => ?_
        rw [List.any_append, List.any_cons, List.any_nil, Bool.or_false, Bool.not_or,
          Bool.and_comm, BEq.comm]
      have hcolumns : ((Job.listColumns connection name).run.run serve s).1 =
          .ok (l.columns name) := h.columns name s
      rw [if_neg hknown, Asking.run_bind]
      cases hrun : (Job.listColumns connection name).run.run serve s with
      | mk result t =>
        rw [hrun] at hcolumns
        simp only at hcolumns
        subst hcolumns
        simp only
        rw [ih, hrest, List.filter_cons_of_pos (by simpa using hknown), List.eraseDups_cons,
          List.zipIdx_cons, List.map_cons, List.append_assoc]
        rfl

/-- A catalog is loaded with the tables of the listing. -/
theorem load_run {connection : Connection} (h : l.IsAnsweredBy serve connection.id)
    (wanted? : Option Dialect) (first : Nat) (s : σ) :
    ((load connection wanted? first).run.run serve s).1 =
      .ok ⟨connection.id, (wanted?.or connection.dialect?).getD .sqlite, l.tables first⟩ := by
  have htables (t : σ) : (((Job.listTables connection.id >>= fun names =>
      loadTables connection.id [] names first) : Job _).run.run serve t).1 =
        .ok (l.tables first) := by
    have hnames : ((Job.listTables connection.id).run.run serve t).1 = .ok l.names := h.names t
    rw [Asking.run_bind]
    cases hrun : (Job.listTables connection.id).run.run serve t with
    | mk result t' =>
      rw [hrun] at hnames
      simp only at hnames
      subst hnames
      -- nothing is known at first, so no name is left out
      have hall :
          (l.names.filter fun name => !([] : List TableInfo).any (·.name == name)) = l.names :=
        List.filter_true l.names
      simp only
      rw [loadTables_run h, hall]
      rfl
  unfold load
  rw [Asking.run_bind]
  show (Dialogue.run serve (ExceptT.run (Asking.outcome (I := Outside.interface) _ >>= _)) _).1 = _
  rw [Asking.run_bind, Asking.run_outcome]
  simp only [htables]
  rfl

/-- A catalog holds the tables of the listing that it was loaded from, and every such catalog can be
loaded. -/
theorem loadedFrom_iff {c : Catalog} {first : Nat} :
    c.LoadedFrom l first ↔ c.tables = l.tables first := by
  constructor
  · intro h
    obtain ⟨σ, serve, connection, wanted?, s, s', hanswered, hrun⟩ := h
    have hload := load_run hanswered wanted? first s
    rw [hrun] at hload
    rw [Except.ok.inj hload]
  · intro h
    let connection : Connection := ⟨c.connection, some c.dialect, false⟩
    have hanswered : l.IsAnsweredBy l.surroundings connection.id := l.isAnsweredBy_surroundings _
    have hload := load_run hanswered none first ()
    refine ⟨Unit, l.surroundings, connection, none, (), (), hanswered, ?_⟩
    refine Prod.ext (hload.trans (congrArg Except.ok ?_)) rfl
    cases c
    rw [← h]
    rfl

/-! ## Corresponding identities -/

/-- The catalog of a listing that counts its identities from zero. -/
def listed (l : Listing) (d : Dialect) : Catalog := ⟨0, d, l.tables 0⟩

/-- The identities of `count` tables from `first` on, and those from `next` on behind them. -/
def identities (first count next : Nat) (r : Relation) : Nat :=
  if r.id < count then first + r.id else next + (r.id - count)

theorem injective_identities {first count next : Nat} (h : ∀ i < count, first + i < next) :
    Function.Injective (Relation.under (identities first count next)) := by
  intro r s heq
  simp only [Relation.under, Relation.mk.injEq] at heq
  obtain ⟨hid, horigin, hcolumns⟩ := heq
  have hsame : r.id = s.id := by
    simp only [identities] at hid
    split at hid
    · next hr =>
      have := h r.id hr
      split at hid
      · omega
      · omega
    · split at hid
      · next hs =>
        have := h s.id hs
        omega
      · omega
  cases r
  cases s
  simp only at hsame horigin hcolumns
  rw [hsame, horigin, hcolumns]

theorem continues_identities (first count next : Nat) :
    Continues (identities first count next) count next := by
  intro k origin columns
  simp only [identities]
  split <;> omega

/-- The tables of a listing correspond to those of the catalog that counts from zero. -/
theorem alike_listed {c : Catalog} {first : Nat} (next : Nat) (h : c.tables = l.tables first) :
    (listed l c.dialect).Alike (identities first l.names.eraseDups.length next) c := by
  refine ⟨rfl, ?_⟩
  rw [h]
  show l.tables first = (l.tables 0).map _
  rw [Listing.tables, Listing.tables, List.map_map, List.zipIdx_eq_map_add, List.map_map]
  refine List.map_congr_left fun entry hentry => ?_
  have hlt : entry.2 < l.names.eraseDups.length := by
    have := List.snd_lt_of_mem_zipIdx hentry
    omega
  simp only [Function.comp_apply, TableInfo.under, identities, if_pos hlt]

end Catalog

/-! ## Sessions -/

/-- No operation gives identities back. -/
theorem Step.le {plans : List Plan} {next next' : Nat} {q : Query} (h : Step plans next q next') :
    next ≤ next' := by
  cases h with
  | merge _ _ hq =>
    obtain ⟨_, _, _, _, _, _, _, _, rfl⟩ := Plan.merge_eq_ok.mp hq
    exact Nat.le_add_right ..
  | _ => exact Nat.le_refl _

/-- Whatever was built, the identities that come next are not those of tables. -/
theorem Session.tables_below {c : Catalog} {plans : List Plan} {next : Nat}
    (h : Session c plans next) : ∀ t ∈ c.tables, t.id < next := by
  induction h with
  | start h => exact h
  | table _ _ ih => exact fun t ht => Nat.lt_succ_of_lt (ih t ht)
  | step _ hq ih => exact fun t ht => Nat.lt_succ_of_lt (Nat.lt_of_lt_of_le (ih t ht) hq.le)

/-- A description has the text that it has over the listing alone. -/
theorem Catalog.LoadedFrom.sql_eq {c : Catalog} {l : Listing} {first : Nat}
    (h : c.LoadedFrom l first) {plans : List Plan} {next : Nat} (hs : Session c plans next)
    (spec : FrameSpec) :
    spec.sql c next = spec.sql (Catalog.listed l c.dialect) l.names.eraseDups.length := by
  have htables := Catalog.loadedFrom_iff.mp h
  have hbelow : ∀ i < l.names.eraseDups.length, first + i < next := by
    intro i hi
    have hmem : ⟨first + i, l.names.eraseDups[i], l.columns l.names.eraseDups[i]⟩ ∈ c.tables := by
      rw [htables]
      refine List.mem_map.mpr ⟨(l.names.eraseDups[i], first + i), ?_, rfl⟩
      exact List.mk_add_mem_zipIdx_iff_getElem?.mpr (List.getElem?_eq_getElem hi)
    exact hs.tables_below _ hmem
  exact FrameSpec.sql_alike (Catalog.injective_identities hbelow)
    (Catalog.alike_listed next htables) (Catalog.continues_identities first _ next) spec

/-- The text of a query depends on its structure only. Another identity for each of its relations,
or for the relations of each of its SELECTs on their own, gives the same text in every dialect as
long as different relations stay different. And over two catalogs that were loaded from the same
listing and speak the same dialect, whatever was built on each of them before, every description
gives the same text or the same fault. -/
theorem sql_depends_on_structure_only :
    (∀ (q : Query) (ids : Relation → Nat) (d : Dialect), Apart ids q.occurring →
      (q.under ids).sql d = q.sql d) ∧
      (∀ (q q' : Query) (d : Dialect), q.Relabelled q' → q'.sql d = q.sql d) ∧
      ∀ (l : Listing) (c c' : Catalog) (first first' : Nat) (plans plans' : List Plan)
        (next next' : Nat),
        c.LoadedFrom l first → c'.LoadedFrom l first' → c.dialect = c'.dialect →
        Session c plans next →
          Session c' plans' next' → ∀ spec : FrameSpec, spec.sql c next = spec.sql c' next' := by
  refine ⟨fun q ids d hapart => (Query.relabelled_under hapart).sql d, fun q q' d h => h.sql d, ?_⟩
  intro l c c' first first' plans plans' next next' hc hc' hdialect hs hs' spec
  rw [hc.sql_eq hs, hc'.sql_eq hs', hdialect]

/-- What a database with the tables of `Catalog.music` lists. -/
def Listing.music : Listing :=
  ⟨["tracks", "albums"], fun name =>
    if name = "tracks" then
      [.named "TrackId" "INTEGER", .named "AlbumId" "INTEGER", .named "Name" "TEXT"]
    else [.named "AlbumId" "INTEGER", .named "Title" "TEXT"]⟩

/-- The same tables, loaded over another connection after other catalogs. -/
def Catalog.musicAgain : Catalog := ⟨1, .sqlite, Listing.music.tables 5⟩

/-- The distinct tracks beside themselves. -/
def FrameSpec.doubled : FrameSpec :=
  .mk "tracks" [.distinct, .merge (.mk "tracks" [.distinct]) (some ["TrackId"]) none none none]

/-- The count of all tracks keeps its text under other identities, and the distinct tracks beside
themselves have one text over a catalog that has built a plan before and over one that has built
none. -/
theorem sql_depends_on_structure_only_music :
    (Apart (fun r => r.id + 10) Plan.tracks.count.occurring ∧
        (Plan.tracks.count.under fun r => r.id + 10).sql .postgres =
          Plan.tracks.count.sql .postgres) ∧
      (Plan.tracks.count.Relabelled (Plan.tracks.count.under fun r => r.id + 10) ∧
        (Plan.tracks.count.under fun r => r.id + 10).sql .sqlite = Plan.tracks.count.sql .sqlite) ∧
      Catalog.music.LoadedFrom Listing.music 0 ∧ Catalog.musicAgain.LoadedFrom Listing.music 5 ∧
      Session Catalog.music [Plan.tracks] 3 ∧ Session Catalog.musicAgain [] 7 ∧
      FrameSpec.doubled.sql Catalog.music 3 = FrameSpec.doubled.sql Catalog.musicAgain 7 ∧
      ∃ text, FrameSpec.doubled.sql Catalog.musicAgain 7 = .ok text := by
  have hapart : Apart (fun r => r.id + 10) Plan.tracks.count.occurring := by
    intro r _ s _ heq
    simp only [Relation.under, Relation.mk.injEq, Nat.add_right_cancel_iff] at heq
    cases r
    cases s
    simp_all
  have hrelabelled := Query.relabelled_under hapart
  have hmusic : Catalog.music.LoadedFrom Listing.music 0 := Catalog.loadedFrom_iff.mpr rfl
  have hagain : Catalog.musicAgain.LoadedFrom Listing.music 5 := Catalog.loadedFrom_iff.mpr rfl
  have hfresh : ∀ t ∈ Catalog.musicAgain.tables, t.id < 7 := by decide
  obtain ⟨hunder, hquery, hspec⟩ := sql_depends_on_structure_only
  refine ⟨⟨hapart, hunder _ _ .postgres hapart⟩, ⟨hrelabelled, hquery _ _ .sqlite hrelabelled⟩,
    hmusic, hagain, Session.tracks, .start hfresh, ?_, ⟨_, rfl⟩⟩
  exact hspec Listing.music _ _ 0 5 _ _ 3 7 hmusic hagain rfl Session.tracks
    (.start hfresh) FrameSpec.doubled

end LazyFrame
