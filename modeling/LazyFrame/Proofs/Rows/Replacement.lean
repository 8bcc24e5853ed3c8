import LazyFrame.Proofs.Rows.Reading

/-!
# Relations that stand for others

An expression after a substitution has the value of the old one where every relation is looked up as
its image (`Expr.value_substitute`), on one row and on all rows together, and it stays the same
expression exactly if it refers to no relation that has an image (`Expr.redirect?_eq_none_iff`).

For a source the images have to say what they are, so they are leaves of sources (`Replacement`).
`Source.replace` puts them in the place of the leaves and redirects what the joins compare. Whatever
the images are, the visible relations become their images in the same order
(`Source.visible_replace`). Where they are copies under new identities the source is the one that
`Source.relabel` makes (`Source.relabel_eq_replace`), and it has the same rows up to the relations
they name (`Source.rows_replace`): what a join compares finds its own relation again and no other.
-/

namespace LazyFrame

variable {α : Type} {S : Scalars α}

/-! ## Expressions -/

namespace Expr

variable (map : Relabelling)

theorem overall_substitute (envs : List (Env α)) (e : Expr) :
    (e.substitute map).overall S envs = e.overall S (envs.map fun env r => env (map.image r)) := by
  rw [substitute_eq_mapped]
  induction e with
  | column | literal | given => rfl
  | countRows => rw [mapped, overall, overall, List.length_map]
  | binary op l r ihl ihr => rw [mapped, overall, overall, ihl, ihr]
  | unary op e ih => rw [mapped, overall, overall, ih]
  | aggregate fn e _ =>
    rw [mapped, overall, overall, List.map_map]
    exact congrArg _ (List.map_congr_left fun env _ => e.value_mapped map.image env)

variable {map}

/-- Nothing is redirected where no column has an image. -/
theorem redirect?_eq_none_iff {e : Expr} :
    e.redirect? map = none ↔ ∀ ref ∈ e.columns, map.lookup ref.relation = none := by
  induction e with
  | column r name => simp [redirect?, columns]
  | literal | countRows | given => simp [redirect?, columns]
  | binary op l r ihl ihr =>
    rw [columns, List.forall_mem_append, ← ihl, ← ihr, redirect?]
    cases l.redirect? map <;> cases r.redirect? map <;> simp
  | unary op e ih => rw [redirect?, Option.map_eq_none_iff, ih, columns]
  | aggregate fn e ih => rw [redirect?, Option.map_eq_none_iff, ih, columns]

end Expr

/-! ## Leaves -/

/-- A source that is one relation. -/
inductive Leaf where
  | table (id : Nat) (name : String) (columns : List String)
  | derived (id : Nat) (source : Source) (selection : Selection)

namespace Leaf

/-- The leaf as a source. -/
def toSource : Leaf → Source
  | table id name columns => .table id name columns
  | derived id source selection => .derived id source selection

/-- The relation that a leaf is. -/
def relation : Leaf → Relation
  | table id name columns => ⟨id, .table name, columns⟩
  | derived id _ selection => ⟨id, .derived, selection.names⟩

/-- The leaf with another identity. -/
def copy (id : Nat) : Leaf → Leaf
  | table _ name columns => table id name columns
  | derived _ source selection => derived id source selection

theorem visible_toSource (leaf : Leaf) : leaf.toSource.visible = [leaf.relation] := by
  cases leaf <;> rfl

end Leaf

/-- A finite map of relations that also says what the images are. -/
abbrev Replacement := List (Relation × Leaf)

namespace Replacement

/-- The map of the relations alone. -/
def images (m : Replacement) : Relabelling := m.map fun entry => (entry.1, entry.2.relation)

/-- What stands in the place of a leaf. -/
def put (m : Replacement) (leaf : Leaf) : Leaf := (m.lookup leaf.relation).getD leaf

theorem lookup_images (m : Replacement) (r : Relation) :
    m.images.lookup r = (m.lookup r).map Leaf.relation := by
  induction m with
  | nil => rfl
  | cons entry rest ih =>
    rw [images, List.map_cons, List.lookup_cons, List.lookup_cons]
    cases r == entry.1 with
    | true => rfl
    | false => exact ih

theorem relation_put (m : Replacement) (leaf : Leaf) :
    (m.put leaf).relation = m.images.image leaf.relation := by
  rw [put, Relabelling.image, lookup_images]
  cases m.lookup leaf.relation <;> rfl

end Replacement

/-! ## Sources -/

namespace Source

/-- The leaves of a source, in the order of the joins. -/
def leaves : Source → List Leaf
  | table id name columns => [.table id name columns]
  | derived id source selection => [.derived id source selection]
  | join left right _ _ _ => left.leaves ++ right.leaves

/-- The source with other leaves. -/
def replace (m : Replacement) : Source → Source
  | table id name columns => (m.put (.table id name columns)).toSource
  | derived id source selection => (m.put (.derived id source selection)).toSource
  | join left right kind keys condition? =>
    join (left.replace m) (right.replace m) kind
      (keys.map fun key => ⟨key.left.substitute m.images, key.right.substitute m.images⟩)
      (condition?.map (Expr.substitute m.images))

/-- The visible relations become their images, in the same order. -/
theorem visible_replace (m : Replacement) (s : Source) :
    (s.replace m).visible = s.visible.map m.images.image := by
  induction s with
  | table id name columns =>
    rw [replace, Leaf.visible_toSource, Replacement.relation_put]
    rfl
  | derived id source selection =>
    rw [replace, Leaf.visible_toSource, Replacement.relation_put]
    rfl
  | join left right kind keys condition? ihl ihr =>
    rw [replace, visible, ihl, ihr, visible, List.map_append]

/-- Copies of the leaves that keep everything but their identity are what a relabelling by the same
images makes. -/
theorem relabel_eq_replace {m : Replacement} {s : Source}
    (h : ∀ leaf ∈ s.leaves, ∃ id, m.put leaf = leaf.copy id) :
    s.relabel m.images = s.replace m := by
  induction s with
  | table id name columns =>
    obtain ⟨id', hcopy⟩ := h _ (List.mem_singleton_self _)
    have hrelation := m.relation_put (.table id name columns)
    rw [hcopy] at hrelation
    rw [relabel_table, replace, hcopy, Leaf.copy, Leaf.toSource]
    exact congrArg (fun r => table r.id name columns) hrelation.symm
  | derived id source selection _ =>
    obtain ⟨id', hcopy⟩ := h _ (List.mem_singleton_self _)
    have hrelation := m.relation_put (.derived id source selection)
    rw [hcopy] at hrelation
    rw [relabel_derived, replace, hcopy, Leaf.copy, Leaf.toSource]
    exact congrArg (fun r => derived r.id source selection) hrelation.symm
  | join left right kind keys condition? ihl ihr =>
    rw [relabel, replace, ihl fun leaf hleaf => h leaf (List.mem_append_left _ hleaf),
      ihr fun leaf hleaf => h leaf (List.mem_append_right _ hleaf)]

end Source

/-! ## Rows -/

namespace SourceRow

variable {f : Relation → Relation} {row : SourceRow α}

/-- The row whose parts belong to the images of its relations. -/
def through (f : Relation → Relation) (row : SourceRow α) : SourceRow α :=
  List.map (fun part => (f part.1, part.2)) row

theorem through_append (row other : SourceRow α) :
    through f (row ++ other) = through f row ++ through f other :=
  List.map_append

theorem through_blank (rs : List Relation) : through f (blank S rs) = blank S (rs.map f) := by
  simp [through, blank]

theorem env_through {r : Relation} (h : ∀ a ∈ row.relations, f a = f r → a = r) :
    env S (through f row) (f r) = env S row r := by
  have hlookup : (through f row).lookup (f r) = row.lookup r :=
    lookup_map_image fun part hpart => h part.1 (List.mem_map_of_mem hpart)
  funext name
  simp only [env, hlookup]

end SourceRow

/-- An expression over images finds in the image of a row what it found in the row. -/
theorem Expr.value_through {map : Relabelling} {row : SourceRow α} {e : Expr}
    (h : ∀ a ∈ row.relations, ∀ r ∈ e.relations, map.image a = map.image r → a = r) :
    (e.substitute map).value S (SourceRow.env S (SourceRow.through map.image row)) =
      e.value S (SourceRow.env S row) := by
  rw [value_substitute]
  refine value_congr fun ref href => ?_
  exact congrFun (SourceRow.env_through fun a ha => h a ha _ (List.mem_map_of_mem href)) ref.name

/-- The ON of a join is as true over the images as it was before. -/
theorem JoinKey.allMatch_through {map : Relabelling} {keys : List JoinKey}
    {condition? : Option Expr} {row : SourceRow α} (h : ∀ a ∈ row.relations,
      ∀ r ∈ keys.flatMap JoinKey.relations ++ condition?.toList.flatMap Expr.relations,
        map.image a = map.image r → a = r) :
    allMatch S (keys.map fun key => ⟨key.left.substitute map, key.right.substitute map⟩)
        (condition?.map (Expr.substitute map)) (SourceRow.env S (SourceRow.through map.image row)) =
      allMatch S keys condition? (SourceRow.env S row) := by
  have hkey : ∀ key ∈ keys, ∀ e : Expr, e.relations ⊆ key.relations →
      (e.substitute map).value S (SourceRow.env S (SourceRow.through map.image row)) =
        e.value S (SourceRow.env S row) :=
    fun key hkey e he => Expr.value_through fun a ha r hr =>
      h a ha r (List.mem_append_left _ (List.mem_flatMap.mpr ⟨key, hkey, he hr⟩))
  have hcondition : ∀ e ∈ condition?,
      (e.substitute map).value S (SourceRow.env S (SourceRow.through map.image row)) =
        e.value S (SourceRow.env S row) :=
    fun e he => Expr.value_through fun a ha r hr =>
      h a ha r (List.mem_append_right _ (List.mem_flatMap.mpr ⟨e, Option.mem_toList.mpr he, hr⟩))
  unfold allMatch
  rw [List.all_map]
  refine congrArg₂ (· && ·) ?_ ?_
  · rw [Bool.eq_iff_iff, List.all_eq_true, List.all_eq_true]
    refine forall₂_congr fun key hmem => ?_
    rw [Function.comp_apply, hkey key hmem key.left (List.subset_append_left ..),
      hkey key hmem key.right (List.subset_append_right ..)]
  · cases condition? with
    | none => rfl
    | some e => rw [Option.map_some, Option.all_some, Option.all_some, hcondition e rfl]

variable [DecidableEq α] {db : Database α}

/-- Copies have the same rows, up to the relations they name. -/
theorem Source.rows_replace {m : Replacement} {s : Source}
    (hcopy : ∀ leaf ∈ s.leaves, ∃ id, m.put leaf = leaf.copy id)
    (happart : ∀ a ∈ s.visible, ∀ r ∈ s.relations, m.images.image a = m.images.image r → a = r) :
    (s.replace m).rows S db = (s.rows S db).map (SourceRow.through m.images.image) := by
  -- the induction is on the source; a copied subquery is the old one under a new identity
  induction s with
  | table id name columns =>
    obtain ⟨id', hput⟩ := hcopy _ (List.mem_singleton_self _)
    have hrelation : ⟨id', .table name, columns⟩ = m.images.image ⟨id, .table name, columns⟩ := by
      have := m.relation_put (.table id name columns)
      rwa [hput] at this
    rw [replace, hput, Leaf.copy, Leaf.toSource, rows, rows, List.map_map, hrelation]
    rfl
  | derived id source selection _ =>
    obtain ⟨id', hput⟩ := hcopy _ (List.mem_singleton_self _)
    have hrelation : ⟨id', .derived, selection.names⟩ =
        m.images.image ⟨id, .derived, selection.names⟩ := by
      have := m.relation_put (.derived id source selection)
      rwa [hput] at this
    rw [replace, hput, Leaf.copy, Leaf.toSource, rows, rows, List.map_map, hrelation]
    rfl
  | join left right kind keys condition? ihl ihr =>
    have hl := ihl (fun leaf hleaf => hcopy leaf (List.mem_append_left _ hleaf)) fun a ha r hr =>
      happart a (List.mem_append_left _ ha) r
        (List.mem_append_left _ (List.mem_append_left _ (List.mem_append_left _ hr)))
    have hr := ihr (fun leaf hleaf => hcopy leaf (List.mem_append_right _ hleaf)) fun a ha r hr =>
      happart a (List.mem_append_right _ ha) r
        (List.mem_append_left _ (List.mem_append_left _ (List.mem_append_right _ hr)))
    -- the same pairs match, as images that the condition compares are told apart
    refine rows_join_map hl hr ?_ SourceRow.through_append fun l hlrow r hrrow => ?_
    · rw [visible_replace, SourceRow.through_blank]
    · refine JoinKey.allMatch_through fun a ha r' hr' => happart a ?_ r' ?_
      · rwa [SourceRow.relations_append, relations_rows l hlrow, relations_rows r hrrow] at ha
      · rw [relations, List.append_assoc]
        exact List.mem_append_right _ hr'

/-! ## New identities -/

/-- Where a map sends a relation that a source reads, it gives it an identity of its own. A source
reads its visible relations, and no others if its joins refer to these only. -/
structure Replacement.IsFreshFor (m : Replacement) (s : Source) : Prop where
  /-- The leaves stay as they are but for their identities. -/
  copies : ∀ leaf ∈ s.leaves, ∃ id, m.put leaf = leaf.copy id
  /-- No two relations get the same. -/
  injective : ∀ a ∈ s.relations, ∀ b ∈ s.relations,
    (m.images.lookup a).isSome → m.images.lookup a = m.images.lookup b → a = b
  /-- No relation has one of them already. -/
  fresh : ∀ a ∈ s.relations, ∀ image ∈ m.images.lookup a, image ∉ s.relations

/-- New identities tell visible relations from all that is read. -/
theorem Replacement.IsFreshFor.apart {m : Replacement} {s : Source} (h : m.IsFreshFor s) :
    ∀ a ∈ s.visible, ∀ r ∈ s.relations, m.images.image a = m.images.image r → a = r := by
  intro a hvisible r hr heq
  have ha : a ∈ s.relations := s.visible_subset_relations hvisible
  unfold Relabelling.image at heq
  cases hla : m.images.lookup a with
  | none =>
    cases hlr : m.images.lookup r with
    | none => rwa [hla, hlr] at heq
    | some image =>
      rw [hla, hlr] at heq
      obtain rfl : a = image := heq
      exact absurd ha (h.fresh r hr a hlr)
  | some image =>
    cases hlr : m.images.lookup r with
    | none =>
      rw [hla, hlr] at heq
      obtain rfl : image = r := heq
      exact absurd hr (h.fresh a ha image hla)
    | some other =>
      rw [hla, hlr] at heq
      obtain rfl : image = other := heq
      exact h.injective a ha r hr (hla ▸ rfl) (hla.trans hlr.symm)

/-- Substitution is looking relations up as their images: in expressions, whose columns keep their
order and are sent to their images once, and in sources, whose rows are the same up to the relations
they name when these get new identities. -/
theorem substitution_commutes (S : Scalars α) (db : Database α) (map : Relabelling) (e : Expr)
    (m : Replacement) (s : Source) :
    ((∀ env, (e.substitute map).value S env = e.value S fun r => env (map.image r)) ∧
      (∀ envs, (e.substitute map).overall S envs =
        e.overall S (envs.map fun env r => env (map.image r))) ∧
      (e.substitute map).columns = (e.columns.map fun ref => ⟨map.image ref.relation, ref.name⟩) ∧
      (e.substitute map).references = e.references.map (List.map (Reference.mapped map.image)) ∧
      (e.substitute map).hasAggregate = e.hasAggregate ∧
      (e.redirect? map = none ↔ ∀ ref ∈ e.columns, map.lookup ref.relation = none)) ∧
    (s.replace m).visible = s.visible.map m.images.image ∧
    ((∀ leaf ∈ s.leaves, ∃ id, m.put leaf = leaf.copy id) → s.relabel m.images = s.replace m) ∧
    (m.IsFreshFor s →
      (s.replace m).rows S db = (s.rows S db).map (SourceRow.through m.images.image)) := by
  have hreferences := e.references_mapped (f := map.image)
  have haggregate := e.hasAggregate_mapped map.image
  rw [← e.substitute_eq_mapped] at hreferences haggregate
  refine ⟨⟨fun env => e.value_substitute map env, fun envs => e.overall_substitute map envs,
    e.columns_substitute map, hreferences, haggregate, Expr.redirect?_eq_none_iff⟩,
    s.visible_replace m, Source.relabel_eq_replace, fun h => ?_⟩
  exact Source.rows_replace h.copies h.apart

/-- Tracks and their albums, those that have a number. -/
def Source.tracksOnAlbums : Source :=
  .join (.table 0 "tracks" ["TrackId", "AlbumId"]) (.table 1 "albums" ["AlbumId"]) .left
    [⟨.column ⟨0, .table "tracks", ["TrackId", "AlbumId"]⟩ "AlbumId",
      .column ⟨1, .table "albums", ["AlbumId"]⟩ "AlbumId"⟩]
    (some (.unary .notNull (.column ⟨1, .table "albums", ["AlbumId"]⟩ "AlbumId")))

/-- Both tables once more. -/
def Replacement.again : Replacement :=
  [(⟨0, .table "tracks", ["TrackId", "AlbumId"]⟩, .table 2 "tracks" ["TrackId", "AlbumId"]),
    (⟨1, .table "albums", ["AlbumId"]⟩, .table 3 "albums" ["AlbumId"])]

/-- Both tables of a join get new identities, and the third track still has no album. -/
theorem substitution_commutes_again :
    Replacement.again.IsFreshFor Source.tracksOnAlbums ∧
      (Source.tracksOnAlbums.replace Replacement.again).visible =
        [⟨2, .table "tracks", ["TrackId", "AlbumId"]⟩, ⟨3, .table "albums", ["AlbumId"]⟩] ∧
      Source.tracksOnAlbums.relabel Replacement.again.images =
        Source.tracksOnAlbums.replace Replacement.again ∧
      ((Source.tracksOnAlbums.replace Replacement.again).rows Scalars.integers Database.music).map
        (fun row => row.map fun part => (part.1.id, part.2 "TrackId", part.2 "AlbumId")) =
        [[(2, some 1, some 7), (3, none, some 7)], [(2, some 2, some 7), (3, none, some 7)],
          [(2, some 3, some 8), (3, none, none)]] := by
  have hfresh : Replacement.again.IsFreshFor Source.tracksOnAlbums := by
    refine ⟨fun leaf hleaf => ?_, by decide, by decide⟩
    rcases List.mem_pair.mp hleaf with rfl | rfl
    · exact ⟨2, rfl⟩
    · exact ⟨3, rfl⟩
  obtain ⟨_, hvisible, hrelabel, hrows⟩ :=
    substitution_commutes Scalars.integers Database.music [] .countRows
    Replacement.again Source.tracksOnAlbums
  refine ⟨hfresh, hvisible.trans (by decide), hrelabel hfresh.copies, ?_⟩
  rw [hrows hfresh]
  decide

end LazyFrame
