import LazyFrame.Plan.Merge
import LazyFrame.Proofs.Attempt

/-!
# Relations and their images

A relabelling sends every relation to its `image`: the one it is paired with, or itself. What
`Expr.substitute` does to an expression is told by its columns alone, which keep their order and
their names and move to the images of their relations (`columns_substitute`), all at once and
never in a chain.

A source keeps its shape too. Its visible relations become their images, in the same order
(`visible_relabel`), provided the relabelling keeps the origin and the columns of a relation and
changes only its identity (`KeepsShape`). `Query.freshRelations` is such a relabelling, and it is
injective on relations whose identities have all been handed out before
(`image_freshRelations_inj`): the new identities differ from those and from each other.
-/

namespace LazyFrame

namespace Relabelling

/-- Where a relation goes: to the relation it is paired with, or nowhere. -/
def image (map : Relabelling) (r : Relation) : Relation := (map.lookup r).getD r

/-- Only identities change. -/
def KeepsShape (map : Relabelling) : Prop :=
  ∀ entry ∈ map, entry.2.origin = entry.1.origin ∧ entry.2.columns = entry.1.columns

/-- The image of a relation is an entry of the map, or the relation itself. -/
theorem image_cases (map : Relabelling) (r : Relation) :
    (r, map.image r) ∈ map ∨ map.lookup r = none ∧ map.image r = r := by
  unfold image
  cases h : map.lookup r with
  | none => exact Or.inr ⟨rfl, rfl⟩
  | some i =>
    obtain ⟨before, after, hmap, _⟩ := List.lookup_eq_some_iff.mp h
    left
    rw [hmap]
    simp

/-- A map that keeps the shape of relations keeps their origin and their columns. -/
theorem KeepsShape.image {map : Relabelling} (h : map.KeepsShape) (r : Relation) :
    (map.image r).origin = r.origin ∧ (map.image r).columns = r.columns := by
  rcases map.image_cases r with hmem | ⟨_, hself⟩
  · exact h _ hmem
  · rw [hself]
    exact ⟨rfl, rfl⟩

/-- The image has the identity that decides it. -/
theorem KeepsShape.eq_image {map : Relabelling} (h : map.KeepsShape) (r : Relation) :
    map.image r = { r with id := (map.image r).id } := by
  obtain ⟨horigin, hcolumns⟩ := h.image r
  cases hi : map.image r with
  | mk id origin columns =>
    rw [hi] at horigin hcolumns
    simp only at horigin hcolumns
    rw [horigin, hcolumns]

end Relabelling

/-! ## Expressions -/

namespace Expr

@[simp] theorem substitute_column (map : Relabelling) (r : Relation) (name : String) :
    (column r name).substitute map = column (map.image r) name := by
  unfold substitute redirect? Relabelling.image
  cases map.lookup r with
  | none => rfl
  | some i => rfl

@[simp] theorem substitute_literal (map : Relabelling) (v : Value) :
    (literal v).substitute map = literal v := rfl

@[simp] theorem substitute_binary (map : Relabelling) (op : BinaryOp) (l r : Expr) :
    (binary op l r).substitute map = binary op (l.substitute map) (r.substitute map) := by
  -- a side without anything to redirect is the same as before
  simp only [substitute, redirect?]
  cases l.redirect? map <;> cases r.redirect? map <;> rfl

@[simp] theorem substitute_unary (map : Relabelling) (op : UnaryOp) (e : Expr) :
    (unary op e).substitute map = unary op (e.substitute map) := by
  simp only [substitute, redirect?]
  cases e.redirect? map <;> rfl

@[simp] theorem substitute_aggregate (map : Relabelling) (fn : AggregateFn) (e : Expr) :
    (aggregate fn e).substitute map = aggregate fn (e.substitute map) := by
  simp only [substitute, redirect?]
  cases e.redirect? map <;> rfl

@[simp] theorem substitute_countRows (map : Relabelling) :
    countRows.substitute map = countRows := rfl

@[simp] theorem substitute_given (map : Relabelling) (v : Value) :
    (given v).substitute map = given v := rfl

/-- An expression whose relations are all sent somewhere. -/
def mapped (f : Relation → Relation) : Expr → Expr
  | column relation name => column (f relation) name
  | literal value => literal value
  | binary op left right => binary op (left.mapped f) (right.mapped f)
  | unary op operand => unary op (operand.mapped f)
  | aggregate fn operand => aggregate fn (operand.mapped f)
  | countRows => countRows
  | given description => given description

/-- A substitution sends every relation to its image. -/
theorem substitute_eq_mapped (map : Relabelling) (e : Expr) :
    e.substitute map = e.mapped map.image := by
  induction e with
  | column r name => exact substitute_column map r name
  | literal | countRows | given => rfl
  | binary op l r ihl ihr => rw [substitute_binary, ihl, ihr, mapped]
  | unary op e ih => rw [substitute_unary, ih, mapped]
  | aggregate fn e ih => rw [substitute_aggregate, ih, mapped]

/-- The columns of an expression over other relations are those columns over these. -/
theorem columns_mapped (f : Relation → Relation) (e : Expr) :
    (e.mapped f).columns = e.columns.map fun ref => ⟨f ref.relation, ref.name⟩ := by
  induction e with
  | binary op l r ihl ihr => rw [mapped, columns, columns, ihl, ihr, List.map_append]
  | unary op e ih | aggregate fn e ih => exact ih
  | column | literal | countRows | given => rfl

/-- An expression aggregates over other relations exactly if it does. -/
theorem hasAggregate_mapped (f : Relation → Relation) (e : Expr) :
    (e.mapped f).hasAggregate = e.hasAggregate := by
  induction e with
  | binary op l r ihl ihr => rw [mapped, hasAggregate, hasAggregate, ihl, ihr]
  | unary op e ih => rw [mapped, hasAggregate, hasAggregate, ih]
  | column | literal | aggregate | countRows | given => rfl

/-- The columns of an expression move to the images of their relations and keep their order. -/
theorem columns_substitute (map : Relabelling) (e : Expr) :
    (e.substitute map).columns = e.columns.map fun ref => ⟨map.image ref.relation, ref.name⟩ := by
  rw [substitute_eq_mapped, columns_mapped]

end Expr

/-! ## References -/

/-- A reference whose relation is sent somewhere. What is noted for a description has none. -/
def Reference.mapped (f : Relation → Relation) : Reference → Reference
  | known ref => known ⟨f ref.relation, ref.name⟩
  | noted note => noted note

namespace Expr

variable {f : Relation → Relation}

/-- References that are spread over other relations are the spread ones over these. -/
theorem spread_map_mapped (listing : Given.Listing Reference) :
    Given.spread (listing.map (List.map (Reference.mapped f))) =
      (Given.spread listing).map (List.map (Reference.mapped f)) := by
  cases listing <;> rfl

/-- The listing of an expression over other relations is that listing over these. -/
theorem listing_mapped (e : Expr) :
    (e.mapped f).listing = e.listing.map (Option.map (List.map (Reference.mapped f))) := by
  induction e with
  | column | literal | countRows => rfl
  | binary op l r ihl ihr =>
    simp only [mapped, listing, ihl, ihr, Attempt.bind_map, Attempt.map_bind, bind_assoc,
      spread_map_mapped]
    simp only [Attempt.map_ok, Option.map_some, List.map_append]
  | unary op e ih | aggregate fn e ih => exact ih
  | given description =>
    simp only [mapped, listing, Attempt.map_bind]
    refine congrArg _ (funext fun notes? => ?_)
    cases notes? with
    | none => rfl
    | some notes => simp [Attempt.map_ok, Reference.mapped, Function.comp_def]

/-- What an expression refers to is sent where its relations are. -/
theorem references_mapped (e : Expr) :
    (e.mapped f).references = e.references.map (List.map (Reference.mapped f)) := by
  simp only [references, listing_mapped, Attempt.bind_map, Attempt.map_bind, spread_map_mapped]

end Expr

/-! ## Sources -/

namespace Source

/-- A table is replaced by one with the identity of its image. -/
theorem relabel_table (map : Relabelling) (id : Nat) (name : String) (columns : List String) :
    (table id name columns).relabel map =
      table (map.image ⟨id, .table name, columns⟩).id name columns := by
  unfold relabel Relabelling.image
  cases map.lookup ⟨id, .table name, columns⟩ with
  | none => rfl
  | some i => rfl

/-- A subquery is replaced by one with the identity of its image. -/
theorem relabel_derived (map : Relabelling) (id : Nat) (source : Source) (selection : Selection) :
    (derived id source selection).relabel map =
      derived (map.image ⟨id, .derived, selection.names⟩).id source selection := by
  unfold relabel Relabelling.image
  cases map.lookup ⟨id, .derived, selection.names⟩ with
  | none => rfl
  | some i => rfl

/-- The visible relations become their images, in the same order. -/
theorem visible_relabel {map : Relabelling} (h : map.KeepsShape) (s : Source) :
    (s.relabel map).visible = s.visible.map map.image := by
  induction s with
  | table id name columns =>
    rw [relabel_table]
    exact congrArg (fun r => [r]) (h.eq_image _).symm
  | derived id source selection =>
    rw [relabel_derived]
    exact congrArg (fun r => [r]) (h.eq_image _).symm
  | join left right kind keys condition? ihl ihr =>
    rw [relabel, visible, ihl, ihr, visible, List.map_append]

end Source

/-! ## New identities -/

namespace Query

/-- Replacing relations keeps the columns of a query. -/
theorem names_relabel (map : Relabelling) (q : Query) : (q.relabel map).names = q.names := by
  simp [relabel, names, Selection.names]

/-- New identities are counted on from `next`. -/
theorem mem_freshRelations {next : Nat} {relations : List Relation} {entry : Relation × Relation}
    (h : entry ∈ freshRelations next relations) :
    ∃ i, relations[i]? = some entry.1 ∧ entry.2 = { entry.1 with id := next + i } := by
  obtain ⟨⟨r, i⟩, hmem, rfl⟩ := List.mem_map.mp h
  exact ⟨i, List.mem_zipIdx_iff_getElem?.mp hmem, rfl⟩

/-- New identities keep the shape of relations. -/
theorem keepsShape_freshRelations (next : Nat) (relations : List Relation) :
    Relabelling.KeepsShape (freshRelations next relations) := by
  intro entry hentry
  obtain ⟨i, _, hi⟩ := mem_freshRelations hentry
  rw [hi]
  exact ⟨rfl, rfl⟩

/-- A relation that gets a new identity gets the one at its place. -/
theorem image_freshRelations_of_mem (next : Nat) {relations : List Relation} {r : Relation}
    (h : r ∈ relations) :
    ∃ i, relations[i]? = some r ∧
      Relabelling.image (freshRelations next relations) r = { r with id := next + i } := by
  rcases Relabelling.image_cases (freshRelations next relations) r with hmem | ⟨hnone, _⟩
  · exact mem_freshRelations hmem
  · obtain ⟨i, hi⟩ := List.mem_iff_getElem?.mp h
    have hmem : (r, { r with id := next + i }) ∈ freshRelations next relations :=
      List.mem_map.mpr ⟨(r, i), List.mem_zipIdx_iff_getElem?.mpr hi, rfl⟩
    exact absurd (List.lookup_eq_none_iff.mp hnone _ hmem) (by simp)

/-- Other relations keep their identity. -/
theorem image_freshRelations_of_not_mem {next : Nat} {relations : List Relation} {r : Relation}
    (h : r ∉ relations) : Relabelling.image (freshRelations next relations) r = r := by
  rcases Relabelling.image_cases (freshRelations next relations) r with hmem | ⟨_, hself⟩
  · obtain ⟨i, hi, _⟩ := mem_freshRelations hmem
    exact absurd (List.mem_of_getElem? hi) h
  · exact hself

/-- New identities are new: relations with identities below `next` are told apart afterwards
when they were before. -/
theorem image_freshRelations_inj {next : Nat} {relations : List Relation} {r s : Relation}
    (hr : r.id < next) (hs : s.id < next)
    (h : Relabelling.image (freshRelations next relations) r =
      Relabelling.image (freshRelations next relations) s) : r = s := by
  by_cases hrm : r ∈ relations
  · obtain ⟨i, hi, hri⟩ := image_freshRelations_of_mem next hrm
    by_cases hsm : s ∈ relations
    · -- both are new: the identity tells the place
      obtain ⟨j, hj, hsj⟩ := image_freshRelations_of_mem next hsm
      rw [hri, hsj] at h
      have hij : i = j := by
        have := congrArg Relation.id h
        simp only at this
        omega
      subst hij
      exact Option.some.inj (hi.symm.trans hj)
    · -- one is new and the other below `next`
      rw [hri, image_freshRelations_of_not_mem hsm] at h
      have := congrArg Relation.id h
      simp only at this
      omega
  · -- the first one is not new, so neither is the other
    rw [image_freshRelations_of_not_mem hrm] at h
    by_cases hsm : s ∈ relations
    · obtain ⟨j, _, hsj⟩ := image_freshRelations_of_mem next hsm
      rw [hsj] at h
      have := congrArg Relation.id h
      simp only at this
      omega
    · rw [image_freshRelations_of_not_mem hsm] at h
      exact h

/-- All identities are below those that have been handed out then. -/
theorem id_image_freshRelations_lt {next : Nat} {relations : List Relation} {r : Relation}
    (hr : r.id < next) :
    (Relabelling.image (freshRelations next relations) r).id < next + relations.length := by
  by_cases hrm : r ∈ relations
  · obtain ⟨i, hi, hri⟩ := image_freshRelations_of_mem next hrm
    have hlt : i < relations.length := (List.getElem?_eq_some_iff.mp hi).1
    rw [hri]
    simp only
    omega
  · rw [image_freshRelations_of_not_mem hrm]
    omega

end Query

end LazyFrame
