import Mathlib.Data.List.Nodup
import LazyFrame.Proofs.Scope.WellFormed

/-!
# Queries under other identities

Relations are told apart by their identities, and the numbers themselves mean nothing.
`Query.Relabelled` says that two queries differ in nothing else: the same tables, columns,
expressions and subqueries, under other identities that still keep apart what was apart. Each SELECT
is relabelled on its own (`Source.Relabelled.derived`), since no column is looked up outside of the
SELECT it stands in.

A relabelling by a map of the visible relations, as a merge makes it, is of this kind when it keeps
them apart (`Query.WellFormed.relabelled_relabel`). A query under other identities is well formed
again (`Query.Relabelled.wellFormed`).
-/

namespace LazyFrame

variable {ids : Relation → Nat} {known : List Relation}

/-! ## Other identities -/

/-- A relation under the identity that it is given. -/
def Relation.under (ids : Relation → Nat) (r : Relation) : Relation := { r with id := ids r }

/-- No two of these relations become one. -/
def Apart (ids : Relation → Nat) (relations : List Relation) : Prop :=
  ∀ r ∈ relations, ∀ s ∈ relations, r.under ids = s.under ids → r = s

/-- Identities that keep relations apart keep any of them apart. -/
theorem Apart.mono {others : List Relation} (h : Apart ids known) (hsub : others ⊆ known) :
    Apart ids others :=
  fun r hr s hs => h r (hsub hr) s (hsub hs)

/-- What belongs to a relation is found under its image, unless another relation has the same
one. -/
theorem lookup_map_image {β : Type} {f : Relation → Relation} {entries : List (Relation × β)}
    {r : Relation} (h : ∀ entry ∈ entries, f entry.1 = f r → entry.1 = r) :
    (entries.map fun entry => (f entry.1, entry.2)).lookup (f r) = entries.lookup r := by
  induction entries with
  | nil => rfl
  | cons entry rest ih =>
    have hrest := ih fun e he => h e (List.mem_cons_of_mem _ he)
    have hsame : (f r == f entry.1) = (r == entry.1) := by
      rw [Bool.eq_iff_iff, beq_iff_eq, beq_iff_eq]
      exact ⟨fun heq => (h entry (List.mem_cons_self ..) heq.symm).symm, congrArg f⟩
    rw [List.map_cons, List.lookup_cons, hsame, hrest]
    exact (List.lookup_cons ..).symm

/-- A relation is found under its new identity exactly where it was found. -/
theorem Apart.lookup {β : Type} (h : Apart ids known) {entries : List (Relation × β)}
    (hknown : ∀ entry ∈ entries, entry.1 ∈ known) {r : Relation} (hr : r ∈ known) :
    (entries.map fun entry => (entry.1.under ids, entry.2)).lookup (r.under ids) =
      entries.lookup r :=
  lookup_map_image fun entry hentry => h entry.1 (hknown entry hentry) r hr

/-- Identities that are never the same for two relations keep all apart. -/
theorem Apart.of_injective (h : Function.Injective (Relation.under ids)) : Apart ids known :=
  fun _ _ _ _ heq => h heq

namespace Expr

/-- An expression over relations under their new identities. -/
def under (ids : Relation → Nat) : Expr → Expr
  | column relation name => column (relation.under ids) name
  | literal value => literal value
  | binary op left right => binary op (left.under ids) (right.under ids)
  | unary op operand => unary op (operand.under ids)
  | aggregate fn operand => aggregate fn (operand.under ids)
  | countRows => countRows
  | given description => given description

/-- The relations that the columns of an expression belong to. -/
def relations (e : Expr) : List Relation := e.columns.map (·.relation)

/-- An expression under other identities has each of its relations under its own. -/
theorem under_eq_mapped (e : Expr) : e.under ids = e.mapped (Relation.under ids) := by
  induction e with
  | binary op l r ihl ihr => rw [under, ihl, ihr, mapped]
  | unary op e ih | aggregate fn e ih => rw [under, ih, mapped]
  | column | literal | countRows | given => rfl

@[simp] theorem hasAggregate_under (e : Expr) : (e.under ids).hasAggregate = e.hasAggregate := by
  rw [under_eq_mapped, hasAggregate_mapped]

/-- The columns of an expression come under the identities of their relations. -/
theorem columns_under (e : Expr) :
    (e.under ids).columns = e.columns.map fun ref => ⟨ref.relation.under ids, ref.name⟩ := by
  rw [under_eq_mapped, columns_mapped]

/-- An expression under the identities it has is itself. -/
theorem under_id (e : Expr) : e.under Relation.id = e := by
  induction e with
  | binary op l r ihl ihr => rw [under, ihl, ihr]
  | unary op e ih | aggregate fn e ih => rw [under, ih]
  | _ => rfl

/-- Substitution by a map that keeps the shape of relations only changes identities. -/
theorem substitute_eq_under {map : Relabelling} (hmap : map.KeepsShape) (e : Expr) :
    e.substitute map = e.under fun r => (map.image r).id := by
  rw [substitute_eq_mapped, under_eq_mapped]
  exact congrArg e.mapped (funext hmap.eq_image)

end Expr

/-- An output over relations under their new identities. -/
def Output.under (ids : Relation → Nat) (o : Output) : Output := ⟨o.name, o.expr.under ids⟩

/-- A key over relations under their new identities. -/
def JoinKey.under (ids : Relation → Nat) (key : JoinKey) : JoinKey :=
  ⟨key.left.under ids, key.right.under ids⟩

/-- The relations that a key refers to. -/
def JoinKey.relations (key : JoinKey) : List Relation := key.left.relations ++ key.right.relations

namespace Selection

/-- A selection over relations under their new identities. -/
def under (ids : Relation → Nat) (s : Selection) : Selection :=
  { s with outputs := s.outputs.map (Output.under ids), filter? := s.filter?.map (Expr.under ids) }

/-- The relations that outputs and filter refer to. -/
def relations (s : Selection) : List Relation :=
  s.outputs.flatMap (·.expr.relations) ++ s.filter?.toList.flatMap Expr.relations

@[simp] theorem names_under (s : Selection) : (s.under ids).names = s.names := by
  rw [names, names, under, List.map_map]
  rfl

/-- A selection under the identities it has is itself. -/
theorem under_id (s : Selection) : s.under Relation.id = s := by
  have houtputs : s.outputs.map (Output.under Relation.id) = s.outputs :=
    List.map_id'' (fun o => congrArg (Output.mk o.name) o.expr.under_id) _
  have hfilter : s.filter?.map (Expr.under Relation.id) = s.filter? := by
    rw [funext Expr.under_id]
    exact Option.map_id'
  rw [under, houtputs, hfilter]

end Selection

namespace Source

/-- The relations that the SELECT over a source reads, and those that the joins in it refer to. -/
def relations : Source → List Relation
  | table id name columns => [⟨id, .table name, columns⟩]
  | derived id _ selection => [⟨id, .derived, selection.names⟩]
  | join left right _ keys condition? =>
    left.relations ++ right.relations ++ keys.flatMap JoinKey.relations ++
      condition?.toList.flatMap Expr.relations

/-- The visible relations of a source are relations of it. -/
theorem visible_subset_relations (s : Source) : s.visible ⊆ s.relations := by
  induction s with
  | table | derived => exact List.Subset.refl _
  | join left right kind keys condition? ihl ihr =>
    intro r hr
    refine List.mem_append_left _ (List.mem_append_left _ ?_)
    exact (List.mem_append.mp hr).elim (fun h => List.mem_append_left _ (ihl h)) fun h =>
      List.mem_append_right _ (ihr h)

/-- Two sources that differ in identities only. The relations of the first are under the identities
`ids` in the second; in a subquery they are under identities of its own, which keep them apart. -/
inductive Relabelled : (Relation → Nat) → Source → Source → Prop where
  | table {ids : Relation → Nat} (id : Nat) (name : String) (columns : List String) :
    Relabelled ids (.table id name columns) (.table (ids ⟨id, .table name, columns⟩) name columns)
  | derived {ids inner : Relation → Nat} {source source' : Source} (id : Nat)
    {selection : Selection} (hsource : Relabelled inner source source')
    (hapart : Apart inner (source.relations ++ selection.relations)) :
    Relabelled ids (.derived id source selection)
      (.derived (ids ⟨id, .derived, selection.names⟩) source' (selection.under inner))
  | join {ids : Relation → Nat} {left left' right right' : Source} (kind : JoinKind)
    (keys : List JoinKey) (condition? : Option Expr) (hleft : Relabelled ids left left')
    (hright : Relabelled ids right right') :
    Relabelled ids (.join left right kind keys condition?)
      (.join left' right' kind (keys.map (JoinKey.under ids)) (condition?.map (Expr.under ids)))

end Source

/-- The relations that a query reads or refers to, those inside of its subqueries aside. -/
def Query.relations (q : Query) : List Relation := q.source.relations ++ q.selection.relations

/-- Two queries that differ in the identities of their relations only, and keep different relations
different. -/
inductive Query.Relabelled (q q' : Query) : Prop where
  | intro (ids : Relation → Nat) (hsource : q.source.Relabelled ids q'.source)
    (hselection : q'.selection = q.selection.under ids) (hapart : Apart ids q.relations)
/-- The relations that a source shows are there under their new identities, in the same order. -/
theorem Source.Relabelled.visible {s s' : Source} (h : s.Relabelled ids s') :
    s'.visible = s.visible.map (Relation.under ids) := by
  induction h with
  | table => rfl
  | derived id _ _ _ =>
    rw [Source.visible, Selection.names_under]
    rfl
  | join kind keys condition? _ _ ihl ihr =>
    rw [Source.visible, ihl, ihr, Source.visible, List.map_append]

/-! ## One identity for each relation -/

namespace Source

/-- All relations of a source, those inside of its subqueries too. -/
def occurring : Source → List Relation
  | table id name columns => [⟨id, .table name, columns⟩]
  | derived id source selection =>
    ⟨id, .derived, selection.names⟩ :: (source.occurring ++ selection.relations)
  | join left right _ keys condition? =>
    left.occurring ++ right.occurring ++ keys.flatMap JoinKey.relations ++
      condition?.toList.flatMap Expr.relations

/-- A source with all relations under their new identities, those inside of its subqueries too. -/
def under (ids : Relation → Nat) : Source → Source
  | table id name columns => table (ids ⟨id, .table name, columns⟩) name columns
  | derived id source selection =>
    derived (ids ⟨id, .derived, selection.names⟩) (source.under ids) (selection.under ids)
  | join left right kind keys condition? =>
    join (left.under ids) (right.under ids) kind (keys.map (JoinKey.under ids))
      (condition?.map (Expr.under ids))

/-- What a source reads occurs in it. -/
theorem relations_subset_occurring (s : Source) : s.relations ⊆ s.occurring := by
  induction s with
  | table => exact List.Subset.refl _
  | derived id source selection _ =>
    intro r hr
    rw [List.mem_singleton.mp hr]
    exact List.mem_cons_self ..
  | join left right kind keys condition? ihl ihr =>
    intro r hr
    simp only [relations, occurring, List.mem_append] at hr ⊢
    rcases hr with ((hl | hr) | hkeys) | hcondition
    · exact Or.inl (Or.inl (Or.inl (ihl hl)))
    · exact Or.inl (Or.inl (Or.inr (ihr hr)))
    · exact Or.inl (Or.inr hkeys)
    · exact Or.inr hcondition

/-- A source under identities that keep its relations apart differs in identities only. -/
theorem relabelled_under {s : Source} (h : Apart ids s.occurring) :
    s.Relabelled ids (s.under ids) := by
  induction s with
  | table id name columns => exact .table id name columns
  | derived id source selection ih =>
    have hinside : Apart ids (source.occurring ++ selection.relations) :=
      h.mono (List.subset_cons_self _ _)
    refine .derived id (ih (hinside.mono (List.subset_append_left ..))) (hinside.mono ?_)
    exact List.append_subset.mpr
      ⟨List.Subset.trans source.relations_subset_occurring (List.subset_append_left ..),
      List.subset_append_right ..⟩
  | join left right kind keys condition? ihl ihr =>
    have hsides : Apart ids (left.occurring ++ right.occurring) :=
      h.mono (List.Subset.trans (List.subset_append_left ..) (List.subset_append_left ..))
    exact .join kind keys condition? (ihl (hsides.mono (List.subset_append_left ..)))
      (ihr (hsides.mono (List.subset_append_right ..)))

/-- A source differs from itself in nothing. -/
theorem relabelled_refl (s : Source) : s.Relabelled Relation.id s := by
  have hid : Function.Injective (Relation.under Relation.id) := fun _ _ h => h
  induction s with
  | table id name columns => exact .table id name columns
  | derived id source selection ih =>
    have hinside : Apart Relation.id (source.relations ++ selection.relations) := .of_injective hid
    have h : (derived id source selection).Relabelled Relation.id
        (derived id source (selection.under Relation.id)) := .derived id ih hinside
    rw [selection.under_id] at h
    exact h
  | join left right kind keys condition? ihl ihr =>
    have h := Relabelled.join kind keys condition? ihl ihr
    have hkeys : keys.map (JoinKey.under Relation.id) = keys :=
      List.map_id'' (fun key => congrArg₂ JoinKey.mk key.left.under_id key.right.under_id) _
    rw [hkeys, funext Expr.under_id, Option.map_id'] at h
    exact h

/-- A relabelling by a map leaves the subqueries as they are inside. -/
theorem relabelled_relabel {map : Relabelling} (hmap : map.KeepsShape) (s : Source) :
    s.Relabelled (fun r => (map.image r).id) (s.relabel map) := by
  have hid : Function.Injective (Relation.under Relation.id) := fun _ _ h => h
  induction s with
  | table id name columns =>
    rw [relabel_table]
    exact .table id name columns
  | derived id source selection _ =>
    rw [relabel_derived]
    -- inside it no identity changes
    have hinside : Apart Relation.id (source.relations ++ selection.relations) := .of_injective hid
    have h : (derived id source selection).Relabelled (fun r => (map.image r).id)
        (derived (map.image ⟨id, .derived, selection.names⟩).id source
          (selection.under Relation.id)) :=
      .derived id source.relabelled_refl hinside
    rw [selection.under_id] at h
    exact h
  | join left right kind keys condition? ihl ihr =>
    have h := Relabelled.join kind keys condition? ihl ihr
    have hkeys :
        (keys.map fun key => JoinKey.mk (key.left.substitute map) (key.right.substitute map)) =
        keys.map (JoinKey.under fun r => (map.image r).id) := by
      refine List.map_congr_left fun key _ => ?_
      exact congrArg₂ JoinKey.mk (Expr.substitute_eq_under hmap _) (Expr.substitute_eq_under hmap _)
    rw [relabel, hkeys, funext (Expr.substitute_eq_under hmap)]
    exact h

end Source

namespace Query

/-- A query with all relations under their new identities, those inside of its subqueries too. -/
def under (ids : Relation → Nat) (q : Query) : Query := ⟨q.source.under ids, q.selection.under ids⟩

/-- All relations of a query, those inside of its subqueries too. -/
def occurring (q : Query) : List Relation := q.source.occurring ++ q.selection.relations

/-- A query under identities that keep its relations apart differs in identities only. -/
theorem relabelled_under {q : Query} (h : Apart ids q.occurring) : q.Relabelled (q.under ids) := by
  refine ⟨ids, Source.relabelled_under (h.mono (List.subset_append_left ..)), rfl, h.mono ?_⟩
  exact List.append_subset.mpr
    ⟨List.Subset.trans q.source.relations_subset_occurring (List.subset_append_left ..),
    List.subset_append_right ..⟩

end Query
/-! ## Well-formed queries -/

theorem Expr.IsScalarOver.relations_subset {e : Expr} (h : e.IsScalarOver known) :
    e.relations ⊆ known := by
  intro r hr
  obtain ⟨ref, href, rfl⟩ := List.mem_map.mp hr
  exact (h.inScope ref href).1

/-- A well-formed selection reads no relation but those in scope. -/
theorem Selection.WellFormed.relations_subset {s : Selection} (h : s.WellFormed known) :
    s.relations ⊆ known := by
  refine List.append_subset.mpr ⟨fun r hr => ?_, fun r hr => ?_⟩
  · obtain ⟨o, ho, hr⟩ := List.mem_flatMap.mp hr
    exact (h.outputs o ho).relations_subset hr
  · obtain ⟨e, he, hr⟩ := List.mem_flatMap.mp hr
    exact (h.filter e (Option.mem_toList.mp he)).relations_subset hr

/-- A well-formed source reads no relation but those it shows. -/
theorem Source.WellFormed.relations_subset {s : Source} (h : s.WellFormed) :
    s.relations ⊆ s.visible := by
  induction s with
  | table | derived => exact List.Subset.refl _
  | join left right kind keys condition? ihl ihr =>
    obtain ⟨hl, hr, hkeys, hcondition⟩ := h
    have hsubl : left.visible ⊆ left.visible ++ right.visible := List.subset_append_left ..
    have hsubr : right.visible ⊆ left.visible ++ right.visible := List.subset_append_right ..
    refine List.append_subset.mpr ⟨List.append_subset.mpr ⟨List.append_subset.mpr
      ⟨List.Subset.trans (ihl hl) hsubl, List.Subset.trans (ihr hr) hsubr⟩, fun r hr =>
        ?_⟩, fun r hr => ?_⟩
    · obtain ⟨key, hkey, hr⟩ := List.mem_flatMap.mp hr
      rcases List.mem_append.mp hr with hr | hr
      · exact hsubl ((hkeys key hkey).left.relations_subset hr)
      · exact hsubr ((hkeys key hkey).right.relations_subset hr)
    · obtain ⟨e, he, hr⟩ := List.mem_flatMap.mp hr
      exact hsubr ((hcondition e (Option.mem_toList.mp he)).relations_subset hr)

namespace Query

/-- A well-formed query refers to nothing but what it reads. -/
theorem WellFormed.relations_subset {q : Query} (h : q.WellFormed) :
    q.relations ⊆ q.source.visible :=
  List.append_subset.mpr ⟨h.source.relations_subset, h.selection.relations_subset⟩

/-- A map that keeps the relations apart that a well-formed query reads changes nothing but
identities. -/
theorem WellFormed.relabelled_relabel {q : Query} (h : q.WellFormed) {map : Relabelling}
    (hmap : map.KeepsShape)
    (hinj : ∀ r ∈ q.source.visible, ∀ s ∈ q.source.visible, map.image r = map.image s → r = s) :
    q.Relabelled (q.relabel map) := by
  have hunder : ∀ r, r.under (fun r => (map.image r).id) = map.image r :=
    fun r => (hmap.eq_image r).symm
  refine ⟨fun r => (map.image r).id, q.source.relabelled_relabel hmap, ?_, ?_⟩
  · have houtputs :
        (q.selection.outputs.map fun output => { output with expr := output.expr.substitute map }) =
        q.selection.outputs.map (Output.under fun r => (map.image r).id) :=
      List.map_congr_left fun o _ => congrArg (Output.mk o.name) (Expr.substitute_eq_under hmap _)
    rw [Query.relabel, Selection.under, houtputs, funext (Expr.substitute_eq_under hmap)]
  · intro r hr s hs heq
    rw [hunder, hunder] at heq
    exact hinj r (h.relations_subset hr) s (h.relations_subset hs) heq

end Query

/-! ## Well-formed under other identities -/

theorem Expr.IsScalarOver.under {e : Expr} (h : e.IsScalarOver known) :
    (e.under ids).IsScalarOver (known.map (Relation.under ids)) := by
  refine ⟨e.hasAggregate_under.trans h.scalar, fun ref href => ?_⟩
  rw [e.columns_under] at href
  obtain ⟨old, hold, rfl⟩ := List.mem_map.mp href
  exact ⟨List.mem_map_of_mem (h.inScope old hold).1, (h.inScope old hold).2⟩

/-- A well-formed selection is well formed under other identities. -/
theorem Selection.WellFormed.under {s : Selection} (h : s.WellFormed known) :
    (s.under ids).WellFormed (known.map (Relation.under ids)) := by
  refine ⟨fun hnil => h.outputs_ne_nil (List.map_eq_nil_iff.mp hnil), ?_, fun o ho => ?_,
    fun e he => ?_, h.limit, h.offset⟩
  · rw [s.names_under]
    exact h.names_nodup
  · obtain ⟨old, hold, rfl⟩ := List.mem_map.mp ho
    exact (h.outputs old hold).under
  · obtain ⟨old, hold, rfl⟩ := Option.map_eq_some_iff.mp he
    exact (h.filter old hold).under

/-- Distinct relations that are kept apart stay distinct. -/
theorem Apart.nodup_map (h : Apart ids known) (hnodup : known.Nodup) :
    (known.map (Relation.under ids)).Nodup :=
  List.Nodup.map_on h hnodup

/-- Under other identities a source is well formed again. Those inside of a subquery are kept apart
there. -/
theorem Source.Relabelled.wellFormed {s s' : Source} (h : s.Relabelled ids s')
    (hwf : s.WellFormed) : s'.WellFormed := by
  induction h with
  | table => exact hwf
  | @derived ids inner source source' id selection hsource hinner ih =>
    obtain ⟨hsourcewf, hnodup, hselection⟩ := hwf
    have hvisible : Apart inner source.visible :=
      hinner.mono (List.Subset.trans source.visible_subset_relations (List.subset_append_left ..))
    refine ⟨ih hsourcewf, ?_, ?_⟩
    · rw [hsource.visible]
      exact hvisible.nodup_map hnodup
    · rw [hsource.visible]
      exact hselection.under
  | join kind keys condition? hleft hright ihl ihr =>
    obtain ⟨hl, hr, hkeys, hcondition⟩ := hwf
    refine ⟨ihl hl, ihr hr, fun key hkey => ?_, fun e he => ?_⟩
    · obtain ⟨old, hold, rfl⟩ := List.mem_map.mp hkey
      rw [hleft.visible, hright.visible]
      exact ⟨(hkeys old hold).left.under, (hkeys old hold).right.under⟩
    · -- the condition is over the right side alone
      obtain ⟨old, hold, rfl⟩ := Option.map_eq_some_iff.mp he
      rw [hright.visible]
      exact (hcondition old hold).under

/-- Queries that differ in identities only have the same columns. -/
theorem Query.Relabelled.names {q q' : Query} (h : q.Relabelled q') : q'.names = q.names := by
  obtain ⟨ids, _, hselection, _⟩ := h
  rw [Query.names, hselection, Selection.names_under, Query.names]

/-- And so is a query. -/
theorem Query.Relabelled.wellFormed {q q' : Query} (h : q.Relabelled q') (hwf : q.WellFormed) :
    q'.WellFormed := by
  obtain ⟨ids, hsource, hselection, hapart⟩ := h
  have hvisible : Apart ids q.source.visible :=
    hapart.mono (List.Subset.trans q.source.visible_subset_relations (List.subset_append_left ..))
  refine ⟨hsource.wellFormed hwf.source, ?_, ?_⟩
  · rw [hsource.visible]
    exact hvisible.nodup_map hwf.visible_nodup
  · rw [hsource.visible, hselection]
    exact hwf.selection.under

end LazyFrame
