import LazyFrame.Proofs.Identity.Relabelled
import LazyFrame.Sql.Resolve

/-!
# Identities do not show in the text

No identity is ever printed. The statements of two queries that differ in identities only are equal,
and so are the faults when there is no statement (`Query.Relabelled.statement`). What carries the
induction over sources is a scope with the same aliases: an alias is found under the new identity
where it was found under the old one (`Scope.lookup_under`), because a scope is searched for
relations of its own SELECT only.
-/

namespace LazyFrame

variable {ids : Relation → Nat} {known : List Relation}

/-! ## Scopes -/

namespace Scope

/-- All known with an alias are among these. -/
def Within (scope : Scope) (known : List Relation) : Prop := ∀ entry ∈ scope, entry.1 ∈ known

/-- The same aliases for known under their new identities. -/
def under (ids : Relation → Nat) (scope : Scope) : Scope :=
  scope.map fun entry => (entry.1.under ids, entry.2)

/-- An alias is found under the new identity where it was found under the old one. -/
theorem lookup_under (hapart : Apart ids known) {scope : Scope} (hscope : scope.Within known)
    {r : Relation} (hr : r ∈ known) : (scope.under ids).lookup (r.under ids) = scope.lookup r :=
  hapart.lookup hscope hr

/-- Relations that are kept apart have the same owner under their new identities. -/
theorem owner_under (hapart : Apart ids known) {scope : Scope} (hscope : scope.Within known)
    {r : Relation} (hr : r ∈ known) : (scope.under ids).owner (r.under ids) = scope.owner r := by
  rw [owner, owner, lookup_under hapart hscope hr]
  rfl

/-- A known relation leaves a scope one of known relations. -/
theorem Within.bind {scope : Scope} (h : scope.Within known) {r : Relation} (hr : r ∈ known)
    (n : Nat) : (scope.bind r n).1.Within known := by
  unfold Scope.bind
  cases scope.lookup r with
  | some _ => exact h
  | none =>
    intro entry hentry
    rcases List.mem_append.mp hentry with hold | hnew
    · exact h entry hold
    · rw [List.mem_singleton.mp hnew]
      exact hr

/-- So do several. -/
theorem Within.bindAll {scope : Scope} (h : scope.Within known) {rs : List Relation}
    (hrs : rs ⊆ known) (n : Nat) : (scope.bindAll rs n).1.Within known := by
  induction rs generalizing scope n with
  | nil => exact h
  | cons r rest ih =>
    obtain ⟨hr, hrest⟩ := List.cons_subset.mp hrs
    exact ih (h.bind hr n) hrest _

/-- A relation is bound under its new identity to the same alias. -/
theorem bind_under (hapart : Apart ids known) {scope : Scope} (hscope : scope.Within known)
    {r : Relation} (hr : r ∈ known) (n : Nat) :
    (scope.under ids).bind (r.under ids) n =
      ((scope.bind r n).1.under ids, (scope.bind r n).2) := by
  unfold bind
  rw [lookup_under hapart hscope hr]
  cases scope.lookup r with
  | some _ => rfl
  | none => simp [under]

/-- Relations draw the same aliases whatever their identities are. -/
theorem bindAll_under (hapart : Apart ids known) {scope : Scope} (hscope : scope.Within known)
    {rs : List Relation} (hrs : rs ⊆ known) (n : Nat) :
    (scope.under ids).bindAll (rs.map (Relation.under ids)) n =
      ((scope.bindAll rs n).1.under ids, (scope.bindAll rs n).2) := by
  induction rs generalizing scope n with
  | nil => rfl
  | cons r rest ih =>
    obtain ⟨hr, hrest⟩ := List.cons_subset.mp hrs
    show bindAll ((scope.under ids).bind (r.under ids) n).1 (rest.map _)
      ((scope.under ids).bind (r.under ids) n).2 = _
    rw [bind_under hapart hscope hr]
    exact ih (hscope.bind hr n) hrest _

end Scope

/-! ## Resolution -/

/-- A column has the same name under another identity. -/
theorem Expr.isColumnNamed_under (name : String) (e : Expr) :
    (e.under ids).isColumnNamed name = e.isColumnNamed name := by
  cases e <;> rfl

section Resolution

variable {scope : Scope} (hapart : Apart ids known) (hscope : scope.Within known)

include hapart hscope

/-- A known expression is resolved to the same term. -/
theorem Expr.resolve_under {e : Expr} (he : e.relations ⊆ known) :
    (e.under ids).resolve (scope.under ids) = e.resolve scope := by
  induction e with
  | column r name =>
    rw [under, resolve, resolve, Scope.owner_under hapart hscope (he (List.mem_singleton_self r))]
    rfl
  | binary op l r ihl ihr =>
    rw [relations, columns, List.map_append] at he
    obtain ⟨hl, hr⟩ := List.append_subset.mp he
    rw [under, resolve, resolve, ihl hl, ihr hr]
  | unary op e ih | aggregate fn e ih => rw [under, resolve, resolve, ih he]
  | literal | countRows | given => rfl

/-- So is an output. -/
theorem Output.resolve_under {o : Output} (ho : o.expr.relations ⊆ known) :
    (o.under ids).resolve (scope.under ids) = o.resolve scope := by
  show ((o.expr.under ids).resolve (scope.under ids) >>= fun term =>
    .ok (Field.mk term (if (o.expr.under ids).isColumnNamed o.name then none else some o.name))) = _
  rw [Expr.resolve_under hapart hscope ho, Expr.isColumnNamed_under]
  rfl

/-- So are the two sides of a key. -/
theorem JoinKey.resolve_under {key : JoinKey} (hkey : key.relations ⊆ known) :
    (key.under ids).resolve (scope.under ids) = key.resolve scope := by
  obtain ⟨hl, hr⟩ := List.append_subset.mp hkey
  show ((key.left.under ids).resolve (scope.under ids) >>= fun l =>
    (key.right.under ids).resolve (scope.under ids) >>= fun r => .ok (Conjunct.equal l r)) = _
  rw [Expr.resolve_under hapart hscope hl, Expr.resolve_under hapart hscope hr]
  rfl

/-- So is the condition of a join. -/
theorem Source.resolveCondition_under {condition? : Option Expr}
    (h : condition?.toList.flatMap Expr.relations ⊆ known) :
    resolveCondition (scope.under ids) (condition?.map (Expr.under ids)) =
      resolveCondition scope condition? := by
  cases condition? with
  | none => rfl
  | some e =>
    have he : e.relations ⊆ known := by simpa using h
    show ((e.under ids).resolve (scope.under ids) >>= fun term => .ok [Conjunct.holds term]) = _
    rw [Expr.resolve_under hapart hscope he]
    rfl

/-- So is the filter of a selection. -/
theorem Selection.resolveFilter_under {s : Selection}
    (h : s.filter?.toList.flatMap Expr.relations ⊆ known) :
    (s.under ids).resolveFilter (scope.under ids) = s.resolveFilter scope := by
  unfold resolveFilter under
  cases hfilter : s.filter? with
  | none => rfl
  | some e =>
    have he : e.relations ⊆ known := by simpa [hfilter] using h
    simp only [Option.map_some, Expr.hasAggregate_under, Expr.resolve_under hapart hscope he]

end Resolution

/-- The clauses of a SELECT are the same when its source gives the same FROM in the same scope. -/
theorem Selection.resolve_under {s : Selection} {visible : List Relation} (hapart : Apart ids known)
    (hvisible : visible ⊆ known) (hs : s.relations ⊆ known)
    {source source' : Scope → Nat → Attempt (FromItem × Nat)}
    (hsource : ∀ scope n, scope.Within known → source' (scope.under ids) n = source scope n)
    (n : Nat) :
    (s.under ids).resolve (visible.map (Relation.under ids)) source' n =
      s.resolve visible source n := by
  obtain ⟨houtputs, hfilter⟩ := List.append_subset.mp hs
  have hnil : Scope.Within [] known := fun entry hentry => by cases hentry
  have hempty : (s.under ids).outputs.isEmpty = s.outputs.isEmpty := List.isEmpty_map
  have hbind := Scope.bindAll_under hapart hnil hvisible n
  have hwithin := hnil.bindAll hvisible n
  -- the three parts of the SELECT that are resolved in its scope
  have hfields :
      (s.under ids).outputs.mapM (Output.resolve ((Scope.bindAll [] visible n).1.under ids)) =
      s.outputs.mapM (Output.resolve (Scope.bindAll [] visible n).1) := by
    refine Attempt.mapM_map fun o ho => Output.resolve_under hapart hwithin fun r hr => ?_
    exact houtputs (List.mem_flatMap.mpr ⟨o, ho, hr⟩)
  have hitem := fun m => hsource _ m hwithin
  have hterm := resolveFilter_under hapart hwithin hfilter
  unfold resolve
  rw [hempty, show Scope.bindAll [] (visible.map (Relation.under ids)) n = _ from hbind]
  simp only [hfields, hitem, hterm]
  rfl

/-! ## Sources and queries -/

namespace Source.Relabelled

variable {s s' : Source}

/-- A source under other identities gives the same FROM. The induction is on the relabelling: a
subquery opens a scope of its own, over identities that are apart in it. -/
theorem resolve (h : s.Relabelled ids s') (hapart : Apart ids known) (hs : s.relations ⊆ known)
    {scope : Scope} (hscope : scope.Within known) (n : Nat) :
    s'.resolve (scope.under ids) n = s.resolve scope n := by
  induction h generalizing known scope n with
  | table id name columns =>
    rw [Source.resolve, Source.resolve,
      ← Scope.owner_under hapart hscope (hs (List.mem_singleton_self _))]
    rfl
  | @derived ids inner source source' id selection hsource hinner ih =>
    have howner := Scope.owner_under hapart hscope (hs (List.mem_singleton_self _))
    have hsub := List.append_subset.mp (List.Subset.refl (source.relations ++ selection.relations))
    have hinside : ∀ scope m, scope.Within (source.relations ++ selection.relations) →
        source'.resolve (scope.under inner) m = source.resolve scope m :=
      fun scope m hwithin => ih hinner hsub.1 hwithin m
    have hselect :=
      Selection.resolve_under hinner (List.Subset.trans source.visible_subset_relations hsub.1)
        hsub.2 hinside n
    rw [Source.resolve, Source.resolve, hsource.visible, hselect, ← howner, Selection.names_under]
    rfl
  | join kind keys condition? _ _ ihl ihr =>
    obtain ⟨hrest, hcondition⟩ := List.append_subset.mp hs
    obtain ⟨hsides, hkeys⟩ := List.append_subset.mp hrest
    obtain ⟨hl, hr⟩ := List.append_subset.mp hsides
    have hconjuncts : (keys.map (JoinKey.under _)).mapM (JoinKey.resolve (scope.under _)) =
        keys.mapM (JoinKey.resolve scope) :=
      Attempt.mapM_map fun key hkey => JoinKey.resolve_under hapart hscope fun r hr =>
        hkeys (List.mem_flatMap.mpr ⟨key, hkey, hr⟩)
    rw [Source.resolve, Source.resolve]
    simp only [ihl hapart hl hscope, ihr hapart hr hscope, hconjuncts,
      resolveCondition_under hapart hscope hcondition]

end Source.Relabelled

namespace Query

variable {q q' : Query}

/-- Queries that differ in identities only have the same statement, or the same fault. -/
theorem Relabelled.statement (h : q.Relabelled q') : q'.statement = q.statement := by
  obtain ⟨ids, hsource, hselection, hapart⟩ := h
  obtain ⟨hs, hsel⟩ := List.append_subset.mp (List.Subset.refl q.relations)
  have hfrom : ∀ scope n, scope.Within q.relations → q'.source.resolve (scope.under ids) n =
      q.source.resolve scope n :=
    fun scope n hscope => hsource.resolve hapart hs hscope n
  have hsame :=
    Selection.resolve_under hapart
      (List.Subset.trans q.source.visible_subset_relations hs) hsel hfrom 1
  rw [Query.statement, Query.statement, hselection, hsource.visible, hsame]

/-- They have the same text. -/
theorem Relabelled.sql (h : q.Relabelled q') (d : Dialect) : q'.sql d = q.sql d := by
  rw [Query.sql, Query.sql, h.statement]

end Query

end LazyFrame
