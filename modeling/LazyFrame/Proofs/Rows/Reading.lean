import LazyFrame.Proofs.Identity.Relabelled
import LazyFrame.Proofs.Rows.Basic

/-!
# What an expression reads

The value of an expression depends on the columns it refers to and on nothing else
(`Expr.value_congr`), and a new identity moves the place where they are looked up
(`Expr.value_under`). Every row of a source has a part for each visible relation
(`Source.relations_rows`), so an expression over the relations of one side of a join does not
notice that the row goes on (`value_append_left`, `value_append_right`).

From this follows that the identities of relations do not matter: the rows of a source under other
identities are the same up to the relations they name (`Source.Relabelled.rows`).
-/

namespace LazyFrame

variable {α : Type} {S : Scalars α}

/-! ## Expressions -/

namespace Expr

/-- The value of an expression depends on its columns only. -/
theorem value_congr {env env' : Env α} {e : Expr}
    (h : ∀ ref ∈ e.columns, env ref.relation ref.name = env' ref.relation ref.name) :
    e.value S env = e.value S env' := by
  induction e with
  | column r name => exact h ⟨r, name⟩ (List.mem_singleton_self _)
  | literal v => rfl
  | binary op l r ihl ihr =>
    have hl := ihl fun ref href => h ref (List.mem_append_left _ href)
    have hr := ihr fun ref href => h ref (List.mem_append_right _ href)
    rw [value, value, hl, hr]
  | unary op e ih =>
    rw [value, value, ih h]
  | aggregate fn e ih => rfl
  | countRows => rfl
  | given v => rfl

/-- An expression whose relations are sent somewhere has the value of the old one where every
relation is looked up there. -/
theorem value_mapped (f : Relation → Relation) (env : Env α) (e : Expr) :
    (e.mapped f).value S env = e.value S fun r => env (f r) := by
  induction e with
  | column | literal | aggregate | countRows | given => rfl
  | binary op l r ihl ihr => rw [mapped, value, value, ihl, ihr]
  | unary op e ih => rw [mapped, value, value, ih]

/-- A substitution has the value of the old expression where every relation is looked up as its
image. -/
theorem value_substitute (map : Relabelling) (env : Env α) (e : Expr) :
    (e.substitute map).value S env = e.value S fun r => env (map.image r) := by
  rw [substitute_eq_mapped, value_mapped]

/-- Under other identities, the value is that of the expression where each relation has the cells of
its image. -/
theorem value_under (ids : Relation → Nat) (env : Env α) (e : Expr) :
    (e.under ids).value S env = e.value S fun r => env (r.under ids) := by
  rw [under_eq_mapped, value_mapped]

/-- A conjunction of predicates is true when the ones that are there are. -/
theorem all_conjoin (env : Env α) (a? b? : Option Expr) :
    (conjoin a? b?).all (fun e => S.isTrue (e.value S env)) =
      (a?.all (fun e => S.isTrue (e.value S env)) && b?.all fun e => S.isTrue (e.value S env)) := by
  cases a? with
  | none => rfl
  | some a =>
    cases b? with
    | none => exact (Bool.and_true _).symm
    | some b => exact S.isTrue_and _ _

end Expr

/-! ## Rows of a source -/

namespace SourceRow

variable {row other : SourceRow α} {rs : List Relation} {e : Expr}

/-- Two rows side by side name the relations of both. -/
theorem relations_append (row other : SourceRow α) :
    relations (row ++ other) = relations row ++ relations other :=
  List.map_append

/-- A row of NULL names the relations that it was made for. -/
theorem relations_blank (S : Scalars α) (rs : List Relation) : relations (blank S rs) = rs := by
  rw [relations, blank, List.map_map]
  exact List.map_id _

/-- A relation has no cells in a row that does not name it. -/
theorem lookup_eq_none {r : Relation} : row.lookup r = none ↔ r ∉ row.relations := by
  rw [List.lookup_eq_none_iff, relations]
  constructor
  · intro h hr
    obtain ⟨part, hpart, rfl⟩ := List.mem_map.mp hr
    simpa using h part hpart
  · intro h part hpart
    rw [bne_iff_ne]
    intro heq
    subst heq
    exact h (List.mem_map_of_mem hpart)

/-- What is on the left of two rows is read there. -/
theorem env_append_left {r : Relation} (h : r ∈ row.relations) :
    env S (row ++ other) r = env S row r := by
  cases hl : row.lookup r with
  | none => exact absurd h (lookup_eq_none.mp hl)
  | some cells =>
    funext name
    simp only [env, List.lookup_append, hl, Option.some_or]

/-- What is not on the left is read on the right. -/
theorem env_append_right {r : Relation} (h : r ∉ row.relations) :
    env S (row ++ other) r = env S other r := by
  funext name
  simp only [env, List.lookup_append, lookup_eq_none.mpr h, Option.none_or]

/-- In a row of NULL, every column is NULL. -/
theorem env_blank (S : Scalars α) (rs : List Relation) : env S (blank S rs) = Env.blank S := by
  funext r name
  unfold env Env.blank
  split
  · rename_i cells hcells
    obtain ⟨before, after, happ, _⟩ := List.lookup_eq_some_iff.mp hcells
    have hmem : (r, cells) ∈ blank S rs := by
      rw [happ]
      simp
    obtain ⟨_, _, heq⟩ := List.mem_map.mp hmem
    cases heq
    rfl
  · rfl

/-- An expression over the left row has its value there. -/
theorem value_append_left (h : e.InScope rs) (hrow : row.relations = rs) :
    e.value S (env S (row ++ other)) = e.value S (env S row) :=
  Expr.value_congr fun ref href => by rw [env_append_left (hrow ▸ (h ref href).1)]

/-- An expression over other relations has its value on the right. -/
theorem value_append_right (h : e.InScope rs) (hdisjoint : row.relations.Disjoint rs) :
    e.value S (env S (row ++ other)) = e.value S (env S other) :=
  Expr.value_congr fun ref href => by
    rw [env_append_right fun hmem => hdisjoint hmem (h ref href).1]

end SourceRow

/-! ## Other identities -/

section Identities

variable {ids : Relation → Nat} {rs : List Relation}

namespace SourceRow

variable {row : SourceRow α}

/-- The row whose parts belong to relations under their new identities. -/
def under (ids : Relation → Nat) (row : SourceRow α) : SourceRow α :=
  List.map (fun part => (part.1.under ids, part.2)) row

/-- Two rows side by side come under other identities side by side. -/
theorem under_append (row other : SourceRow α) :
    under ids (row ++ other) = under ids row ++ under ids other :=
  List.map_append

/-- So does a row of NULL. -/
theorem under_blank (rs : List Relation) :
    under ids (blank S rs) = blank S (rs.map (Relation.under ids)) := by
  simp [under, blank]

/-- An expression has the same value when it and the row come under other identities. -/
theorem value_under {e : Expr} (h : e.InScope rs) (hrow : row.relations = rs)
    (hapart : Apart ids rs) :
    (e.under ids).value S (env S (under ids row)) = e.value S (env S row) := by
  rw [Expr.value_under]
  refine Expr.value_congr fun ref href => ?_
  have hparts : ∀ part ∈ row, part.1 ∈ rs := fun part hpart => hrow ▸ List.mem_map_of_mem hpart
  have hlookup : (under ids row).lookup (ref.relation.under ids) = row.lookup ref.relation :=
    hapart.lookup hparts (h ref href).1
  simp only [env, hlookup]

end SourceRow

/-- The ON of a join is as true under the new identities as it was before. -/
theorem JoinKey.allMatch_under {keys : List JoinKey} {condition? : Option Expr} {row : SourceRow α}
    (hrow : row.relations = rs) (hapart : Apart ids rs)
    (hkeys : ∀ key ∈ keys, key.left.InScope rs ∧
      key.right.InScope rs) (hcondition : ∀ e ∈ condition?, e.InScope rs) :
    allMatch S (keys.map (JoinKey.under ids)) (condition?.map (Expr.under ids))
        (SourceRow.env S (SourceRow.under ids row)) =
      allMatch S keys condition? (SourceRow.env S row) := by
  have hall : (keys.map (JoinKey.under ids)).all
        (fun key =>
          S.isTrue (S.binary .eq (key.left.value S (SourceRow.env S (SourceRow.under ids row)))
          (key.right.value S (SourceRow.env S (SourceRow.under ids row))))) =
      keys.all fun key => S.isTrue (S.binary .eq (key.left.value S (SourceRow.env S row))
        (key.right.value S (SourceRow.env S row))) := by
    rw [List.all_map, Bool.eq_iff_iff, List.all_eq_true, List.all_eq_true]
    refine forall₂_congr fun key hkey => ?_
    simp only [Function.comp_apply, JoinKey.under,
      SourceRow.value_under (hkeys key hkey).1 hrow hapart,
      SourceRow.value_under (hkeys key hkey).2 hrow hapart]
  unfold allMatch
  rw [hall]
  cases condition? with
  | none => rfl
  | some e => simp [SourceRow.value_under (hcondition e rfl) hrow hapart]

namespace Selection

variable {s : Selection}

theorem isAggregate_under : (s.under ids).isAggregate = s.isAggregate := by
  show (s.outputs.map (Output.under ids)).any _ = s.outputs.any _
  rw [List.any_map]
  exact congrArg s.outputs.any (funext fun o => o.expr.hasAggregate_under)

/-- Under other identities a selection computes the same on a row. -/
theorem project_under (h : s.WellFormed rs) {row : SourceRow α} (hrow : row.relations = rs)
    (hapart : Apart ids rs) :
    (s.under ids).project S (SourceRow.env S (SourceRow.under ids row)) =
      s.project S (SourceRow.env S row) := by
  show (s.outputs.map (Output.under ids)).map _ = _
  rw [List.map_map]
  exact List.map_congr_left fun o ho => SourceRow.value_under (h.outputs o ho).inScope hrow hapart

/-- And keeps the same rows. -/
theorem keeps_under (h : s.WellFormed rs) {row : SourceRow α} (hrow : row.relations = rs)
    (hapart : Apart ids rs) :
    (s.under ids).keeps S (SourceRow.env S (SourceRow.under ids row)) =
      s.keeps S (SourceRow.env S row) := by
  show (s.filter?.map (Expr.under ids)).all _ = s.filter?.all _
  cases hfilter : s.filter? with
  | none => rfl
  | some e =>
    simp only [Option.map_some, Option.all_some,
      SourceRow.value_under (h.filter e hfilter).inScope hrow hapart]

end Selection

end Identities

/-- What a left row is put beside is a matching row, or the blank one. -/
theorem JoinKind.mem_partners {β : Type} {kind : JoinKind} {matching : List β} {blank x : β}
    (h : x ∈ kind.partners matching blank) : x ∈ matching ∨ x = blank := by
  cases kind with
  | inner => exact Or.inl h
  | left =>
    unfold partners at h
    dsimp only at h
    split at h
    · exact Or.inr (List.mem_singleton.mp h)
    · exact Or.inl h

/-- The partners of a row do not depend on what is made of them. -/
theorem JoinKind.partners_map {β γ : Type} (kind : JoinKind) (f : β → γ) (matching : List β)
    (blank : β) :
    kind.partners (matching.map f) (f blank) = (kind.partners matching blank).map f := by
  cases kind with
  | inner => rfl
  | left =>
    cases matching with
    | nil => rfl
    | cons first rest => rfl

/-! ## Sources -/

section Rows

variable [DecidableEq α] {db : Database α}

/-- A row has one part for each visible relation, in order. -/
theorem Source.relations_rows {s : Source} : ∀ row ∈ s.rows S db, row.relations = s.visible := by
  induction s with
  | table id name columns =>
    intro row hrow
    obtain ⟨_, _, rfl⟩ := List.mem_map.mp hrow
    rfl
  | derived id source selection ih =>
    intro row hrow
    obtain ⟨_, _, rfl⟩ := List.mem_map.mp hrow
    rfl
  | join left right kind keys condition? ihl ihr =>
    intro row hrow
    obtain ⟨l, hl, hrow⟩ := List.mem_flatMap.mp hrow
    obtain ⟨r, hr, rfl⟩ := List.mem_map.mp hrow
    rw [SourceRow.relations_append, ihl l hl, visible]
    -- the right part is a row of the right side or the blank one, which has its relations too
    rcases JoinKind.mem_partners hr with hr | rfl
    · rw [ihr r (List.mem_filter.mp hr).1]
    · rw [SourceRow.relations_blank]

/-- Where the rows of both sides are changed one by one and the same pairs match, the rows of the
join are changed in the same way. -/
theorem Source.rows_join_map {left left' right right' : Source} {kind : JoinKind}
    {keys keys' : List JoinKey}
    {condition? condition?' : Option Expr} {f : SourceRow α → SourceRow α}
    (hleft : left'.rows S db = (left.rows S db).map f) (hright : right'.rows S db =
      (right.rows S db).map f)
    (hblank : SourceRow.blank S right'.visible = f (SourceRow.blank S right.visible))
    (happend : ∀ l r, f (l ++ r) = f l ++ f r)
    (hmatch : ∀ l ∈ left.rows S db, ∀ r ∈ right.rows S db,
      JoinKey.allMatch S keys' condition?' (SourceRow.env S (f (l ++ r))) =
        JoinKey.allMatch S keys condition? (SourceRow.env S (l ++ r))) :
    (join left' right' kind keys' condition?').rows S db =
      ((join left right kind keys condition?).rows S db).map f := by
  rw [rows, hleft, hright, hblank, rows, List.map_flatMap, List.flatMap_map]
  refine List.flatMap_congr fun l hl => ?_
  have hmatching : ((right.rows S db).map f).filter
        (fun r => JoinKey.allMatch S keys' condition?' (SourceRow.env S (f l ++ r))) =
      ((right.rows S db).filter fun r =>
        JoinKey.allMatch S keys condition? (SourceRow.env S (l ++ r))).map f := by
    rw [List.filter_map]
    refine congrArg _ (List.filter_congr fun r hr => ?_)
    rw [Function.comp_apply, ← happend]
    exact hmatch l hl r hr
  simp only [hmatching, JoinKind.partners_map, List.map_map]
  exact List.map_congr_left fun r _ => (happend l r).symm

end Rows

end LazyFrame
