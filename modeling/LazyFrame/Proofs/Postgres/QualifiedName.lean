import Mathlib.Data.List.Basic
import Mathlib.Data.List.TakeWhile
import LazyFrame.Postgres.Pool
import LazyFrame.Proofs.Asking
import LazyFrame.Proofs.Sql.Spelling

/-!
# Qualified names

A relation of a PostgreSQL database has a schema and a name of its own, and the library knows it by
the two with a dot between them. This qualified name is put together in one place, where the tables
are listed, and taken apart in two: `listColumns` splits it at its first dot to look the relation
up, and the dialect splits it at every dot to print it. Each of them gives back the relation that
was listed under a condition of its own, and the conditions are not the same:

* the lookup asks for the relation exactly if its schema has no dot (`splitName_qualify_iff`);
* the statement names the relation exactly if neither schema nor name has one (`table_qualify_iff`);
* and no other relation goes by the same qualified name exactly if neither has one
  (`qualify_unique_iff`).

So a relation whose name has a dot is listed and looked up, and then a statement on it reads from
something else.
-/

namespace LazyFrame

/-! ## A name in its parts -/

namespace Dialect

variable {cs : List Char}

/-- Whatever is split at its dots has parts. -/
theorem parts_ne_nil (cs : List Char) : parts cs ≠ [] := by
  rw [parts_eq_splitOn]
  exact List.splitOn_ne_nil _ _

/-- Two lists of parts are joined by one more dot. -/
theorem joinDots_append : ∀ {xs ys : List (List Char)}, xs ≠ [] → ys ≠ [] →
    joinDots (xs ++ ys) = joinDots xs ++ '.' :: joinDots ys
  | [], _, h, _ => absurd rfl h
  | [_], [], _, h => absurd rfl h
  | [_], _ :: _, _, _ => rfl
  | x :: x' :: xs, ys, _, h => by
    have ih : joinDots (x' :: xs ++ ys) = joinDots (x' :: xs) ++ '.' :: joinDots ys :=
      joinDots_append (List.cons_ne_nil _ _) h
    show x ++ '.' :: joinDots (x' :: xs ++ ys) = (x ++ '.' :: joinDots (x' :: xs)) ++
      '.' :: joinDots ys
    rw [ih, List.append_assoc, List.cons_append]

/-- The characters of a table name of PostgreSQL: its parts as identifiers, with dots between
them. -/
def tableChars (cs : List Char) : List Char := joinDots ((parts cs).map postgres.identifierChars)

/-- A name without a dot is written as an identifier. -/
theorem tableChars_of_no_dot (h : '.' ∉ cs) : tableChars cs = postgres.identifierChars cs := by
  rw [tableChars, parts_eq_splitOn, List.splitOn_eq_singleton h]
  rfl

/-- A name with a dot is written part by part. -/
theorem tableChars_append_dot (front back : List Char) :
    tableChars (front ++ '.' :: back) = tableChars front ++ '.' :: tableChars back := by
  have hne : ∀ cs : List Char, (parts cs).map postgres.identifierChars ≠ [] := fun cs h =>
    parts_ne_nil cs (List.map_eq_nil_iff.mp h)
  rw [tableChars, parts_eq_splitOn, List.splitOn_append_cons_self, List.map_append,
    ← parts_eq_splitOn, ← parts_eq_splitOn, joinDots_append (hne front) (hne back)]
  rfl

/-- A bare identifier begins with no quote and has no dot in it. -/
theorem not_mem_of_isBare (h : postgres.isBare cs = true) : cs ≠ [] ∧ '"' ∉ cs ∧ '.' ∉ cs := by
  cases cs with
  | nil => cases h
  | cons c rest =>
    have hword : isLowerStart c = true ∧ ∀ d ∈ rest, isLowerStart d = true ∨ d.isDigit = true := by
      simpa [isBare, isWord] using (Bool.and_eq_true_iff.mp h).1
    have hall : ∀ d ∈ c :: rest, isLowerStart d = true ∨ d.isDigit = true :=
      List.forall_mem_cons.mpr ⟨.inl hword.1, hword.2⟩
    refine ⟨List.cons_ne_nil _ _, fun hmem => ?_, fun hmem => ?_⟩
    · exact absurd (hall _ hmem) (by decide)
    · exact absurd (hall _ hmem) (by decide)

/-- What is enclosed in quotes is enclosed from its front on. -/
theorem enclose_append (q : Char) (front back : List Char) :
    enclose q (front ++ back) =
      q :: (front.flatMap (fun c => if c = q then [q, q] else [c]) ++ (enclose q back).tail) := by
  rw [enclose, enclose, List.flatMap_append, List.append_assoc, List.tail_cons]

/-- A name with a dot is printed differently as a table and as an identifier, whatever follows: the
first part ends where the identifier goes on, or it stays bare where the identifier begins with a
quote. -/
theorem tableChars_ne_identifierChars (h : '.' ∈ cs) (x y : List Char) :
    tableChars cs ++ x ≠ postgres.identifierChars cs ++ y := by
  obtain ⟨front, back, rfl, hfront⟩ := List.eq_append_cons_of_mem h
  have hquoted : ¬ postgres.isBare (front ++ '.' :: back) = true :=
    fun hbare => (not_mem_of_isBare hbare).2.2 h
  rw [tableChars_append_dot, tableChars_of_no_dot hfront, identifierChars, identifierChars,
    if_neg hquoted]
  by_cases hbare : postgres.isBare front = true
  · obtain ⟨hne, hquote, -⟩ := not_mem_of_isBare hbare
    obtain ⟨c, rest, rfl⟩ := List.exists_cons_of_ne_nil hne
    rw [if_pos hbare]
    intro heq
    exact hquote (List.mem_cons.mpr (.inl (List.cons.inj heq).1.symm))
  · rw [if_neg hbare, enclose_append]
    intro heq
    -- behind the opening quote and the characters of the first part stands a quote or the dot
    simp [enclose] at heq

end Dialect

/-! ## The catalog -/

namespace Pool

/-- One query on any client, and then its rows one by one. -/
theorem run_anywhere {α : Type} (statement : String) (parameters : List String)
    (row : Value → Attempt α) :
    (do
        let answer ← anywhere statement parameters
        let rows ← Asking.ofAttempt (answer.listOf "rows")
        Asking.ofAttempt (rows.mapM row) : Asking interface (List α)).run =
      .ask (.query none statement parameters false) fun answer =>
        .done (answer >>= fun answer => answer.listOf "rows" >>= fun rows => rows.mapM row) := by
  simp only [Asking.ofAttempt_bind_ofAttempt, anywhere, Asking.run_request_bind]
  rfl

/-- What the table query reports for the relation of a schema. -/
def catalogRow (relation : String × String) : Value :=
  .record [("schema", .text relation.1), ("name", .text relation.2)]

/-- Where the catalog has these relations, the tables of the database are listed by these names. -/
def Lists (relations : List (String × String)) (names : List String) : Prop :=
  ∃ read : Attempt Value → Attempt (List String),
    listTables.run = .ask (.query none tableQuery [] false) (fun answer => .done (read answer)) ∧
      read (.ok (.list (relations.map catalogRow))) = .ok names

/-- The columns of a table are those that the catalog has for the relation of a schema. -/
def LooksUp (table schema name : String) : Prop :=
  ∃ read : Attempt Value → Attempt (List Column),
    (listColumns table).run = .ask (.query none columnQuery [schema, name] false) fun answer =>
      .done (read answer)

/-- The rows of the listing are read as qualified names. -/
theorem mapM_tableOfRow (relations : List (String × String)) :
    (relations.map catalogRow).mapM tableOfRow =
      .ok (relations.map fun relation => qualify relation.1 relation.2) := by
  induction relations with
  | nil => rfl
  | cons relation rest ih =>
    have hrow : tableOfRow (catalogRow relation) = .ok (qualify relation.1 relation.2) := rfl
    rw [List.map_cons, List.mapM_cons, hrow, ih]
    rfl

/-- The listing gives the qualified names of all relations. -/
theorem lists_qualified (relations : List (String × String)) :
    Lists relations (relations.map fun relation => qualify relation.1 relation.2) :=
  ⟨_, run_anywhere tableQuery [] tableOfRow, mapM_tableOfRow relations⟩

variable {schema name table : String}

/-- Columns are looked up under the two parts that a name is split into. -/
theorem looksUp_iff : LooksUp table schema name ↔ splitName table = (schema, name) := by
  have hrun := run_anywhere columnQuery [(splitName table).1, (splitName table).2] columnOfRow
  constructor
  · rintro ⟨read, hread⟩
    injection hrun.symm.trans hread with hrequest
    injection hrequest with _ _ hparameters
    injection hparameters with hschema hrest
    exact Prod.ext hschema (List.cons.inj hrest).1
  · intro h
    obtain ⟨hschema, hname⟩ := Prod.mk.inj h
    subst hschema hname
    exact ⟨_, hrun⟩

theorem toList_qualify (schema name : String) :
    (qualify schema name).toList = schema.toList ++ '.' :: name.toList := by
  simp [qualify]

/-- A qualified name is split where its schema ends exactly if that is its first dot. -/
theorem splitName_qualify_iff :
    splitName (qualify schema name) = (schema, name) ↔ '.' ∉ schema.toList := by
  have hdot : (qualify schema name).toList.contains '.' = true := by
    simp [toList_qualify]
  rw [splitName, if_pos hdot, toList_qualify]
  constructor
  · intro h hmem
    have hfront : schema.toList = (schema.toList ++ '.' :: name.toList).takeWhile (· != '.') := by
      conv_lhs => rw [← (Prod.mk.inj h).1, String.toList_ofList]
    rw [hfront] at hmem
    exact absurd (List.mem_takeWhile_imp hmem) (by decide)
  · intro h
    have hall : ∀ c ∈ schema.toList, (c != '.') = true := fun c hc => by
      have hne : c ≠ '.' := fun heq => h (heq ▸ hc)
      simpa using hne
    rw [List.takeWhile_append_of_pos hall, List.dropWhile_append_of_pos hall]
    simp

/-! ## The statement -/

/-- As a table a qualified name is schema and name as identifiers exactly if it has one dot only. -/
theorem table_qualify_iff :
    Dialect.postgres.table (qualify schema name) =
        Dialect.postgres.identifier schema ++ "." ++ Dialect.postgres.identifier name ↔
      '.' ∉ schema.toList ∧ '.' ∉ name.toList := by
  have hchars : Dialect.postgres.table (qualify schema name) =
        Dialect.postgres.identifier schema ++ "." ++ Dialect.postgres.identifier name ↔
      Dialect.tableChars schema.toList ++ '.' :: Dialect.tableChars name.toList =
        Dialect.postgres.identifierChars schema.toList ++
          '.' :: Dialect.postgres.identifierChars name.toList := by
    rw [← Dialect.tableChars_append_dot, ← String.toList_inj]
    simp [Dialect.table, Dialect.tableChars, Dialect.identifier, toList_qualify]
  rw [hchars]
  constructor
  · intro h
    have hschema : '.' ∉ schema.toList :=
      fun hmem => Dialect.tableChars_ne_identifierChars hmem _ _ h
    rw [Dialect.tableChars_of_no_dot hschema] at h
    have hname := (List.cons.inj (List.append_cancel_left h)).2
    exact ⟨hschema, fun hmem => Dialect.tableChars_ne_identifierChars hmem [] [] (by rw [hname])⟩
  · rintro ⟨hschema, hname⟩
    rw [Dialect.tableChars_of_no_dot hschema, Dialect.tableChars_of_no_dot hname]

/-! ## Other relations -/

/-- Two qualified names are equal exactly if they are as texts with a dot. -/
theorem qualify_inj_iff {schema' name' : String} :
    qualify schema' name' = qualify schema name ↔
      schema'.toList ++ '.' :: name'.toList = schema.toList ++ '.' :: name.toList := by
  rw [← String.toList_inj, toList_qualify, toList_qualify]

/-- No other relation has the same qualified name exactly if there is one dot only. -/
theorem qualify_unique_iff :
    (∀ schema' name', qualify schema' name' = qualify schema name →
      (schema', name') = (schema, name)) ↔ '.' ∉ schema.toList ∧ '.' ∉ name.toList := by
  constructor
  · intro h
    -- where there is another dot, the relation that is split there has the same name
    have hother : ∀ front back : List Char, front ++ '.' :: back =
        schema.toList ++ '.' :: name.toList → front = schema.toList := by
      intro front back hfront
      have hsame :=
        h (String.ofList front) (String.ofList back) (qualify_inj_iff.mpr (by simpa using hfront))
      simpa using congrArg (fun relation : String × String => relation.1.toList) hsame
    constructor
    · intro hmem
      obtain ⟨front, back, hschema, -⟩ := List.eq_append_cons_of_mem hmem
      have hfront := hother front (back ++ '.' :: name.toList) (by simp [hschema])
      simp [← hfront] at hschema
    · intro hmem
      obtain ⟨front, back, hname, -⟩ := List.eq_append_cons_of_mem hmem
      have hfront := hother (schema.toList ++ '.' :: front) back (by simp [hname])
      simp at hfront
  · rintro ⟨hschema, hname⟩ schema' name' h
    obtain ⟨hfront, -, hback⟩ :=
      (List.append_cons_inj_of_notMem hschema hname).mp (qualify_inj_iff.mp h).symm
    exact Prod.ext (String.toList_inj.mp hfront.symm) (String.toList_inj.mp hback.symm)

/-! ## One name, one relation -/

/-- What the qualified name of a relation is good for. Whatever else the catalog has, the relation
is listed by it. The name is looked up as that relation exactly if the schema has no dot in it. It
is printed as schema and name, and belongs to no other relation, exactly if neither of the two has a
dot in it. -/
theorem qualified_name_iff (schema name : String) :
    (∀ before after, Lists (before ++ (schema, name) :: after)
      (before.map (fun relation => qualify relation.1 relation.2) ++ qualify schema name ::
        after.map fun relation => qualify relation.1 relation.2)) ∧
    (LooksUp (qualify schema name) schema name ↔ '.' ∉ schema.toList) ∧
    (Dialect.postgres.table (qualify schema name) =
        Dialect.postgres.identifier schema ++ "." ++ Dialect.postgres.identifier name ↔
      '.' ∉ schema.toList ∧ '.' ∉ name.toList) ∧
    ((∀ schema' name', qualify schema' name' = qualify schema name →
      (schema', name') = (schema, name)) ↔ '.' ∉ schema.toList ∧ '.' ∉ name.toList) := by
  refine ⟨fun before after => ?_, looksUp_iff.trans splitName_qualify_iff, table_qualify_iff,
    qualify_unique_iff⟩
  have hlists := lists_qualified (before ++ (schema, name) :: after)
  rwa [List.map_append, List.map_cons] at hlists

/-- The relation `order.items` of the schema `public` is listed and looked up, but a statement names
the relation `items` of a schema `order` of a database `public` instead. And a relation `items` of a
schema `public.order` is listed by the same name, and looked up as the former. -/
theorem qualified_name_dotted :
    Lists [("public", "order.items"), ("public.order", "items")]
      ["public.order.items", "public.order.items"] ∧
      LooksUp "public.order.items" "public" "order.items" ∧
      Dialect.postgres.table "public.order.items" = "public.\"order\".items" ∧
      Dialect.postgres.identifier "public" ++ "." ++ Dialect.postgres.identifier "order.items" =
        "public.\"order.items\"" ∧
      "public.\"order\".items" ≠ "public.\"order.items\"" ∧
      ¬ LooksUp "public.order.items" "public.order" "items" := by
  refine ⟨lists_qualified [("public", "order.items"), ("public.order", "items")],
    looksUp_iff.mpr rfl, rfl, rfl, by decide, ?_⟩
  rw [looksUp_iff]
  decide

end Pool

end LazyFrame
