import LazyFrame.Proofs.Faults.Proper
import LazyFrame.Proofs.Sql.Terms

/-!
# What a plan chooses stays in its tokens

There are no parameters in a statement: texts of literals and names of columns, outputs and tables
are printed right into it, whatever characters they have. `Query.chosen` lists them in the order in
which the printer gets to them. The statement of a query that builders make is read as tokens of
which exactly these are chosen, each of them one token that decodes to what was chosen; the only
semicolon is the last token, and there is no comment (`Query.sql_confined`). Only a query that is
put together by hand may have bounds and operators that are texts themselves, written as they are;
those are not proper.

The proof follows the printer, from the pieces of terms on (`Term.Phrased`). An alias is a word of
small letters (`Scope.Worded`), so it lets a point, a blank or a parenthesis follow. A term lets
every break follow, and an operand does not begin with an equals sign that could join that of a join
key.
-/

namespace LazyFrame

open Lexer (anything steps)

/-! ## What a plan chooses -/

/-- What an output chooses. Its name is not written behind a column of that name. -/
def Output.chosen (o : Output) : List Piece :=
  o.expr.chosen ++ if o.expr.isColumnNamed o.name then [] else [.name o.name]

/-- What a join key chooses. -/
def JoinKey.chosen (key : JoinKey) : List Piece := key.left.chosen ++ key.right.chosen

/-- What a SELECT chooses, around what its FROM chooses. -/
def Selection.chosen (s : Selection) (source : List Piece) : List Piece :=
  s.outputs.flatMap Output.chosen ++ source ++ s.filter?.toList.flatMap Expr.chosen

/-- What a source chooses. -/
def Source.chosen (d : Dialect) : Source → List Piece
  | table _ name _ => d.tableNames name
  | derived _ source selection => selection.chosen (source.chosen d)
  | join left right _ keys condition? =>
    left.chosen d ++ right.chosen d ++
      (keys.flatMap JoinKey.chosen ++ condition?.toList.flatMap Expr.chosen)

/-- What a query chooses, in the order of its statement. -/
def Query.chosen (d : Dialect) (q : Query) : List Piece := q.selection.chosen (q.source.chosen d)

/-- Whether a name is a keyword of a dialect; SQLite does not look at case. -/
def Dialect.isKeyword (d : Dialect) (name : String) : Bool :=
  match d with
  | sqlite => Keywords.sqlite.contains (String.ofList (name.toList.map Char.toLower))
  | postgres => Keywords.postgres.contains name

theorem Dialect.isKeyword_of_isBare {d : Dialect} {name : String}
    (h : d.isBare name.toList = true) : d.isKeyword name = false := by
  cases d with
  | sqlite => simpa [isKeyword] using (Bool.and_eq_true_iff.mp h).2
  | postgres => simpa [isKeyword] using (Bool.and_eq_true_iff.mp h).2

/-! ## Aliases and terms -/

section Terms

variable {d : Dialect} {scope : Scope}

/-- The alias of a relation is a word of the printer. -/
theorem spelled_owner (hscope : scope.Worded) {r : Relation} {name : String}
    (howner : scope.owner r = .ok name) : Spelled d (fun e => !Lexer.isWordPart e) name [] := by
  obtain ⟨n, hn, rfl⟩ := hscope.owner howner
  exact (spelledAs_alias hn).spelled (by simp [Piece.semicolon])

namespace Expr

variable {e : Expr} {t : Term}

theorem exists_phrased (hscope : scope.Worded) (h : e.IsProper) (ht : e.resolve scope = .ok t) :
    ∃ ps, t.Phrased ps ∧ ps.filter Piece.isChosen = e.chosen :=
  (resolves_of_resolve h.isBuilt ht).exists_phrased hscope

theorem opens_operand (hscope : scope.Worded) (h : e.IsProper) (ht : e.resolve scope = .ok t) :
    Opens (· ≠ '=') (t.operandText d) := by
  obtain ⟨ps, hps, _⟩ := exists_phrased hscope h ht
  exact hps.opens_operandText

/-- A term is read as what its expression chooses. -/
theorem spelled (hscope : scope.Worded) (h : e.IsProper) (ht : e.resolve scope = .ok t) :
    Spelled d isBreak (t.text d) e.chosen := by
  obtain ⟨ps, hps, hchosen⟩ := exists_phrased hscope h ht
  rw [← hchosen]
  exact hps.spelledAs.spelled hps.semicolon_not_mem

end Expr

end Terms

/-! ## Clauses -/

section Clauses

variable {d : Dialect} {scope : Scope}

theorem Output.spelled (hscope : scope.Worded) {o : Output} (h : o.expr.IsProper) {f : Field}
    (hf : o.resolve scope = .ok f) : Spelled d isBreak (f.text d) o.chosen := by
  obtain ⟨t, ht, hf⟩ := Attempt.bind_eq_ok.mp hf
  cases hf
  have hterm : Spelled d isBreak (t.text d) o.expr.chosen := Expr.spelled hscope h ht
  unfold Output.chosen Field.text
  cases o.expr.isColumnNamed o.name with
  | true => simpa using hterm
  | false =>
    exact hterm.joined spelled_as rfl ((spelled_identifier o.name).mono (of_isBreak (by decide)))

/-- The sides of a join key, with nothing but an equals sign between them. -/
theorem JoinKey.spelled (hscope : scope.Worded) {key : JoinKey} (h : key.IsProper) {c : Conjunct}
    (hc : key.resolve scope = .ok c) : Spelled d isBreak (c.text d) key.chosen := by
  obtain ⟨l, hl, hc⟩ := Attempt.bind_eq_ok.mp hc
  obtain ⟨r, hr, hc⟩ := Attempt.bind_eq_ok.mp hc
  cases hc
  have hleft : Spelled d isBreak (l.operandText d) key.left.chosen :=
    (Expr.spelled hscope h.left hl).parenthesised _
  have hright : Spelled d isBreak (r.operandText d) key.right.chosen :=
    (Expr.spelled hscope h.right hr).parenthesised _
  have hopens : Opens isBreak "=" := rfl
  have hfront : Spelled d (· ≠ '=') (l.operandText d ++ "=") key.left.chosen :=
    hleft.closed spelled_equals hopens
  exact hfront.append hright fun rest _ => (Expr.opens_operand hscope h.right hr).before rest

/-- The conjuncts of a join: its keys and then its condition. -/
theorem Source.spelled_conjuncts (hscope : scope.Worded) {keys : List JoinKey}
    (hkeys : ∀ key ∈ keys, key.IsProper) {condition? : Option Expr}
    (hcondition : ∀ e ∈ condition?, e.IsProper) {equalities extra : List Conjunct}
    (hequalities : keys.mapM (JoinKey.resolve scope) = .ok equalities)
    (hextra : resolveCondition scope condition? = .ok extra) :
    Spelled d isBreak (" AND ".intercalate ((equalities ++ extra).map (Conjunct.text d)))
      (keys.flatMap JoinKey.chosen ++ condition?.toList.flatMap Expr.chosen) := by
  have hfront : List.Forall₂ (fun a s => Spelled d isBreak s a) (keys.map JoinKey.chosen)
      (equalities.map (Conjunct.text d)) := by
    rw [List.forall₂_map_left_iff, List.forall₂_map_right_iff]
    have hall := (List.forall₂_and_left _ _).mpr ⟨hkeys, Attempt.mapM_eq_ok.mp hequalities⟩
    exact hall.imp fun key c ⟨hkey, hc⟩ => JoinKey.spelled hscope hkey hc
  have hback : List.Forall₂ (fun a s => Spelled d isBreak s a) (condition?.toList.map Expr.chosen)
      (extra.map (Conjunct.text d)) := by
    cases condition? with
    | none =>
      cases hextra
      exact .nil
    | some e =>
      obtain ⟨t, ht, hextra⟩ := Attempt.bind_eq_ok.mp hextra
      cases hextra
      exact .cons ((Expr.spelled hscope (hcondition e rfl) ht).parenthesised _) .nil
  have hand : Spelled d anything " AND " [] :=
    .fixed 3 [.word "AND".toList] (fun _ => rfl) (by decide)
  rw [List.map_append, List.flatMap_def, List.flatMap_def, ← List.flatten_append]
  exact .intercalate hand rfl (List.rel_append hfront hback)

/-- The WHERE of a SELECT, empty without a filter. -/
def Clauses.whereText (d : Dialect) (filter? : Option Term) : String :=
  match filter? with
  | some filter => " WHERE " ++ filter.text d
  | none => ""

theorem Selection.trailing_filter (hscope : scope.Worded) {s : Selection} (h : s.IsProper)
    {filter? : Option Term} (hfilter : s.resolveFilter scope = .ok filter?) :
    Trailing d (Clauses.whereText d filter?) (s.filter?.toList.flatMap Expr.chosen) := by
  unfold resolveFilter at hfilter
  cases hs : s.filter? with
  | none =>
    rw [hs] at hfilter
    cases hfilter
    exact .empty
  | some e =>
    simp only [hs, Attempt.error_bind, Attempt.guard_eq_ok, Attempt.bind_eq_ok] at hfilter
    obtain ⟨_, t, ht, hfilter⟩ := hfilter
    cases hfilter
    have hwhere : Spelled d anything " WHERE " [] :=
      .fixed 3 [.word "WHERE".toList] (fun _ => rfl) (by decide)
    rw [Option.toList_some, List.flatMap_singleton]
    exact .clause hwhere rfl (Expr.spelled hscope (h.filter e hs) ht)

/-- The text of a SELECT around that of its FROM. -/
theorem Selection.spelled {s : Selection} (h : s.IsProper) {visible : List Relation}
    {source : Scope → Nat → Attempt (FromItem × Nat)} {chosen : List Piece}
    (hsource : ∀ {scope : Scope} {n n' : Nat} {item : FromItem}, scope.Worded → 0 < n →
      source scope n = .ok (item, n') → Spelled d isBreak (item.text d) chosen ∧ n ≤ n')
    {n n' : Nat} (hn : 0 < n) {clauses : Clauses} {item : FromItem}
    (hr : s.resolve visible source n = .ok (clauses, item, n')) :
    Spelled d isBreak (clauses.text d (item.text d)) (s.chosen chosen) ∧ n ≤ n' := by
  obtain ⟨_, fields, filter?, hfields, hitem, hfilter, _, rfl⟩ := Selection.resolve_eq_ok.mp hr
  obtain ⟨hscope, hle⟩ := Scope.worded_nil.bindAll visible hn
  obtain ⟨hfrom, hle'⟩ := hsource hscope (Nat.lt_of_lt_of_le hn hle) hitem
  refine ⟨?_, Nat.le_trans hle hle'⟩
  -- the clauses in the order of the text; only outputs, FROM and filter bring chosen pieces
  have hselect :
      Spelled d anything ("SELECT" ++ (if s.distinct then " DISTINCT" else "") ++ " ") [] := by
    cases s.distinct with
    | true =>
      exact .fixed 4 [.word "SELECT".toList, .word "DISTINCT".toList] (fun _ => rfl) (by decide)
    | false => exact .fixed 2 [.word "SELECT".toList] (fun _ => rfl) (by decide)
  have hcomma : Spelled d anything ", " [] := .fixed 2 [.symbol [',']] (fun _ => rfl) (by decide)
  have hoperator : Spelled d anything " FROM " [] :=
    .fixed 3 [.word "FROM".toList] (fun _ => rfl) (by decide)
  have houtputs :
      Spelled d isBreak (", ".intercalate (fields.map (Field.text d)))
        (s.outputs.flatMap Output.chosen) := by
    rw [List.flatMap_def]
    refine .intercalate hcomma rfl ?_
    rw [List.forall₂_map_left_iff, List.forall₂_map_right_iff]
    have hall := (List.forall₂_and_left _ _).mpr ⟨h.outputs, Attempt.mapM_eq_ok.mp hfields⟩
    exact hall.imp fun o f ⟨ho, hf⟩ => Output.spelled hscope ho hf
  have hbody := (hselect.behind houtputs).joined hoperator rfl hfrom
  have htext :=
    (hbody.trailed (trailing_filter hscope h hfilter)).trailed (trailing_window h.limit h.offset)
  rwa [List.append_nil] at htext

/-- The text of a FROM, by induction over the source. The supply of aliases never falls behind. -/
theorem Source.spelled {s : Source} (h : s.IsProper) {scope : Scope} (hscope : scope.Worded)
    {n n' : Nat} (hn : 0 < n) {item : FromItem} (hr : s.resolve scope n = .ok (item, n')) :
    Spelled d isBreak (item.text d) (s.chosen d) ∧ n ≤ n' := by
  induction s generalizing scope n n' item with
  | table id name columns =>
    obtain ⟨owner, howner, hr⟩ := Attempt.bind_eq_ok.mp hr
    cases hr
    have howner' : Spelled d isBreak owner [] :=
      (spelled_owner hscope howner).mono (of_isBreak (by decide))
    have hjoined := (spelled_table name).joined spelled_as rfl howner'
    rw [List.append_nil] at hjoined
    exact ⟨hjoined, Nat.le_refl n⟩
  | derived id source selection ih =>
    obtain ⟨hsource, hselection⟩ := h
    obtain ⟨⟨clauses, inner, m⟩, hinner, hr⟩ := Attempt.bind_eq_ok.mp hr
    obtain ⟨owner, howner, hr⟩ := Attempt.bind_eq_ok.mp hr
    cases hr
    obtain ⟨hselect, hle⟩ :=
      Selection.spelled hselection (fun hscope hn => ih hsource hscope hn) hn hinner
    have has : Spelled d anything ") AS " [] :=
      .fixed 4 [.symbol [')'], .word "AS".toList] (fun _ => rfl) (by decide)
    have howner' : Spelled d isBreak owner [] :=
      (spelled_owner hscope howner).mono (of_isBreak (by decide))
    have hjoined := (spelled_open.behind hselect).joined has rfl howner'
    rw [List.append_nil] at hjoined
    exact ⟨hjoined, hle⟩
  | join left right kind keys condition? ihl ihr =>
    obtain ⟨hl, hr', hkeys, hcondition⟩ := h
    obtain ⟨⟨l, n₁⟩, hleft, hr⟩ := Attempt.bind_eq_ok.mp hr
    obtain ⟨⟨r, n₂⟩, hright, hr⟩ := Attempt.bind_eq_ok.mp hr
    obtain ⟨equalities, hequalities, hr⟩ := Attempt.bind_eq_ok.mp hr
    obtain ⟨extra, hextra, hr⟩ := Attempt.bind_eq_ok.mp hr
    cases hr
    -- the subqueries on the right draw from where those on the left have stopped
    obtain ⟨hl', hle⟩ := ihl hl hscope hn hleft
    obtain ⟨hr'', hle'⟩ := ihr hr' hscope (Nat.lt_of_lt_of_le hn hle) hright
    refine ⟨?_, Nat.le_trans hle hle'⟩
    have hkind : Spelled d anything (" " ++ kind.symbol ++ " JOIN ") [] := by
      cases kind with
      | inner =>
        exact .fixed 5 [.word "INNER".toList, .word "JOIN".toList] (fun _ => rfl) (by decide)
      | left => exact .fixed 5 [.word "LEFT".toList, .word "JOIN".toList] (fun _ => rfl) (by decide)
    have hon : Spelled d anything " ON " [] :=
      .fixed 3 [.word "ON".toList] (fun _ => rfl) (by decide)
    have hblank : Opens isBreak " " := rfl
    have hpair := hl'.joined hkind ((hblank.append _).append _) (hr''.parenthesised r.isJoin)
    have hjoined :=
      hpair.joined hon rfl (spelled_conjuncts hscope hkeys hcondition hequalities hextra)
    rwa [← String.append_assoc, ← String.append_assoc] at hjoined

end Clauses

/-! ## Statements -/

/-- A part that is closed by a semicolon is read to its end, and the semicolon is the only one. -/
theorem Spelled.lex_closed {d : Dialect} {s : String} {a : List Piece} (h : Spelled d isBreak s a) :
    ∃ pieces : List Piece, Lexer.lex (s ++ ";").toList =
      some (pieces.map (Piece.token d) ++ [.symbol [';']]) ∧
      pieces.filter Piece.isChosen = a ∧ ∀ t ∈ pieces.map (Piece.token d), t ≠ .comment ∧
      t ≠ .symbol [';'] := by
  obtain ⟨pieces, hreads, hchosen, hclosed⟩ := h
  refine ⟨pieces, ?_, hchosen, fun t ht => ?_⟩
  · have hlast : Lexer.lex [';'] = some [.symbol [';']] :=
      (Lexer.Reads.of_steps 1 fun _ => rfl).lex_eq
    have hwhole := hreads [';'] (Lexer.before_cons.mpr rfl)
    rw [hlast] at hwhole
    rw [String.toList_append]
    exact hwhole
  · obtain ⟨p, hp, rfl⟩ := List.mem_map.mp ht
    refine ⟨p.token_ne_comment d, fun hsemicolon => hclosed ?_⟩
    rwa [← Piece.eq_semicolon hsemicolon]

/-- A name stays bare only if it is no keyword. -/
theorem Piece.token_name (d : Dialect) (n : String) :
    (Piece.name n).token d = .quoted n.toList ∨ (Piece.name n).token d = .word n.toList ∧
    d.isKeyword n = false := by
  rw [token]
  by_cases hbare : d.isBare n.toList = true
  · exact .inr ⟨if_pos hbare, Dialect.isKeyword_of_isBare hbare⟩
  · exact .inl (if_neg hbare)

/-- The statement of a query is read as what the query chooses, up to the semicolon behind it. -/
theorem Query.spelled {q : Query} (h : q.IsProper) {d : Dialect} {text : String}
    (hsql : q.sql d = .ok text) :
    ∃ front, text = front ++ ";" ∧ Spelled d isBreak front (q.chosen d) := by
  obtain ⟨s, hs, hsql⟩ := Attempt.bind_eq_ok.mp hsql
  cases hsql
  obtain ⟨⟨clauses, item, n⟩, hr, hs⟩ := Attempt.bind_eq_ok.mp hs
  cases hs
  have hselect :=
    Selection.spelled (d := d) h.selection (fun hscope hn => Source.spelled h.source hscope hn)
      Nat.one_pos hr
  exact ⟨clauses.text d (item.text d), rfl, hselect.1⟩

/-- The statement of a query is read as tokens of which those that the query chooses are chosen,
each of them one token that decodes to what was chosen. A name that stays bare is no keyword. There
is no comment, and the only semicolon is the last token. -/
theorem Query.sql_confined {q : Query} (h : q.IsProper) {d : Dialect} {text : String}
    (hsql : q.sql d = .ok text) :
    ∃ pieces : List Piece,
      Lexer.lex text.toList = some (pieces.map (Piece.token d) ++ [.symbol [';']]) ∧
      pieces.filter Piece.isChosen = q.chosen d ∧
      (∀ t ∈ pieces.map (Piece.token d), t ≠ .comment ∧ t ≠ .symbol [';']) ∧
      ∀ n, .name n ∈ pieces → (Piece.name n).token d = .quoted n.toList ∨
        (Piece.name n).token d = .word n.toList ∧ d.isKeyword n = false := by
  obtain ⟨front, rfl, hspelled⟩ := Query.spelled h hsql
  obtain ⟨pieces, hlex, hchosen, htokens⟩ := hspelled.lex_closed
  exact ⟨pieces, hlex, hchosen, htokens, fun n _ => Piece.token_name d n⟩

/-- A query whose strings try to get out of their tokens. -/
def Query.hostile : Query :=
  ⟨.table 0 "public.a\";--" ["order", "x/*"],
    ⟨[⟨"order", .column ⟨0, .table "public.a\";--", ["order", "x/*"]⟩ "order"⟩,
      ⟨"y;", .literal (.text "'; --")⟩],
      some (.unary .isNull (.column ⟨0, .table "public.a\";--", ["order", "x/*"]⟩ "x/*")),
        false, none, none⟩⟩

/-- Its statement for PostgreSQL, where a table name has parts and a keyword is quoted. -/
theorem Query.sql_confined_hostile :
    ∃ text, Query.hostile.IsProper ∧ Query.hostile.sql .postgres = .ok text ∧
    text = "SELECT a.\"order\", '''; --' AS \"y;\" FROM public.\"a\"\";--\" AS a " ++
      "WHERE a.\"x/*\" IS NULL;" ∧
    ∃ pieces : List Piece,
      Lexer.lex text.toList = some (pieces.map (Piece.token .postgres) ++ [.symbol [';']]) ∧
      pieces.filter Piece.isChosen =
        [.name "order", .literal "'; --", .name "y;", .name "public", .name "a\";--",
          .name "x/*"] := by
  have hproper : Query.hostile.IsProper := by
    refine ⟨trivial,
      ⟨fun o ho => ?_, fun e he => ?_, fun b hb => (by cases hb), fun b hb => (by cases hb)⟩⟩
    · rcases List.mem_cons.mp ho with rfl | ho
      · trivial
      · rw [List.mem_singleton.mp ho]
        rfl
    · cases he
      trivial
  obtain ⟨pieces, hlex, hchosen, _⟩ := Query.sql_confined (d := .postgres) hproper rfl
  have hlisted : Query.hostile.chosen .postgres =
      [.name "order", .literal "'; --", .name "y;", .name "public",
      .name "a\";--", .name "x/*"] := by decide
  exact ⟨_, hproper, rfl, by decide +kernel, pieces, hlex, hchosen.trans hlisted⟩

end LazyFrame
