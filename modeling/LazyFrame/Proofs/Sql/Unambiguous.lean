import LazyFrame.Proofs.Sql.Reader

/-!
# Expressions that are printed alike

The text of an expression tells what the expression is. Its term is recovered by `Term.ofText?`, and
there every column stands under an alias and every literal as it is written. An alias stands for one
relation, since a scope binds its relations to words that were not drawn before
(`Scope.Made.owner_inj`). And a literal tells its value, except that numbers, of either kind, are
written as their own texts (`Value.literal_eq_iff`).

So expressions are printed alike only if they are the same trees but for such numbers
(`Expr.Alike`), and then they are (`Expr.text_unambiguous`): no other nesting of operators and no
name or text, whatever characters are in it, leads to the same text.
-/

namespace LazyFrame

/-! ## The scopes that arise -/

/-- The scopes of a rendering, each with the supply behind it: relations are bound one after the
other, and between two of them other scopes may have drawn from the same supply. -/
inductive Scope.Made : Scope → Nat → Prop where
  | start {n : Nat} (hn : 0 < n) : Made [] n
  | drawn {scope : Scope} {n m : Nat} (h : Made scope n) (hle : n ≤ m) : Made scope m
  | bound {scope : Scope} {n : Nat} (h : Made scope n) (r : Relation) :
    Made (scope.bind r n).1 (scope.bind r n).2

namespace Scope.Made

variable {scope : Scope} {n : Nat}

/-- Its aliases are different words of the supply, which moves on behind them. -/
theorem aliases_drawn (h : Made scope n) : 0 < n ∧ Alias.Drawn 1 n (scope.map (·.2)) := by
  induction h with
  | start hn => exact ⟨hn, .nil⟩
  | drawn h hle ih => exact ⟨Nat.lt_of_lt_of_le ih.1 hle, ih.2.mono (Nat.le_refl 1) hle⟩
  | @bound scope n h r ih =>
    obtain ⟨hn, hdrawn⟩ := ih
    unfold bind
    cases scope.lookup r with
    | some other => exact ⟨hn, hdrawn⟩
    | none =>
      have hnext : Alias.Drawn n (Alias.next n + 1) [Alias.word (Alias.next n)] :=
        Alias.drawn_take 1 n
      refine ⟨Nat.succ_pos _, ?_⟩
      rw [List.map_append]
      exact hdrawn.append hnext hn (Nat.le_succ_of_le (Alias.le_next n))

theorem worded (h : Made scope n) : scope.Worded := by
  intro entry hentry
  obtain ⟨k, hk, _, hword⟩ := h.aliases_drawn.2.range entry.2 (List.mem_map_of_mem hentry)
  exact ⟨k, hk, hword⟩

/-- An alias stands for one relation only. -/
theorem owner_inj (h : Made scope n) {r r' : Relation} {name : String}
    (hr : scope.owner r = .ok name) (hr' : scope.owner r' = .ok name) : r = r' :=
  congrArg Prod.fst
    (List.inj_on_of_nodup_map h.aliases_drawn.2.nodup (mem_of_owner hr) (mem_of_owner hr') rfl)

end Scope.Made

/-! ## Literals with the same text -/

/-- The tokens of a literal. -/
theorem Term.Constant.lex_eq {text : String} {ps : List Piece} (h : Term.Constant text ps) :
    Lexer.lex text.toList = some (ps.map (Piece.token .sqlite)) :=
  Lexer.Reads.lex_eq h.spelledAs

namespace Value

/-- Whether a value is a number, of either kind. -/
def isNumeral : Value → Bool
  | .number _ | .integer _ => true
  | _ => false

/-- The value with this text as a literal, unless it is a number. -/
def ofLiteral? (text : String) : Option Value :=
  match Lexer.lex text.toList with
  | some [.text cs] => some (.text (String.ofList cs))
  | some [.word ['N', 'U', 'L', 'L']] => some .null
  | some [.word ['T', 'R', 'U', 'E']] => some (.bool true)
  | some [.word ['F', 'A', 'L', 'S', 'E']] => some (.bool false)
  | _ => none

/-- A number is written as its own text. -/
theorem asText_of_isNumeral {v : Value} {text : String} (hv : v.isNumeral = true)
    (h : Dialect.literal v = .ok text) : v.asText = .ok text := by
  cases v with
  | integer n => exact h
  | number n =>
    cases n with
    | negZero | finite _ => exact h
    | nan | infinity _ => cases h
  | missing | null | bool _ | text _ | half _ | instant _ | list _ | record _ => cases hv

theorem ofLiteral?_of_isSigned {text : String} (h : IsSigned text) : ofLiteral? text = none := by
  cases h with
  | plain h =>
    rw [ofLiteral?, (Term.Constant.number h).lex_eq]
    rfl
  | minus h =>
    rw [ofLiteral?, (Term.Constant.minus h).lex_eq]
    rfl

theorem ofLiteral?_literal {v : Value} {text : String} (h : Dialect.literal v = .ok text) :
    ofLiteral? text = if v.isNumeral then none else some v := by
  have hword : ∀ s ∈ Term.constants, Lexer.lex s.toList = some [.word s.toList] := fun s hs =>
    (Term.Constant.word hs).lex_eq
  -- the text is lexed back: one word, one string, or a number with its sign
  cases hw : v.isWritten with
  | false => exact absurd h (Dialect.not_literal_of_asText hw)
  | true =>
    cases v with
    | null =>
      cases h
      rw [ofLiteral?, hword "NULL" (by decide)]
      rfl
    | text s =>
      cases h
      rw [ofLiteral?, (Term.Constant.text s).lex_eq]
      exact congrArg (fun t => some (Value.text t)) String.ofList_toList
    | bool b =>
      cases h
      cases b with
      | true =>
        rw [ofLiteral?, if_pos rfl, hword "TRUE" (by decide)]
        rfl
      | false =>
        rw [ofLiteral?, if_neg Bool.false_ne_true, hword "FALSE" (by decide)]
        rfl
    | integer n =>
      cases h
      exact ofLiteral?_of_isSigned (Number.isSigned_int n)
    | number n =>
      cases n with
      | nan | infinity _ => cases hw
      | negZero | finite _ =>
        cases h
        exact ofLiteral?_of_isSigned (Number.isSigned_text rfl)
    | missing | half _ | instant _ | list _ | record _ => cases hw

/-- Literals have the same text only if they are the same value or numbers whose own texts are the
same. -/
theorem literal_eq_iff {v w : Value} {text text' : String} (hv : Dialect.literal v = .ok text)
    (hw : Dialect.literal w = .ok text') :
    text = text' ↔ v = w ∨ v.isNumeral = true ∧ w.isNumeral = true ∧ v.asText = w.asText := by
  constructor
  · rintro rfl
    have hread := (ofLiteral?_literal hv).symm.trans (ofLiteral?_literal hw)
    -- the text is read back as the value itself unless that is a number
    cases hvn : v.isNumeral with
    | false =>
      cases hwn : w.isNumeral with
      | false =>
        rw [hvn, hwn] at hread
        exact .inl (Option.some.inj hread)
      | true =>
        rw [hvn, hwn] at hread
        cases hread
    | true =>
      cases hwn : w.isNumeral with
      | false =>
        rw [hvn, hwn] at hread
        cases hread
      | true =>
        exact .inr ⟨rfl, rfl, (asText_of_isNumeral hvn hv).trans (asText_of_isNumeral hwn hw).symm⟩
  · rintro (rfl | ⟨hvn, hwn, htext⟩)
    · exact Except.ok.inj (hv.symm.trans hw)
    · rw [asText_of_isNumeral hvn hv, asText_of_isNumeral hwn hw] at htext
      exact Except.ok.inj htext

end Value

/-! ## Expressions with the same text -/

namespace Expr

/-- Trees that are the same but for numbers whose own texts are the same. -/
inductive Alike : Expr → Expr → Prop where
  | column (r : Relation) (name : String) : Alike (.column r name) (.column r name)
  | literal (v : Value) : Alike (.literal v) (.literal v)
  | numeral {v w : Value} (hv : v.isNumeral = true) (hw : w.isNumeral = true)
    (htext : v.asText = w.asText) :
    Alike (.literal v) (.literal w)
  | binary (op : BinaryOp) {l r l' r' : Expr} (hl : Alike l l') (hr : Alike r r') :
    Alike (.binary op l r) (.binary op l' r')
  | unary (op : UnaryOp) {e e' : Expr} (h : Alike e e') : Alike (.unary op e) (.unary op e')
  | aggregate (fn : AggregateFn) {e e' : Expr} (h : Alike e e') :
    Alike (.aggregate fn e) (.aggregate fn e')
  | countRows : Alike .countRows .countRows

variable {scope : Scope} {n : Nat} {e e' : Expr} {t t' : Term}

/-- Expressions with the same term are alike. -/
theorem Resolves.alike (hscope : scope.Made n) (h : e.Resolves scope t) (h' : e'.Resolves scope t) :
    e.Alike e' := by
  -- the term has the shape of its expression, so the other one has this shape too
  induction h generalizing e' with
  | column howner hname =>
    cases h' with
    | column howner' hname' =>
      rw [hscope.owner_inj howner howner']
      exact .column _ _
  | literal htext =>
    cases h' with
    | literal htext' =>
      obtain rfl | ⟨hv, hw, hown⟩ := (Value.literal_eq_iff htext htext').mp rfl
      · exact .literal _
      · exact .numeral hv hw hown
  | binary op hl hr ihl ihr =>
    cases h' with
    | binary _ hl' hr' => exact .binary op (ihl hl') (ihr hr')
  | unary op h ih =>
    cases h' with
    | unary _ h' => exact .unary op (ih h')
  | aggregate fn h ih =>
    cases h' with
    | aggregate _ h' => exact .aggregate fn (ih h')
  | countRows =>
    cases h' with
    | countRows => exact .countRows

/-- Expressions that are alike have the same term. -/
theorem Alike.term_eq (h : e.Alike e') (ht : e.Resolves scope t)
    (ht' : e'.Resolves scope t') : t = t' := by
  -- the induction is on the likeness; both resolutions take its shape
  induction h generalizing t t' with
  | column r name =>
    cases ht with
    | column howner hname =>
      cases ht' with
      | column howner' hname' => rw [Except.ok.inj (howner.symm.trans howner')]
  | literal v =>
    cases ht with
    | literal htext =>
      cases ht' with
      | literal htext' => rw [Except.ok.inj (htext.symm.trans htext')]
  | numeral hv hw hown =>
    cases ht with
    | literal htext =>
      cases ht' with
      | literal htext' => rw [(Value.literal_eq_iff htext htext').mpr (.inr ⟨hv, hw, hown⟩)]
  | binary op hl hr ihl ihr =>
    cases ht with
    | binary _ hl hr =>
      cases ht' with
      | binary _ hl' hr' => rw [ihl hl hl', ihr hr hr']
  | unary op h ih =>
    cases ht with
    | unary _ h =>
      cases ht' with
      | unary _ h' => rw [ih h h']
  | aggregate fn h ih =>
    cases ht with
    | aggregate _ h =>
      cases ht' with
      | aggregate _ h' => rw [ih h h']
  | countRows =>
    cases ht with
    | countRows =>
      cases ht' with
      | countRows => rfl

/-- The text of an expression is read as its term, and expressions have the same text exactly if
they are alike. -/
theorem text_unambiguous (hscope : scope.Made n) (hbuilt : e.isBuilt = true)
    (hbuilt' : e'.isBuilt = true) (ht : e.resolve scope = .ok t) (ht' : e'.resolve scope = .ok t')
    (d : Dialect) : Term.ofText? (t.text d) = some t ∧ (t.text d = t'.text d ↔ e.Alike e') := by
  have hresolves := resolves_of_resolve hbuilt ht
  have hresolves' := resolves_of_resolve hbuilt' ht'
  obtain ⟨ps, hps, _⟩ := hresolves.exists_phrased hscope.worded
  obtain ⟨ps', hps', _⟩ := hresolves'.exists_phrased hscope.worded
  have hread : Term.ofText? (t.text d) = some t := hps.ofText?_text
  refine ⟨hread, fun htext => ?_, fun h => ?_⟩
  · rw [htext, hps'.ofText?_text] at hread
    rw [Option.some.inj hread] at hresolves'
    exact hresolves.alike hscope hresolves'
  · rw [h.term_eq hresolves hresolves']

/-- A name that is there, and a column below zero whose own name looks like a test for NULL. -/
def suspicious (zero : Value) : Expr :=
  .binary .and (.unary .not (.unary .isNull (.column ⟨0, .table "tracks", ["Name"]⟩ "Name")))
    (.binary .lt (.unary .neg (.column ⟨1, .table "odd", ["Name IS NULL"]⟩ "Name IS NULL"))
      (.literal zero))

/-- Both kinds of zero are written alike. -/
theorem text_unambiguous_suspicious : ∃ (scope : Scope) (n : Nat) (t : Term),
    scope.Made n ∧ (suspicious (.integer 0)).isBuilt = true ∧
    (suspicious (.number .negZero)).isBuilt = true ∧
      (suspicious (.integer 0)).resolve scope = .ok t ∧
      (suspicious (.number .negZero)).resolve scope = .ok t ∧
      t.text .sqlite = "(NOT (a.Name IS NULL)) AND ((-b.\"Name IS NULL\") < 0)" ∧
      Term.ofText? (t.text .sqlite) = some t ∧
      (suspicious (.integer 0)).Alike (suspicious (.number .negZero)) := by
  have hscope : Scope.Made _ _ :=
    .bound (.bound (.start Nat.one_pos) ⟨0, .table "tracks", ["Name"]⟩)
      ⟨1, .table "odd", ["Name IS NULL"]⟩
  obtain ⟨hread, hiff⟩ :=
    @text_unambiguous _ _ (suspicious (.integer 0)) (suspicious (.number .negZero)) _ _
    hscope rfl rfl rfl rfl .sqlite
  exact ⟨_, _, _, hscope, rfl, rfl, rfl, rfl, by decide +kernel, hread, hiff.mp rfl⟩

end Expr

end LazyFrame
