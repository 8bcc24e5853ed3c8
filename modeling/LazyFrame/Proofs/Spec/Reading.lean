import LazyFrame.Proofs.Faults.Reading
import LazyFrame.Proofs.Spec.Fields

/-!
# One step of reading

How one expression, one step and one frame are read, given how the parts are that are read from
their fields (`ExprSpec.Reading`, `StepSpec.Reading`, `FrameSpec.Reading`). These relations say
everything that reading does when it succeeds, with one case for each form, and no proof about
descriptions looks further into the reader.
-/

namespace LazyFrame

/-! ## Operators -/

namespace Spec

/-- An operator takes that many operands. -/
def Takes (operator : String) (count : Nat) : Prop :=
  (∃ op, BinaryOp.ofName? operator = some op) ∧ count = 2 ∨
  (∃ op, UnaryOp.ofName? operator = some op) ∧ count = 1

/-- No name stands for an operator of each kind. -/
theorem binary_eq_none_of_unary {name : String} {op : UnaryOp}
    (h : UnaryOp.ofName? name = some op) : BinaryOp.ofName? name = none := by
  obtain ⟨before, after, hnamed, _⟩ := List.lookup_eq_some_iff.mp h
  have hmem : (name, op) ∈ UnaryOp.named := by
    rw [hnamed]
    exact List.mem_append_right _ (List.mem_cons_self ..)
  have hall : ∀ entry ∈ UnaryOp.named, BinaryOp.ofName? entry.1 = none := by decide
  exact hall _ hmem

/-- An operator has as many operands as it takes. -/
theorem arity?_eq_some {operator : String} {count : Nat} :
    arity? operator = some count ↔ Takes operator count := by
  unfold arity? Takes
  cases hbinary : BinaryOp.ofName? operator with
  | some op =>
    have hunary : ¬∃ op, UnaryOp.ofName? operator = some op := by
      intro h
      obtain ⟨_, h⟩ := h
      rw [binary_eq_none_of_unary h] at hbinary
      cases hbinary
    rw [or_iff_left fun h => hunary h.1]
    simp [eq_comm]
  | none =>
    cases UnaryOp.ofName? operator with
    | some op => simp [eq_comm]
    | none => simp

/-- An operator has a name. -/
theorem Takes.ne_empty {operator : String} {count : Nat} (h : Takes operator count) :
    operator ≠ "" := by
  rintro rfl
  have hnone : arity? "" = none := by decide
  rw [arity?_eq_some.mpr h] at hnone
  cases hnone

end Spec

/-! ## One step of reading -/

open Spec (Has IsLiteral Takes)

/-- How an expression is read, given how its operands are. -/
inductive ExprSpec.Reading : Value → ExprSpec → Prop where
  | col {fields : List (String × Value)} {name : String} (hcol : Has fields "col")
    (hname : name ≠ "") (h : Fields.get fields "col" = .text name) :
    Reading (.record fields) (.col name)
  | lit {fields : List (String × Value)} (hcol : ¬Has fields "col") (hlit : Has fields "lit")
    (h : IsLiteral (Fields.get fields "lit")) :
    Reading (.record fields) (.lit (Fields.get fields "lit"))
  | op {fields : List (String × Value)} {operator : String} {items : List Value}
    {args : List ExprSpec} (hcol : ¬Has fields "col") (hlit : ¬Has fields "lit")
    (hop : Fields.get fields "op" = .text operator)
    (hargs : Fields.get fields "args" = .list items) (htakes : Takes operator items.length)
    (h : List.Forall₂ (fun item arg => ExprSpec.parse item = .ok arg) items args) :
    Reading (.record fields) (.op operator args)

/-- What is read as an expression is a value that reads as that expression. -/
theorem ExprSpec.reading_of_parse {v : Value} {spec : ExprSpec} (h : ExprSpec.parse v = .ok spec) :
    Reading v spec := by
  -- the fields are tried in this order: `col`, `lit`, and `op` with its `args`
  unfold ExprSpec.parse at h
  split at h
  next fields =>
    split at h
    next hcol =>
      split at h
      next name hname =>
        cases h
        obtain ⟨hne, hname⟩ := Spec.name?_eq_some.mp hname
        exact .col (Spec.has_iff.mpr hcol) hne hname
      · cases h
    next hcol =>
      rw [← Spec.has_iff] at hcol
      split at h
      next hlit =>
        split at h
        next hliteral =>
          cases h
          exact .lit hcol (Spec.has_iff.mpr hlit) (Spec.isLiteral_iff.mp hliteral)
        · cases h
      next hlit =>
        rw [← Spec.has_iff] at hlit
        split at h
        next operator hoperator hlist =>
          split at h
          · cases h
          next arity harity =>
            obtain ⟨hlength, h⟩ := Attempt.guard_eq_ok.mp h
            obtain ⟨args, hread, h⟩ := Attempt.bind_eq_ok.mp h
            cases h
            rw [Attempt.mapM_attach] at hread
            cases hargs : Fields.get fields "args" with
            | list items =>
              rw [hargs] at hlength hread
              have hlength : items.length = arity := not_ne_iff.mp hlength
              rw [← hlength] at harity
              exact .op hcol hlit (Spec.name?_eq_some.mp hoperator).2 hargs
                (Spec.arity?_eq_some.mp harity) (Attempt.mapM_eq_ok.mp hread)
            | _ =>
              rw [hargs] at hlist
              cases hlist
        · cases h
  · cases h

/-- A value that reads as an expression is read as it. -/
theorem ExprSpec.Reading.parse_eq {v : Value} {spec : ExprSpec} (h : Reading v spec) :
    ExprSpec.parse v = .ok spec := by
  cases h with
  | col hcol hname h =>
    simp only [ExprSpec.parse, Spec.has_iff.mp hcol, if_true, h,
      Spec.name?_eq_some.mpr ⟨hname, rfl⟩]
  | lit hcol hlit h =>
    simp only [ExprSpec.parse, Spec.not_has_iff.mp hcol, Bool.false_eq_true, if_false,
      Spec.has_iff.mp hlit, if_true, Spec.isLiteral_iff.mpr h]
  | op hcol hlit hop hargs htakes h =>
    have hname := Spec.name?_eq_some.mpr ⟨htakes.ne_empty, rfl⟩
    simp only [ExprSpec.parse, Spec.not_has_iff.mp hcol, Spec.not_has_iff.mp hlit,
      Bool.false_eq_true, if_false, hop, hargs, hname, Spec.isList, Spec.arity?_eq_some.mpr htakes,
      Value.items, ne_eq, not_true, Attempt.mapM_attach, Attempt.mapM_eq_ok.mpr h, Attempt.ok_bind]

/-- Parsing an expression is reading it. -/
theorem ExprSpec.parse_eq_ok {v : Value} {spec : ExprSpec} :
    ExprSpec.parse v = .ok spec ↔ Reading v spec :=
  ⟨reading_of_parse, Reading.parse_eq⟩

/-- How a step is read, given how its fields are. -/
inductive StepSpec.Reading : Value → StepSpec → Prop where
  | select {fields : List (String × Value)} {columns : List String}
    (hop : Fields.get fields "op" = .text "select")
    (hcolumns : Spec.nameList "select.columns" (Fields.get fields "columns") = .ok columns) :
    Reading (.record fields) (.select columns)
  | drop {fields : List (String × Value)} {columns : List String}
    (hop : Fields.get fields "op" = .text "drop")
    (hcolumns : Spec.nameList "drop.columns" (Fields.get fields "columns") = .ok columns) :
    Reading (.record fields) (.drop columns)
  | assign {fields : List (String × Value)} {name : String} {expr : ExprSpec}
    (hop : Fields.get fields "op" = .text "assign") (hne : name ≠ "")
    (hname : Fields.get fields "name" = .text name)
    (hexpr : ExprSpec.parse (Fields.get fields "expr") = .ok expr) :
    Reading (.record fields) (.assign name expr)
  | rename {fields : List (String × Value)} {mapping : List (String × String)}
    (hop : Fields.get fields "op" = .text "rename")
    (hmapping : Spec.mapping (Fields.get fields "mapping") = .ok mapping) :
    Reading (.record fields) (.rename mapping)
  | filter {fields : List (String × Value)} {predicate : ExprSpec}
    (hop : Fields.get fields "op" = .text "where")
    (hpredicate : ExprSpec.parse (Fields.get fields "predicate") = .ok predicate) :
    Reading (.record fields) (.filter predicate)
  | merge {fields : List (String × Value)} {right : FrameSpec}
    {on? leftOn? rightOn? : Option (List String)} {how? : Option String}
    (hop : Fields.get fields "op" = .text "merge")
    (hhow : Spec.joinKind (Fields.get fields "how") = .ok how?)
    (hright : FrameSpec.parse (Fields.get fields "right") = .ok right)
    (hon : Spec.optionalNames "merge.on" (Fields.get fields "on") = .ok on?)
    (hleftOn : Spec.optionalNames "merge.leftOn" (Fields.get fields "leftOn") = .ok leftOn?)
    (hrightOn : Spec.optionalNames "merge.rightOn" (Fields.get fields "rightOn") = .ok rightOn?) :
    Reading (.record fields) (.merge right on? leftOn? rightOn? how?)
  | distinct {fields : List (String × Value)} (hop : Fields.get fields "op" = .text "distinct") :
    Reading (.record fields) .distinct
  | slice {fields : List (String × Value)} {start? stop? : Option Number}
    (hop : Fields.get fields "op" = .text "slice")
    (hstart : Spec.optionalInteger "slice.start" (Fields.get fields "start") = .ok start?)
    (hstop : Spec.optionalInteger "slice.stop" (Fields.get fields "stop") = .ok stop?) :
    Reading (.record fields) (.slice start? stop?)

/-- What is read as a step is a value that reads as that step. -/
theorem StepSpec.reading_of_parse {v : Value} {spec : StepSpec} (h : StepSpec.parse v = .ok spec) :
    Reading v spec := by
  -- one case for each kind of step, in the order in which they are compared
  unfold StepSpec.parse at h
  split at h
  next fields =>
    split at h
    next hop =>
      obtain ⟨columns, hcolumns, h⟩ := Attempt.bind_eq_ok.mp h
      cases h
      exact .select hop hcolumns
    next hop =>
      obtain ⟨columns, hcolumns, h⟩ := Attempt.bind_eq_ok.mp h
      cases h
      exact .drop hop hcolumns
    next hop =>
      split at h
      · cases h
      next name hname =>
        obtain ⟨expr, hexpr, h⟩ := Attempt.bind_eq_ok.mp h
        cases h
        obtain ⟨hne, hname⟩ := Spec.name?_eq_some.mp hname
        exact .assign hop hne hname hexpr
    next hop =>
      obtain ⟨mapping, hmapping, h⟩ := Attempt.bind_eq_ok.mp h
      cases h
      exact .rename hop hmapping
    next hop =>
      obtain ⟨predicate, hpredicate, h⟩ := Attempt.bind_eq_ok.mp h
      cases h
      exact .filter hop hpredicate
    next hop =>
      obtain ⟨how?, hhow, h⟩ := Attempt.bind_eq_ok.mp h
      obtain ⟨right, hright, h⟩ := Attempt.bind_eq_ok.mp h
      obtain ⟨on?, hon, h⟩ := Attempt.bind_eq_ok.mp h
      obtain ⟨leftOn?, hleftOn, h⟩ := Attempt.bind_eq_ok.mp h
      obtain ⟨rightOn?, hrightOn, h⟩ := Attempt.bind_eq_ok.mp h
      cases h
      exact .merge hop hhow hright hon hleftOn hrightOn
    next hop =>
      cases h
      exact .distinct hop
    next hop =>
      obtain ⟨start?, hstart, h⟩ := Attempt.bind_eq_ok.mp h
      obtain ⟨stop?, hstop, h⟩ := Attempt.bind_eq_ok.mp h
      cases h
      exact .slice hop hstart hstop
    · -- a step of an unknown kind is not read, whatever its text
      obtain ⟨shown, _, h⟩ := Attempt.bind_eq_ok.mp h
      cases h
  · cases h

/-- A value that reads as a step is read as it. -/
theorem StepSpec.Reading.parse_eq {v : Value} {spec : StepSpec} (h : Reading v spec) :
    StepSpec.parse v = .ok spec := by
  cases h with
  | select hop hcolumns | drop hop hcolumns =>
    simp only [StepSpec.parse, hop, hcolumns, Attempt.ok_bind]
  | assign hop hne hname hexpr =>
    simp only [StepSpec.parse, hop, hname, Spec.name?_eq_some.mpr ⟨hne, rfl⟩, hexpr,
      Attempt.ok_bind]
  | rename hop hmapping => simp only [StepSpec.parse, hop, hmapping, Attempt.ok_bind]
  | filter hop hpredicate => simp only [StepSpec.parse, hop, hpredicate, Attempt.ok_bind]
  | merge hop hhow hright hon hleftOn hrightOn =>
    simp only [StepSpec.parse, hop, hhow, hright, hon, hleftOn, hrightOn, Attempt.ok_bind]
  | distinct hop => simp only [StepSpec.parse, hop]
  | slice hop hstart hstop => simp only [StepSpec.parse, hop, hstart, hstop, Attempt.ok_bind]

/-- Parsing a step is reading it. -/
theorem StepSpec.parse_eq_ok {v : Value} {spec : StepSpec} :
    StepSpec.parse v = .ok spec ↔ Reading v spec :=
  ⟨reading_of_parse, Reading.parse_eq⟩

/-- How a frame is read, given how its steps are; a frame without a list of steps has none. -/
inductive FrameSpec.Reading : Value → FrameSpec → Prop where
  | bare {fields : List (String × Value)} {table : String} (hne : table ≠ "")
    (htable : Fields.get fields "table" = .text table)
    (hsteps : Fields.get fields "steps" = .missing) : Reading (.record fields) (.mk table [])
  | steps {fields : List (String × Value)} {table : String} {items : List Value}
    {steps : List StepSpec} (hne : table ≠ "") (htable : Fields.get fields "table" = .text table)
    (hsteps : Fields.get fields "steps" = .list items)
    (h : List.Forall₂ (fun item step => StepSpec.parse item = .ok step) items steps) :
    Reading (.record fields) (.mk table steps)

/-- What is read as a frame is a value that reads as that frame. -/
theorem FrameSpec.reading_of_parse {v : Value} {spec : FrameSpec}
    (h : FrameSpec.parse v = .ok spec) : Reading v spec := by
  unfold FrameSpec.parse at h
  split at h
  next fields =>
    split at h
    · cases h
    next table htable =>
      obtain ⟨hne, htable⟩ := Spec.name?_eq_some.mp htable
      split at h
      next hlist =>
        obtain ⟨steps, hread, h⟩ := Attempt.bind_eq_ok.mp h
        cases h
        rw [Attempt.mapM_attach, Attempt.mapM_eq_ok] at hread
        cases hsteps : Fields.get fields "steps" with
        | missing =>
          rw [hsteps] at hread
          cases hread
          exact .bare hne htable hsteps
        | list items =>
          rw [hsteps] at hread
          exact .steps hne htable hsteps hread
        | _ =>
          rw [hsteps] at hlist
          cases hlist
      · cases h
  · cases h

/-- A value that reads as a frame is read as it. -/
theorem FrameSpec.Reading.parse_eq {v : Value} {spec : FrameSpec} (h : Reading v spec) :
    FrameSpec.parse v = .ok spec := by
  cases h with
  | bare hne htable hsteps =>
    simp only [FrameSpec.parse, htable, Spec.name?_eq_some.mpr ⟨hne, rfl⟩, hsteps,
      Attempt.mapM_attach]
    rfl
  | steps hne htable hsteps h =>
    simp only [FrameSpec.parse, htable, Spec.name?_eq_some.mpr ⟨hne, rfl⟩, hsteps,
      Spec.isListOrMissing, Spec.isList, Value.items, if_true, Attempt.mapM_attach,
      Attempt.mapM_eq_ok.mpr h, Attempt.ok_bind]

/-- Parsing a frame is reading it. -/
theorem FrameSpec.parse_eq_ok {v : Value} {spec : FrameSpec} :
    FrameSpec.parse v = .ok spec ↔ Reading v spec :=
  ⟨reading_of_parse, Reading.parse_eq⟩

end LazyFrame
