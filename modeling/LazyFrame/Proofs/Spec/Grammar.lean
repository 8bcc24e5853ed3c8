import LazyFrame.Proofs.Spec.Reading

/-!
# The grammar of descriptions

Which values are expressions, steps and frames is told by induction (`Spec.IsExpression`,
`Spec.IsStep`, `Spec.IsFrame`), and which descriptions reading can give by recursion on the
description (`ExprSpec.IsCanonical`, `FrameSpec.IsCanonical`).

Reading leads from one to the other. What is read is of the grammar and what comes of it is
canonical (`Spec.IsFrame.of_parse`); whatever is of the grammar is read
(`Spec.IsFrame.exists_parse`); and a canonical description is read from its own value
(`FrameSpec.parse_toValue`), so reading what has been read changes nothing.
-/

namespace LazyFrame

namespace Spec

/-! ## Values of the grammar -/

/-- A record with a column name, else one with a literal, else one with an operator and its
operands. -/
inductive IsExpression : Value → Prop where
  | col {fields : List (String × Value)} (hcol : Has fields "col")
    (h : IsName (Fields.get fields "col")) :
    IsExpression (.record fields)
  | lit {fields : List (String × Value)} (hcol : ¬Has fields "col") (hlit : Has fields "lit")
    (h : IsLiteral (Fields.get fields "lit")) : IsExpression (.record fields)
  | op {fields : List (String × Value)} {operator : String} {items : List Value}
    (hcol : ¬Has fields "col") (hlit : ¬Has fields "lit")
    (hop : Fields.get fields "op" = .text operator)
    (hargs : Fields.get fields "args" = .list items) (htakes : Takes operator items.length)
    (h : ∀ item ∈ items, IsExpression item) : IsExpression (.record fields)

mutual

/-- A record with the name of a step and the fields of that step. -/
inductive IsStep : Value → Prop where
  | select {fields : List (String × Value)} (hop : Fields.get fields "op" = .text "select")
    (hcolumns : IsNameList (Fields.get fields "columns")) : IsStep (.record fields)
  | drop {fields : List (String × Value)} (hop : Fields.get fields "op" = .text "drop")
    (hcolumns : IsNameList (Fields.get fields "columns")) : IsStep (.record fields)
  | assign {fields : List (String × Value)} (hop : Fields.get fields "op" = .text "assign")
    (hname : IsName (Fields.get fields "name")) (hexpr : IsExpression (Fields.get fields "expr")) :
    IsStep (.record fields)
  | rename {fields entries : List (String × Value)} (hop : Fields.get fields "op" = .text "rename")
    (hmapping : Fields.get fields "mapping" = .record entries)
    (hnames : ∀ entry ∈ entries, IsName entry.2) : IsStep (.record fields)
  | filter {fields : List (String × Value)} (hop : Fields.get fields "op" = .text "where")
    (hpredicate : IsExpression (Fields.get fields "predicate")) : IsStep (.record fields)
  | merge {fields : List (String × Value)} (hop : Fields.get fields "op" = .text "merge")
    (hright : IsFrame (Fields.get fields "right"))
    (hon : IsOptional IsNameList (Fields.get fields "on"))
    (hleftOn : IsOptional IsNameList (Fields.get fields "leftOn"))
    (hrightOn : IsOptional IsNameList (Fields.get fields "rightOn"))
    (hhow : IsOptional IsText (Fields.get fields "how")) : IsStep (.record fields)
  | distinct {fields : List (String × Value)} (hop : Fields.get fields "op" = .text "distinct") :
    IsStep (.record fields)
  | slice {fields : List (String × Value)} (hop : Fields.get fields "op" = .text "slice")
    (hstart : IsOptional IsInteger (Fields.get fields "start"))
    (hstop : IsOptional IsInteger (Fields.get fields "stop")) : IsStep (.record fields)

/-- A record with the name of a table and, if there are any, a list of steps. -/
inductive IsFrame : Value → Prop where
  | bare {fields : List (String × Value)} (htable : IsName (Fields.get fields "table"))
    (hsteps : Fields.get fields "steps" = .missing) : IsFrame (.record fields)
  | steps {fields : List (String × Value)} {items : List Value}
    (htable : IsName (Fields.get fields "table"))
    (hsteps : Fields.get fields "steps" = .list items) (h : ∀ step ∈ items, IsStep step) :
    IsFrame (.record fields)

end

end Spec

/-! ## Canonical descriptions -/

mutual

/-- Operators have the operands that they take, names are not empty, and literals are simple. -/
def ExprSpec.IsCanonical : ExprSpec → Prop
  | .col name => name ≠ ""
  | .lit value => Spec.IsLiteral value
  | .op operator args => Spec.Takes operator args.length ∧ ExprSpec.AreCanonical args

/-- All these expressions are canonical. -/
def ExprSpec.AreCanonical : List ExprSpec → Prop
  | [] => True
  | arg :: rest => ExprSpec.IsCanonical arg ∧ ExprSpec.AreCanonical rest

end

mutual

/-- Names are not empty, expressions are canonical, bounds are whole, and a mapping keeps clear of
the one name that never reaches it. -/
def StepSpec.IsCanonical : StepSpec → Prop
  | .select columns => ∀ name ∈ columns, name ≠ ""
  | .assign name expr => name ≠ "" ∧ expr.IsCanonical
  | .rename mapping => ∀ entry ∈ mapping, entry.1 ≠ Spec.droppedKey ∧ entry.2 ≠ ""
  | .drop columns => ∀ name ∈ columns, name ≠ ""
  | .filter predicate => predicate.IsCanonical
  | .merge right on? leftOn? rightOn? _ =>
    FrameSpec.IsCanonical right ∧ (∀ names ∈ on?, ∀ name ∈ names, name ≠ "") ∧
      (∀ names ∈ leftOn?, ∀ name ∈ names, name ≠ "") ∧ ∀ names ∈ rightOn?, ∀ name ∈ names, name ≠ ""
  | .distinct => True
  | .slice start? stop? => (∀ n ∈ start?, n.isInteger = true) ∧ ∀ n ∈ stop?, n.isInteger = true

/-- All these steps are canonical. -/
def StepSpec.AreCanonical : List StepSpec → Prop
  | [] => True
  | step :: rest => StepSpec.IsCanonical step ∧ StepSpec.AreCanonical rest

/-- The table has a name and all steps are canonical. -/
def FrameSpec.IsCanonical : FrameSpec → Prop
  | .mk table steps => table ≠ "" ∧ StepSpec.AreCanonical steps

end

theorem ExprSpec.areCanonical_iff {args : List ExprSpec} :
    AreCanonical args ↔ ∀ arg ∈ args, arg.IsCanonical := by
  induction args with
  | nil => simp [AreCanonical]
  | cons arg rest ih => simp [AreCanonical, ih]

theorem StepSpec.areCanonical_iff {steps : List StepSpec} :
    AreCanonical steps ↔ ∀ step ∈ steps, step.IsCanonical := by
  induction steps with
  | nil => simp [AreCanonical]
  | cons step rest ih => simp [AreCanonical, ih]

/-! ## What is read is of the grammar -/

namespace Spec

/-- The induction is on the size of the value: operands are items of one of its fields. -/
theorem IsExpression.of_parse {v : Value} {spec : ExprSpec} (h : ExprSpec.parse v = .ok spec) :
    IsExpression v ∧ spec.IsCanonical := by
  induction hn : sizeOf v using Nat.strongRecOn generalizing v spec with
  | ind n ih =>
    subst hn
    cases ExprSpec.parse_eq_ok.mp h with
    | col hcol hne hname => exact ⟨.col hcol ⟨_, hne, hname⟩, hne⟩
    | lit hcol hlit hliteral => exact ⟨.lit hcol hlit hliteral, hliteral⟩
    | @op fields operator items args hcol hlit hop hargs htakes hread =>
      have hlt (item : Value) (hitem : item ∈ items) : sizeOf item < sizeOf (Value.record fields) :=
        Fields.sizeOf_lt_of_mem_items (by rw [hargs]; exact hitem)
      refine ⟨.op hcol hlit hop hargs htakes fun item hitem => ?_, ?_, ExprSpec.areCanonical_iff.mpr
        fun arg harg => ?_⟩
      · obtain ⟨arg, hparse⟩ := Attempt.exists_of_mem_left hread hitem
        exact (ih _ (hlt item hitem) hparse rfl).1
      · rw [← hread.length_eq]
        exact htakes
      · obtain ⟨item, hitem, hparse⟩ := Attempt.exists_of_mem_right hread harg
        exact (ih _ (hlt item hitem) hparse rfl).2

/-- One step: the frame that is merged is read from a field. -/
theorem IsStep.of_parse_of_right {v : Value} {spec : StepSpec} (h : StepSpec.parse v = .ok spec)
    (hframe : ∀ fields, v = .record fields →
      ∀ right, FrameSpec.parse (Fields.get fields "right") = .ok right →
      IsFrame (Fields.get fields "right") ∧ right.IsCanonical) : IsStep v ∧ spec.IsCanonical := by
  cases StepSpec.parse_eq_ok.mp h with
  | select hop hcolumns =>
    exact ⟨.select hop (exists_nameList_iff.mp ⟨_, hcolumns⟩), (nameList_eq_ok.mp hcolumns).1⟩
  | drop hop hcolumns =>
    exact ⟨.drop hop (exists_nameList_iff.mp ⟨_, hcolumns⟩), (nameList_eq_ok.mp hcolumns).1⟩
  | assign hop hne hname hexpr =>
    obtain ⟨hgrammar, hcanonical⟩ := IsExpression.of_parse hexpr
    exact ⟨.assign hop ⟨_, hne, hname⟩ hgrammar, hne, hcanonical⟩
  | rename hop hmapping =>
    -- the value holds every entry, and what is read of it lacks the dropped key
    obtain ⟨entries, hentries, hvalue, rfl⟩ := mapping_eq_ok.mp hmapping
    refine ⟨.rename hop hvalue fun entry hentry => ?_, fun entry hentry => ?_⟩
    · obtain ⟨old, hold, rfl⟩ := List.mem_map.mp hentry
      exact ⟨old.2, hentries old hold, rfl⟩
    · obtain ⟨hmem, hkey⟩ := List.mem_filter.mp hentry
      exact ⟨bne_iff_ne.mp hkey, hentries entry hmem⟩
  | filter hop hpredicate =>
    obtain ⟨hgrammar, hcanonical⟩ := IsExpression.of_parse hpredicate
    exact ⟨.filter hop hgrammar, hcanonical⟩
  | merge hop hhow hright hon hleftOn hrightOn =>
    obtain ⟨hgrammar, hcanonical⟩ := hframe _ rfl _ hright
    exact ⟨.merge hop hgrammar (exists_optionalNames_iff.mp ⟨_, hon⟩)
      (exists_optionalNames_iff.mp ⟨_, hleftOn⟩)
      (exists_optionalNames_iff.mp ⟨_, hrightOn⟩) (exists_joinKind_iff.mp ⟨_, hhow⟩),
      hcanonical, ne_empty_of_optionalNames hon, ne_empty_of_optionalNames hleftOn,
        ne_empty_of_optionalNames hrightOn⟩
  | distinct hop => exact ⟨.distinct hop, trivial⟩
  | slice hop hstart hstop =>
    exact ⟨.slice hop (exists_optionalInteger_iff.mp ⟨_, hstart⟩)
      (exists_optionalInteger_iff.mp ⟨_, hstop⟩), (optionalInteger_eq_ok.mp hstart).1,
      (optionalInteger_eq_ok.mp hstop).1⟩

/-- One frame: its steps are the items of a field. -/
theorem IsFrame.of_parse_of_steps {v : Value} {spec : FrameSpec} (h : FrameSpec.parse v = .ok spec)
    (hstep : ∀ fields, v = .record fields → ∀ item ∈ (Fields.get fields "steps").items, ∀ step,
      StepSpec.parse item = .ok step → IsStep item ∧ step.IsCanonical) : IsFrame v ∧
      spec.IsCanonical := by
  cases FrameSpec.parse_eq_ok.mp h with
  | bare hne htable hsteps => exact ⟨.bare ⟨_, hne, htable⟩ hsteps, hne, trivial⟩
  | @steps fields table items steps hne htable hsteps hread =>
    have hitems (item : Value) (hitem : item ∈ items) :
        item ∈ (Fields.get fields "steps").items := by
      rw [hsteps]
      exact hitem
    refine ⟨.steps ⟨_, hne, htable⟩ hsteps fun item hitem => ?_, hne, StepSpec.areCanonical_iff.mpr
      fun step hmem => ?_⟩
    · obtain ⟨step, hparse⟩ := Attempt.exists_of_mem_left hread hitem
      exact (hstep _ rfl item (hitems item hitem) step hparse).1
    · obtain ⟨item, hitem, hparse⟩ := Attempt.exists_of_mem_right hread hmem
      exact (hstep _ rfl item (hitems item hitem) step hparse).2

/-- Steps and frames are read from smaller values, so what holds of one step and one frame holds of
all. -/
theorem of_parse (v : Value) : (∀ spec, StepSpec.parse v = .ok spec → IsStep v ∧ spec.IsCanonical) ∧
    ∀ spec, FrameSpec.parse v = .ok spec → IsFrame v ∧ spec.IsCanonical := by
  induction hn : sizeOf v using Nat.strongRecOn generalizing v with
  | ind n ih =>
    subst hn
    constructor
    · intro spec h
      refine IsStep.of_parse_of_right h fun fields hv => ?_
      subst hv
      exact (ih _ (Fields.sizeOf_get_lt fields "right") _ rfl).2
    · intro spec h
      refine IsFrame.of_parse_of_steps h fun fields hv item hitem => ?_
      subst hv
      exact (ih _ (Fields.sizeOf_lt_of_mem_items hitem) _ rfl).1

theorem IsFrame.of_parse {v : Value} {spec : FrameSpec} (h : FrameSpec.parse v = .ok spec) :
    IsFrame v ∧ spec.IsCanonical :=
  (Spec.of_parse v).2 spec h

/-! ## What is of the grammar is read -/

theorem IsExpression.exists_parse {v : Value} (h : IsExpression v) :
    ∃ spec, ExprSpec.parse v = .ok spec := by
  induction h with
  | col hcol h =>
    obtain ⟨name, hne, hname⟩ := h
    exact ⟨_, ExprSpec.parse_eq_ok.mpr (.col hcol hne hname)⟩
  | lit hcol hlit h => exact ⟨_, ExprSpec.parse_eq_ok.mpr (.lit hcol hlit h)⟩
  | op hcol hlit hop hargs htakes _ ih =>
    obtain ⟨args, hread⟩ := Attempt.exists_mapM_iff.mpr ih
    exact ⟨_,
      ExprSpec.parse_eq_ok.mpr (.op hcol hlit hop hargs htakes (Attempt.mapM_eq_ok.mp hread))⟩

mutual

/-- What is in the grammar of steps is read as a step. -/
theorem IsStep.exists_parse : ∀ {v : Value}, IsStep v → ∃ spec, StepSpec.parse v = .ok spec
  | _, .select hop hcolumns => by
    obtain ⟨columns, hread⟩ := exists_nameList_iff.mpr hcolumns
    exact ⟨_, StepSpec.parse_eq_ok.mpr (.select hop hread)⟩
  | _, .drop hop hcolumns => by
    obtain ⟨columns, hread⟩ := exists_nameList_iff.mpr hcolumns
    exact ⟨_, StepSpec.parse_eq_ok.mpr (.drop hop hread)⟩
  | _, .assign hop hname hexpr => by
    obtain ⟨name, hne, hname⟩ := hname
    obtain ⟨expr, hread⟩ := hexpr.exists_parse
    exact ⟨_, StepSpec.parse_eq_ok.mpr (.assign hop hne hname hread)⟩
  | _, .rename hop hmapping hnames => by
    obtain ⟨mapping, hread⟩ := exists_mapping_iff.mpr ⟨_, hmapping, hnames⟩
    exact ⟨_, StepSpec.parse_eq_ok.mpr (.rename hop hread)⟩
  | _, .filter hop hpredicate => by
    obtain ⟨predicate, hread⟩ := hpredicate.exists_parse
    exact ⟨_, StepSpec.parse_eq_ok.mpr (.filter hop hread)⟩
  | _, .merge hop hright hon hleftOn hrightOn hhow => by
    obtain ⟨right, hright⟩ := IsFrame.exists_parse hright
    obtain ⟨on?, hon⟩ := exists_optionalNames_iff.mpr hon
    obtain ⟨leftOn?, hleftOn⟩ := exists_optionalNames_iff.mpr hleftOn
    obtain ⟨rightOn?, hrightOn⟩ := exists_optionalNames_iff.mpr hrightOn
    obtain ⟨how?, hhow⟩ := exists_joinKind_iff.mpr hhow
    exact ⟨_, StepSpec.parse_eq_ok.mpr (.merge hop hhow hright hon hleftOn hrightOn)⟩
  | _, .distinct hop => ⟨_, StepSpec.parse_eq_ok.mpr (.distinct hop)⟩
  | _, .slice hop hstart hstop => by
    obtain ⟨start?, hstart⟩ := exists_optionalInteger_iff.mpr hstart
    obtain ⟨stop?, hstop⟩ := exists_optionalInteger_iff.mpr hstop
    exact ⟨_, StepSpec.parse_eq_ok.mpr (.slice hop hstart hstop)⟩

/-- What is in the grammar of frames is read as a frame. -/
theorem IsFrame.exists_parse : ∀ {v : Value}, IsFrame v → ∃ spec, FrameSpec.parse v = .ok spec
  | _, .bare htable hsteps => by
    obtain ⟨table, hne, htable⟩ := htable
    exact ⟨_, FrameSpec.parse_eq_ok.mpr (.bare hne htable hsteps)⟩
  | _, .steps htable hsteps h => by
    obtain ⟨table, hne, htable⟩ := htable
    obtain ⟨steps, hread⟩ :=
      Attempt.exists_mapM_iff.mpr fun step hstep => IsStep.exists_parse (h step hstep)
    exact ⟨_, FrameSpec.parse_eq_ok.mpr (.steps hne htable hsteps (Attempt.mapM_eq_ok.mp hread))⟩

end

end Spec

/-! ## What has been read is read again -/

mutual

/-- A canonical expression is read from its own value. -/
theorem ExprSpec.parse_toValue :
    ∀ {spec : ExprSpec}, spec.IsCanonical → ExprSpec.parse spec.toValue = .ok spec
  | .col name, h => by
    rw [toValue]
    exact parse_eq_ok.mpr (.col ⟨_, List.mem_singleton_self _⟩ h rfl)
  | .lit value, h => by
    have hcol : ¬Spec.Has [("lit", value)] "col" := Spec.not_has_iff.mpr rfl
    rw [toValue]
    exact parse_eq_ok.mpr (.lit hcol ⟨_, List.mem_singleton_self _⟩ h)
  | .op operator args, h => by
    obtain ⟨htakes, hargs⟩ := h
    have hread := ExprSpec.parse_toValues hargs
    rw [toValue]
    refine parse_eq_ok.mpr
      (.op (Spec.not_has_iff.mpr rfl) (Spec.not_has_iff.mpr rfl) rfl rfl ?_ hread)
    rw [hread.length_eq]
    exact htakes

theorem ExprSpec.parse_toValues : ∀ {args : List ExprSpec}, ExprSpec.AreCanonical args →
    List.Forall₂ (fun item arg => ExprSpec.parse item = .ok arg) (ExprSpec.toValues args) args
  | [], _ => by
    rw [toValues]
    exact .nil
  | arg :: rest, h => by
    rw [toValues]
    exact .cons (ExprSpec.parse_toValue h.1) (ExprSpec.parse_toValues h.2)

end

mutual

/-- A canonical step is read from its own value. -/
theorem StepSpec.parse_toValue :
    ∀ {spec : StepSpec}, spec.IsCanonical → StepSpec.parse spec.toValue = .ok spec
  | .select columns, h => by
    rw [StepSpec.toValue]
    exact StepSpec.parse_eq_ok.mpr (.select rfl (Spec.nameList_eq_ok.mpr ⟨h, .inl rfl⟩))
  | .drop columns, h => by
    rw [StepSpec.toValue]
    exact StepSpec.parse_eq_ok.mpr (.drop rfl (Spec.nameList_eq_ok.mpr ⟨h, .inl rfl⟩))
  | .assign name expr, h => by
    rw [StepSpec.toValue]
    exact StepSpec.parse_eq_ok.mpr (.assign rfl h.1 rfl (ExprSpec.parse_toValue h.2))
  | .rename mapping, h => by
    -- a canonical mapping has no entry that would be dropped
    have hkept : mapping = mapping.filter fun entry => entry.1 != Spec.droppedKey :=
      (List.filter_eq_self.mpr fun entry hentry => bne_iff_ne.mpr (h entry hentry).1).symm
    rw [StepSpec.toValue]
    exact StepSpec.parse_eq_ok.mpr (.rename rfl
      (Spec.mapping_eq_ok.mpr ⟨mapping, fun entry hentry => (h entry hentry).2, rfl, hkept⟩))
  | .filter predicate, h => by
    rw [StepSpec.toValue]
    exact StepSpec.parse_eq_ok.mpr (.filter rfl (ExprSpec.parse_toValue h))
  | .merge right on? leftOn? rightOn? how?, h => by
    obtain ⟨hright, hon, hleftOn, hrightOn⟩ := h
    rw [StepSpec.toValue]
    exact StepSpec.parse_eq_ok.mpr
      (.merge rfl (Spec.joinKind_eq_ok.mpr rfl) (FrameSpec.parse_toValue hright)
      (Spec.optionalNames_value hon) (Spec.optionalNames_value hleftOn)
      (Spec.optionalNames_value hrightOn))
  | .distinct, _ => by
    rw [StepSpec.toValue]
    exact StepSpec.parse_eq_ok.mpr (.distinct rfl)
  | .slice start? stop?, h => by
    rw [StepSpec.toValue]
    exact StepSpec.parse_eq_ok.mpr (.slice rfl (Spec.optionalInteger_eq_ok.mpr ⟨h.1, rfl⟩)
      (Spec.optionalInteger_eq_ok.mpr ⟨h.2, rfl⟩))

theorem StepSpec.parse_toValues : ∀ {steps : List StepSpec}, StepSpec.AreCanonical steps →
    List.Forall₂ (fun item step => StepSpec.parse item = .ok step) (StepSpec.toValues steps) steps
  | [], _ => by
    rw [StepSpec.toValues]
    exact .nil
  | step :: rest, h => by
    rw [StepSpec.toValues]
    exact .cons (StepSpec.parse_toValue h.1) (StepSpec.parse_toValues h.2)

/-- A canonical frame is read from its own value. -/
theorem FrameSpec.parse_toValue :
    ∀ {spec : FrameSpec}, spec.IsCanonical → FrameSpec.parse spec.toValue = .ok spec
  | .mk table steps, h => by
    rw [FrameSpec.toValue]
    exact FrameSpec.parse_eq_ok.mpr (.steps h.1 rfl rfl (StepSpec.parse_toValues h.2))

end

end LazyFrame
