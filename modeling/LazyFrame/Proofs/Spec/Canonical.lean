import LazyFrame.Proofs.Spec.Grammar

/-!
# Descriptions that have been read

A description comes out of reading exactly when it is canonical, and then it is read from its own
value again. Over a frame, a canonical expression has all its operands, so the only thing that can
be missing is a column (`ExprSpec.IsCanonical.toExpr_ends`). `FrameSpec.parse_grammar` puts this
together with the grammar.
-/

namespace LazyFrame

/-! ## Expressions over a frame -/

mutual

/-- The names of the columns in an expression, from left to right. -/
def ExprSpec.columnNames : ExprSpec → List String
  | .col name => [name]
  | .lit _ => []
  | .op _ args => ExprSpec.allColumnNames args

/-- The names of the columns in several expressions. -/
def ExprSpec.allColumnNames : List ExprSpec → List String
  | [] => []
  | arg :: rest => ExprSpec.columnNames arg ++ ExprSpec.allColumnNames rest

end

/-- A column that is asked for is not one of the frame. -/
def Frame.Misses (f : Frame) (names : List String) (fault : Fault) : Prop :=
  ∃ name ∈ names, name ∉ f.columns ∧ fault = .unknownColumn name (some (.lookup f.columns))

theorem Frame.Misses.mono {f : Frame} {names others : List String} {fault : Fault}
    (h : f.Misses names fault) (hsub : names ⊆ others) : f.Misses others fault := by
  obtain ⟨name, hname, h⟩ := h
  exact ⟨name, hsub hname, h⟩

open Attempt (Ends)

theorem Frame.col_ends (f : Frame) (name : String) :
    Ends (f.Misses [name]) (fun _ => ∀ n ∈ [name], n ∈ f.columns) (f.col name) := by
  have hnames : f.plan.opened.names = f.columns := Plan.names_opened f.plan
  unfold Frame.col Plan.lookup Query.lookup
  cases hfound : f.plan.opened.selection.outputs.find? (·.name == name) with
  | some output =>
    have hname : output.name = name := by simpa using List.find?_some hfound
    refine .ok (List.forall_mem_singleton.mpr ?_)
    rw [← hnames, ← hname]
    exact List.mem_map_of_mem (List.mem_of_find?_eq_some hfound)
  | none =>
    refine .error ⟨name, List.mem_singleton_self name, fun hmem => ?_, by rw [hnames]⟩
    rw [← hnames] at hmem
    obtain ⟨output, houtput, hname⟩ := List.mem_map.mp hmem
    exact List.find?_eq_none.mp hfound output houtput (beq_iff_eq.mpr hname)

namespace ExprSpec

/-- An operator with the operands that it takes makes an expression. -/
theorem exists_applied {operator : String} {operands : List Expr}
    (h : Spec.Takes operator operands.length) : ∃ e, applied operator operands = .ok e := by
  unfold applied
  rcases h with ⟨⟨binary, hbinary⟩, _⟩ | ⟨⟨unary, hunary⟩, _⟩
  · rw [hbinary]
    cases UnaryOp.ofName? operator with
    | some unary => exact ⟨_, rfl⟩
    | none => exact ⟨_, rfl⟩
  · rw [hunary]
    exact ⟨_, rfl⟩

mutual

/-- A canonical expression over a frame is there exactly if the frame has its columns. -/
theorem IsCanonical.toExpr_ends (f : Frame) : ∀ {spec : ExprSpec}, spec.IsCanonical →
    Ends (f.Misses spec.columnNames) (fun _ => ∀ name ∈ spec.columnNames, name ∈ f.columns)
      (toExpr f spec)
  | .col name, _ => by
    rw [toExpr, columnNames]
    exact f.col_ends name
  | .lit value, _ => by
    rw [toExpr, columnNames]
    exact .ok fun _ h => absurd h List.not_mem_nil
  | .op operator args, h => by
    rw [toExpr, columnNames]
    refine (AreCanonical.argExprs_ends f h.2).bind fun operands hoperands => ?_
    have htakes : Spec.Takes operator operands.length := by
      rw [hoperands.1]
      exact h.1
    obtain ⟨e, he⟩ := exists_applied htakes
    rw [he]
    exact .ok hoperands.2

theorem AreCanonical.argExprs_ends (f : Frame) : ∀ {args : List ExprSpec}, AreCanonical args →
    Ends (f.Misses (allColumnNames args))
      (fun es => es.length = args.length ∧ ∀ name ∈ allColumnNames args, name ∈ f.columns)
      (argExprs f args)
  | [], _ => by
    rw [argExprs, allColumnNames]
    exact .ok ⟨rfl, fun _ h => absurd h List.not_mem_nil⟩
  | arg :: rest, h => by
    rw [argExprs, allColumnNames]
    refine ((IsCanonical.toExpr_ends f h.1).mono (fun _ he => he.mono (List.subset_append_left ..))
      fun _ ha => ha).bind fun first hfirst => ?_
    refine ((AreCanonical.argExprs_ends f h.2).mono
      (fun _ he => he.mono (List.subset_append_right ..))
      fun _ ha => ha).bind fun others hothers => .ok ⟨?_, fun name hname => ?_⟩
    · rw [List.length_cons, hothers.1, List.length_cons]
    · rcases List.mem_append.mp hname with hname | hname
      · exact hfirst name hname
      · exact hothers.2 name hname

end

end ExprSpec

/-! ## Expressions of a frame -/

mutual

/-- The expressions in a step, those of a frame that it merges included. -/
def StepSpec.expressions : StepSpec → List ExprSpec
  | .assign _ expr => [expr]
  | .filter predicate => [predicate]
  | .merge right _ _ _ _ => FrameSpec.expressions right
  | _ => []

/-- The expressions in several steps. -/
def StepSpec.allExpressions : List StepSpec → List ExprSpec
  | [] => []
  | step :: rest => StepSpec.expressions step ++ StepSpec.allExpressions rest

/-- The expressions in a frame. -/
def FrameSpec.expressions : FrameSpec → List ExprSpec
  | .mk _ steps => StepSpec.allExpressions steps

end

mutual

theorem StepSpec.IsCanonical.of_mem_expressions : ∀ {step : StepSpec}, step.IsCanonical →
    ∀ expr ∈ step.expressions, expr.IsCanonical
  | .assign name expr, h => by
    rw [StepSpec.expressions]
    exact List.forall_mem_singleton.mpr h.2
  | .filter predicate, h => by
    rw [StepSpec.expressions]
    exact List.forall_mem_singleton.mpr h
  | .merge right on? leftOn? rightOn? how?, h => by
    rw [StepSpec.expressions]
    exact FrameSpec.IsCanonical.of_mem_expressions h.1
  | .select _, _ | .rename _, _ | .drop _, _ | .distinct, _ | .slice _ _, _ =>
    fun _ hexpr => absurd hexpr List.not_mem_nil

theorem StepSpec.AreCanonical.of_mem_expressions :
    ∀ {steps : List StepSpec}, StepSpec.AreCanonical steps →
    ∀ expr ∈ StepSpec.allExpressions steps, expr.IsCanonical
  | [], _ => fun _ hexpr => absurd hexpr List.not_mem_nil
  | step :: rest, h => by
    rw [StepSpec.allExpressions]
    exact List.forall_mem_append.mpr
      ⟨StepSpec.IsCanonical.of_mem_expressions h.1, StepSpec.AreCanonical.of_mem_expressions h.2⟩

/-- All expressions of a canonical frame are canonical. -/
theorem FrameSpec.IsCanonical.of_mem_expressions : ∀ {spec : FrameSpec}, spec.IsCanonical →
    ∀ expr ∈ spec.expressions, expr.IsCanonical
  | .mk table steps, h => by
    rw [FrameSpec.expressions]
    exact StepSpec.AreCanonical.of_mem_expressions h.2

end

/-! ## Reading and the grammar -/

/-- What is read twice: it is read from its own value, its operators have the operands that they
take, and over any frame nothing but a column can be missing. -/
structure ExprSpec.Settled (spec : ExprSpec) : Prop where
  parse_toValue : ExprSpec.parse spec.toValue = .ok spec
  canonical : spec.IsCanonical
  toExpr_error : ∀ (f : Frame) (fault : Fault), spec.toExpr f = .error fault →
  f.Misses spec.columnNames fault

theorem ExprSpec.IsCanonical.settled {spec : ExprSpec} (h : spec.IsCanonical) : spec.Settled :=
  ⟨ExprSpec.parse_toValue h, h, fun f _ hfault => (h.toExpr_ends f).of_error hfault⟩

/-- Expressions and frames are read exactly if they are of the grammar. What is read of them is read
again from its own value; its operators have the operands that they take, so over any frame its
expressions fail only for a column that is not there. -/
theorem FrameSpec.parse_grammar (v : Value) :
    ((∃ spec, ExprSpec.parse v = .ok spec) ↔ Spec.IsExpression v) ∧
    ((∃ spec, FrameSpec.parse v = .ok spec) ↔ Spec.IsFrame v) ∧
    (∀ spec, ExprSpec.parse v = .ok spec → spec.Settled) ∧
    ∀ spec, FrameSpec.parse v = .ok spec →
      FrameSpec.parse spec.toValue = .ok spec ∧ spec.IsCanonical ∧
      ∀ expr ∈ spec.expressions, expr.Settled := by
  refine ⟨⟨fun h => ?_, Spec.IsExpression.exists_parse⟩, ⟨fun h => ?_, Spec.IsFrame.exists_parse⟩,
    fun spec h => (Spec.IsExpression.of_parse h).2.settled, fun spec h => ?_⟩
  · obtain ⟨spec, h⟩ := h
    exact (Spec.IsExpression.of_parse h).1
  · obtain ⟨spec, h⟩ := h
    exact (Spec.IsFrame.of_parse h).1
  · have hcanonical := (Spec.IsFrame.of_parse h).2
    exact ⟨FrameSpec.parse_toValue hcanonical, hcanonical,
      fun expr hexpr => (hcanonical.of_mem_expressions expr hexpr).settled⟩

/-- A comparison of a column with a number. -/
def Value.longerThan : Value :=
  .record [("op", .text "gt"),
    ("args", .list [.record [("col", .text "Milliseconds")], .record [("lit", .number 300000)]])]

/-- The same comparison, read. -/
def ExprSpec.longerThan : ExprSpec := .op "gt" [.col "Milliseconds", .lit (.number 300000)]

theorem ExprSpec.parse_longerThan : ExprSpec.parse .longerThan = .ok .longerThan := by
  have htakes : Spec.Takes "gt" 2 := .inl ⟨⟨.gt, rfl⟩, rfl⟩
  have hcol : ExprSpec.parse (.record [("col", .text "Milliseconds")]) =
      .ok (.col "Milliseconds") :=
    parse_eq_ok.mpr (.col ⟨_, List.mem_singleton_self _⟩ (by decide) rfl)
  have hlit : ExprSpec.parse (.record [("lit", .number 300000)]) = .ok (.lit (.number 300000)) :=
    parse_eq_ok.mpr
      (.lit (Spec.not_has_iff.mpr rfl) ⟨_, List.mem_singleton_self _⟩ (.inr (.inr (.inl ⟨_, rfl⟩))))
  exact parse_eq_ok.mpr (.op (Spec.not_has_iff.mpr rfl) (Spec.not_has_iff.mpr rfl) rfl rfl htakes
    (.cons hcol (.cons hlit .nil)))

/-- A frame that merges another one on a single name. -/
def Value.longTracks : Value :=
  .record [("table", .text "tracks"), ("steps", .list
    [.record [("op", .text "where"), ("predicate", .longerThan)],
      .record [("op", .text "merge"), ("on", .text "AlbumId"),
        ("right", .record [("table", .text "albums")])]])]

/-- The same frame, read. -/
def FrameSpec.longTracks : FrameSpec :=
  .mk "tracks" [.filter .longerThan, .merge (.mk "albums" []) (some ["AlbumId"]) none none none]

theorem FrameSpec.parse_longTracks : FrameSpec.parse .longTracks = .ok .longTracks := by
  have halbums : FrameSpec.parse (.record [("table", .text "albums")]) = .ok (.mk "albums" []) :=
    parse_eq_ok.mpr (.bare (by decide) rfl rfl)
  have hfilter : StepSpec.parse (.record [("op", .text "where"), ("predicate", .longerThan)]) =
      .ok (.filter .longerThan) := StepSpec.parse_eq_ok.mpr (.filter rfl ExprSpec.parse_longerThan)
  have hmerge : StepSpec.parse (.record [("op", .text "merge"), ("on", .text "AlbumId"),
      ("right", .record [("table", .text "albums")])]) =
      .ok (.merge (.mk "albums" []) (some ["AlbumId"]) none none none) :=
    StepSpec.parse_eq_ok.mpr (.merge rfl rfl halbums rfl rfl rfl)
  exact parse_eq_ok.mpr (.steps (by decide) rfl rfl (.cons hfilter (.cons hmerge .nil)))

/-- Both are of the grammar, and are read from the values of what they are read into. -/
theorem FrameSpec.parse_grammar_longTracks :
    (ExprSpec.parse .longerThan = .ok .longerThan ∧ Spec.IsExpression .longerThan ∧
      ExprSpec.longerThan.Settled) ∧
    FrameSpec.parse .longTracks = .ok .longTracks ∧ Spec.IsFrame .longTracks ∧
      FrameSpec.parse FrameSpec.longTracks.toValue = .ok .longTracks ∧
      ∀ expr ∈ FrameSpec.longTracks.expressions, expr.Settled := by
  obtain ⟨hexpression, _, hexpr, _⟩ := parse_grammar .longerThan
  obtain ⟨_, hframe, _, hspec⟩ := parse_grammar .longTracks
  refine ⟨⟨ExprSpec.parse_longerThan, hexpression.mp ⟨_, ExprSpec.parse_longerThan⟩,
    hexpr _ ExprSpec.parse_longerThan⟩, parse_longTracks, hframe.mp ⟨_, parse_longTracks⟩, ?_⟩
  obtain ⟨hagain, _, hsettled⟩ := hspec _ parse_longTracks
  exact ⟨hagain, hsettled⟩

end LazyFrame
