import LazyFrame.Proofs.Faults.Building
import LazyFrame.Spec.Parser

/-!
# Reading descriptions

What a description is read from may be any value. Almost every way in which it can be wrong is
complained about as a mistake of the caller. The exception is a step of an unknown kind: the
complaint shows what stands in the place of the kind, and that need not have a text
(`Value.isMute`).

`FrameSpec.Mute` tells where reading comes to such a step: in one of the steps of the frame, or in a
frame that is merged, when everything in front of it could be read. Reading ends in a simple
description, in a mistake of the caller, or at a mute step (`StepSpec.parse_ends`,
`FrameSpec.parse_ends`), and where it comes to a mute step it fails without a status
(`FrameSpec.Mute.parse`).
-/

namespace LazyFrame

open Attempt (Ends EndsWell)

/-! ## Values without a text -/

namespace Value

mutual

/-- Whether a value has no text: a record that claims to know its text better, or a list with such
an item. -/
def isMute : Value → Bool
  | .list items => anyMute items
  | .record fields => fields.any (·.1 == "toString")
  | _ => false

/-- Whether one of the items has no text. -/
def anyMute : List Value → Bool
  | [] => false
  | item :: rest => isMute item || anyMute rest

end

mutual

/-- The text of a value is there, unless the value is mute. -/
theorem asText_ends : ∀ v : Value,
    Ends (fun e => e = .noText ∧ v.isMute = true) (fun _ => v.isMute = false) v.asText
  | .list items => by
    rw [asText, isMute]
    exact (itemTexts_ends items).bind fun _ htexts => .ok htexts
  | .record fields => by
    rw [asText, isMute]
    exact .ite (fun h => .error ⟨rfl, h⟩) fun h => .ok (Bool.eq_false_iff.mpr h)
  | .missing | .null | .bool _ | .number _ | .integer _ | .text _ | .half _ | .instant none
  | .instant (some _) => by
    rw [asText]
    exact .ok rfl

theorem itemTexts_ends : ∀ items : List Value,
    Ends (fun e => e = .noText ∧ anyMute items = true) (fun _ => anyMute items = false)
      (itemTexts items)
  | [] => by
    rw [itemTexts, anyMute]
    exact .ok rfl
  | item :: rest => by
    have hrest (h : item.isMute = false) (own : String) :
        Ends (fun e => e = .noText ∧ (item.isMute || anyMute rest) = true)
          (fun _ => (item.isMute || anyMute rest) = false)
          (itemTexts rest >>= fun others => .ok (own :: others)) := by
      rw [h, Bool.false_or]
      exact (itemTexts_ends rest).bind fun _ hothers => .ok hothers
    rw [itemTexts, anyMute]
    refine .ite (fun habsent => hrest ?_ "") fun _ => ?_
    · -- what is nothing at all is not asked for its text
      cases item <;> first | rfl | cases habsent
    · refine Ends.bind ((asText_ends item).mono (fun e he => ⟨he.1, ?_⟩) fun _ h => h)
        fun own hown => hrest hown own
      rw [he.2, Bool.true_or]

end

/-- A mute value has no text. -/
theorem asText_of_isMute {v : Value} (h : v.isMute = true) : v.asText = .error .noText := by
  cases htext : v.asText with
  | ok s =>
    have := (asText_ends v).of_ok htext
    rw [h] at this
    cases this
  | error e => rw [((asText_ends v).of_error htext).1]

end Value

/-! ## Fields -/

namespace Spec

theorem nameList_ends (what : String) (v : Value) : EndsWell (fun _ => True) (nameList what v) := by
  unfold nameList
  split
  · exact .ok trivial
  · split
    · exact .ok trivial
    · exact .error (.inl rfl)
  · exact .error (.inl rfl)

theorem optionalNames_ends (what : String) (v : Value) :
    EndsWell (fun _ => True) (optionalNames what v) := by
  have hmap : EndsWell (fun _ => True) ((nameList what v).map some) := by
    cases h : nameList what v with
    | ok names => exact .ok trivial
    | error e => exact .error ((nameList_ends what v).of_error h)
  unfold optionalNames
  split
  · exact .ok trivial
  · exact hmap

theorem optionalInteger_ends (what : String) (v : Value) :
    EndsWell (fun _ => True) (optionalInteger what v) := by
  unfold optionalInteger
  split
  · exact .ok trivial
  · exact .ite (fun _ => .ok trivial) fun _ => .error (.inl rfl)
  · exact .error (.inl rfl)

theorem mapping_ends (v : Value) : EndsWell (fun _ => True) (mapping v) := by
  unfold mapping
  split
  · split
    · exact .ok trivial
    · exact .error (.inl rfl)
  · exact .error (.inl rfl)

theorem joinKind_ends (v : Value) : EndsWell (fun _ => True) (joinKind v) := by
  unfold joinKind
  split
  · exact .ok trivial
  · exact .ok trivial
  · exact .error (.inl rfl)

theorem isObject_of_isLiteral {v : Value} (h : isLiteral v = true) : v.isObject = false := by
  cases v <;> first | rfl | cases h

end Spec

theorem Attempt.mapM_attach {α β : Type} (f : α → Attempt β) (l : List α) :
    (l.attach.mapM fun item => f item.1) = l.mapM f := by
  have hmap :=
    Attempt.mapM_map (f := fun item : {a // a ∈ l} => f item.1) (g := f) (h := Subtype.val)
      (l := l.attach)
    fun _ _ => rfl
  rw [← hmap, List.attach_map_subtype_val]

/-! ## Expressions -/

/-- An expression is simple, or it is not read by a mistake of the caller. The induction is on the
size of the value: operands are items of one of its fields. -/
theorem ExprSpec.parse_ends (v : Value) : EndsWell ExprSpec.IsSimple (ExprSpec.parse v) := by
  induction hn : sizeOf v using Nat.strongRecOn generalizing v with
  | ind n ih =>
    subst hn
    unfold ExprSpec.parse
    split
    next fields =>
      refine .ite (fun _ => ?_) fun _ => .ite (fun _ => ?_) fun _ => ?_
      · split
        · exact .ok trivial
        · exact .error (.inl rfl)
      · exact .ite (fun h => .ok (Spec.isObject_of_isLiteral h)) fun _ => .error (.inl rfl)
      · split
        · split
          · exact .error (.inl rfl)
          · refine .ite (fun _ => .error (.inl rfl)) fun _ => ?_
            rw [Attempt.mapM_attach]
            refine (Ends.mapM fun item hitem =>
              ih _ (Fields.sizeOf_lt_of_mem_items hitem) item rfl).bind fun args hargs => .ok ?_
            exact ExprSpec.areSimple_iff.mpr hargs
        · exact .error (.inl rfl)
    next => exact .error (.inl rfl)

/-! ## Steps and frames -/

mutual

/-- Reading a step comes to something whose text it asks for in vain: in the place of its own kind,
or in the frame that it merges. -/
inductive StepSpec.Mute : Value → Prop where
  | own {fields : List (String × Value)} (h : (Fields.get fields "op").isMute = true) :
    StepSpec.Mute (.record fields)
  | right {fields : List (String × Value)} {how? : Option String}
    (hop : Fields.get fields "op" = .text "merge")
    (hhow : Spec.joinKind (Fields.get fields "how") = .ok how?)
    (h : FrameSpec.Mute (Fields.get fields "right")) :
    StepSpec.Mute (.record fields)

/-- Reading a frame comes to such a step, after all steps in front of it could be read. -/
inductive FrameSpec.Mute : Value → Prop where
  | step {fields : List (String × Value)} {table : String} {before after : List Value}
    {step : Value} (htable : Spec.name? (Fields.get fields "table") = some table)
    (hsteps : Fields.get fields "steps" = .list (before ++ step :: after))
    (hbefore : ∀ s ∈ before, ∃ spec, StepSpec.parse s = .ok spec) (h : StepSpec.Mute step) :
    FrameSpec.Mute (.record fields)

end

/-- Reading a step ends in a simple one, in a mistake of the caller, or at something mute. -/
def StepSpec.ReadsWell (v : Value) : Prop :=
  Ends (fun e => e.IsClient ∨ e = .noText ∧ StepSpec.Mute v) StepSpec.IsSimple (StepSpec.parse v)

/-- Reading a frame ends in a simple one, in a mistake of the caller, or at something mute. -/
def FrameSpec.ReadsWell (v : Value) : Prop :=
  Ends (fun e => e.IsClient ∨ e = .noText ∧ FrameSpec.Mute v) FrameSpec.IsSimple (FrameSpec.parse v)

/-- A mistake of the caller is one of the faults that reading may end in. -/
theorem Attempt.Ends.orMute {α : Type} {Q : α → Prop} {x : Attempt α} {P : Prop}
    (h : EndsWell Q x) : Ends (fun e => e.IsClient ∨ e = .noText ∧ P) Q x :=
  h.mono (fun _ he => .inl he) fun _ hq => hq

/-- One step: what is mute in it is its kind, or it stands in the frame that is merged. -/
theorem StepSpec.readsWell_of_right {v : Value}
    (hright : ∀ fields, v = .record fields → FrameSpec.ReadsWell (Fields.get fields "right")) :
    StepSpec.ReadsWell v := by
  unfold StepSpec.ReadsWell StepSpec.parse
  split
  next fields =>
    split
    · exact Ends.orMute ((Spec.nameList_ends _ _).bind fun _ _ => .ok trivial)
    · exact Ends.orMute ((Spec.nameList_ends _ _).bind fun _ _ => .ok trivial)
    · split
      · exact .error (.inl (.inl rfl))
      · exact Ends.orMute ((ExprSpec.parse_ends _).bind fun _ hexpr => .ok hexpr)
    · exact Ends.orMute ((Spec.mapping_ends _).bind fun _ _ => .ok trivial)
    · exact Ends.orMute ((ExprSpec.parse_ends _).bind fun _ hexpr => .ok hexpr)
    next hop =>
      cases hhow : Spec.joinKind (Fields.get fields "how") with
      | error e => exact .error (.inl ((Spec.joinKind_ends _).of_error hhow))
      | ok how? =>
        -- the frame is read after the kind of join and before the keys
        refine Ends.bind
          ((hright fields rfl).mono (fun e he => he.imp_right fun hmute => ?_) fun _ h => h)
          fun right hsimple => ?_
        · exact ⟨hmute.1, .right hop hhow hmute.2⟩
        · exact Ends.orMute ((Spec.optionalNames_ends _ _).bind fun _ _ =>
            (Spec.optionalNames_ends _ _).bind fun _ _ =>
            (Spec.optionalNames_ends _ _).bind fun _ _ => .ok hsimple)
    · exact .ok trivial
    · exact Ends.orMute ((Spec.optionalInteger_ends _ _).bind fun _ _ =>
        (Spec.optionalInteger_ends _ _).bind fun _ _ => .ok trivial)
    · refine Ends.bind ((Value.asText_ends _).mono (fun e he => ?_) fun _ h => h) fun _ _ =>
        .error (.inl (.inl rfl))
      exact .inr ⟨he.1, .own he.2⟩
  next => exact .error (.inl (.inl rfl))

/-- One frame: what is mute in it is the first of its steps that is not read. -/
theorem FrameSpec.readsWell_of_steps {v : Value}
    (hsteps : ∀ fields, v = .record fields →
      ∀ step ∈ (Fields.get fields "steps").items, StepSpec.ReadsWell step) :
    FrameSpec.ReadsWell v := by
  unfold FrameSpec.ReadsWell FrameSpec.parse
  split
  next fields =>
    split
    · exact .error (.inl (.inl rfl))
    next table htable =>
      refine .ite (fun _ => ?_) fun _ => .error (.inl (.inl rfl))
      rw [Attempt.mapM_attach]
      cases hread : (Fields.get fields "steps").items.mapM StepSpec.parse with
      | ok specs =>
        refine .ok (StepSpec.areSimple_iff.mpr fun spec hspec => ?_)
        obtain ⟨step, hstep, hparse⟩ :=
          Attempt.exists_of_mem_right (Attempt.mapM_eq_ok.mp hread) hspec
        exact (hsteps fields rfl step hstep).of_ok hparse
      | error e =>
        -- the steps are read in order, so the fault is that of the first one that fails
        obtain ⟨before, step, after, hitems, hbefore, hparse⟩ := Attempt.mapM_eq_error.mp hread
        have hmem : step ∈ (Fields.get fields "steps").items := by
          rw [hitems]
          exact List.mem_append_right _ (List.mem_cons_self ..)
        have hlist : Fields.get fields "steps" = .list (before ++ step :: after) := by
          cases hvalue : Fields.get fields "steps" with
          | list items =>
            rw [hvalue] at hitems
            exact congrArg Value.list hitems
          | _ =>
            rw [hvalue] at hitems
            cases before <;> cases hitems
        refine .error (((hsteps fields rfl step hmem).of_error hparse).imp_right fun hmute => ?_)
        exact ⟨hmute.1, .step htable hlist hbefore hmute.2⟩
  next => exact .error (.inl (.inl rfl))

/-- Steps and frames are read from smaller values, so what holds of one step and one frame holds of
all. -/
theorem Spec.readsWell (v : Value) : StepSpec.ReadsWell v ∧ FrameSpec.ReadsWell v := by
  induction hn : sizeOf v using Nat.strongRecOn generalizing v with
  | ind n ih =>
    subst hn
    constructor
    · refine StepSpec.readsWell_of_right fun fields hv => ?_
      subst hv
      exact (ih _ (Fields.sizeOf_get_lt fields "right") _ rfl).2
    · refine FrameSpec.readsWell_of_steps fun fields hv step hstep => ?_
      subst hv
      exact (ih _ (Fields.sizeOf_lt_of_mem_items hstep) _ rfl).1

mutual

/-- A mute step is not read, and the fault has no status. -/
theorem StepSpec.Mute.parse : ∀ {v : Value}, StepSpec.Mute v → StepSpec.parse v = .error .noText
  | _, @StepSpec.Mute.own fields h => by
    have hno (s : String) : Fields.get fields "op" ≠ .text s := by
      intro hs
      rw [hs] at h
      cases h
    -- every known kind is a text
    unfold StepSpec.parse
    split
    iterate 8 next hop => exact absurd hop (hno _)
    rw [Value.asText_of_isMute h, Attempt.error_bind]
  | _, .right hop hhow h => by
    have hframe := FrameSpec.Mute.parse h
    simp only [StepSpec.parse, hop, hhow, hframe, Attempt.ok_bind, Attempt.error_bind]

/-- A frame with a mute step is not read either. -/
theorem FrameSpec.Mute.parse : ∀ {v : Value}, FrameSpec.Mute v → FrameSpec.parse v = .error .noText
  | _, @FrameSpec.Mute.step fields table before after step htable hsteps hbefore h => by
    have hread : (before ++ step :: after).mapM StepSpec.parse = .error .noText :=
      Attempt.mapM_eq_error.mpr ⟨before, step, after, rfl, hbefore, StepSpec.Mute.parse h⟩
    have hlist : Spec.isListOrMissing (Fields.get fields "steps") = true := by rw [hsteps]; rfl
    have hitems : (Fields.get fields "steps").items = before ++ step :: after := by rw [hsteps]; rfl
    simp only [FrameSpec.parse, htable, hlist, if_true, Attempt.mapM_attach, hitems, hread,
      Attempt.error_bind]

end

end LazyFrame
