import LazyFrame.Proofs.Rows.Pipeline

/-!
# Which descriptions mean what they say

A description is faithful if its plan has the rows of the table that it describes
(`FrameSpec.IsFaithful`). All steps but one keep a faithful description faithful. The one is a left
merge: the columns taken from its right side are computed above the join, where a left row without a
partner has NULL in what they are computed from, and not in the columns themselves.

So the left merges decide, and nothing else does: a description is faithful at every stage of it and
of what it merges exactly if every left merge on the way pads (`FrameSpec.build_faithful_iff`). Step
by step this is `FrameSpec.isFaithful_concat_iff`, and the induction is along the steps, with what
each of them merges on the side. Without left merges there is nothing to pad
(`FrameSpec.IsInner.parts_pad`). Faults and columns are those of the description in any case.
-/

namespace LazyFrame

open Attempt (Agree)

variable {α : Type} [DecidableEq α] {S : Scalars α} {db : Database α} {c : Catalog}

namespace FrameSpec

/-- The last step of a description pads whatever frame the steps before it have made. -/
def Pads (S : Scalars α) (db : Database α) (c : Catalog) : FrameSpec → Prop
  | .mk table steps => ∀ last ∈ steps.getLast?, ∀ next f next',
      (∀ info ∈ c.tables, info.id < next) →
      (mk table steps.dropLast).build c next = .ok (f, next') → last.Pads S db c f next'

/-- The last of several steps is the one that has to pad. -/
theorem pads_concat_iff {table : String} {front : List StepSpec} {step : StepSpec} :
    (mk table (front ++ [step])).Pads S db c ↔ ∀ next f next', (∀ info ∈ c.tables, info.id < next) →
      (mk table front).build c next = .ok (f, next') → step.Pads S db c f next' := by
  rw [Pads, List.getLast?_concat, List.dropLast_concat]
  exact ⟨fun h => h step rfl, fun h last hlast => by cases hlast; exact h⟩

/-- The table of one more step is that of the step on the table before. -/
theorem perform_concat (S : Scalars α) (db : Database α) (c : Catalog) (table : String)
    (steps : List StepSpec) (step : StepSpec) : (mk table (steps ++ [step])).perform S db c =
      (mk table steps).perform S db c >>= fun t => step.perform S db c t := by
  have hperform : ∀ (t : Table α) (steps : List StepSpec),
      StepSpec.performAll S db c t (steps ++ [step]) =
      StepSpec.performAll S db c t steps >>= fun u => step.perform S db c u := by
    intro t steps
    induction steps generalizing t with
    | nil => exact bind_pure (step.perform S db c t)
    | cons first rest ih =>
      rw [List.cons_append, StepSpec.performAll, StepSpec.performAll, bind_assoc]
      exact bind_congr fun u => ih u
  rw [FrameSpec.perform, FrameSpec.perform, bind_assoc]
  exact bind_congr fun info => hperform _ steps

/-- Without a step there are the rows of a table of the database. -/
theorem isFaithful_table (hc : c.WellFormed) (table : String) :
    (mk table []).IsFaithful S db c := by
  intro next hids
  have hbuild : (mk table []).build c next = Frame.ofTable c table next := by
    have hsame : (mk table []).build c = Frame.ofTable c table >>= pure := rfl
    rw [hsame, bind_pure]
  have hperform : (mk table []).perform S db c = c.table table >>= fun info =>
      .ok (Table.ofInfo db info) := rfl
  have hagree := (Frame.agree_ofTable (S := S) (c := c) hc hids table).map_eq_map
    (f := fun made => made.1.plan.query.table S db) (g := id) fun _ _ hmade => hmade.related
  rw [hbuild, hperform, hagree]
  cases c.table table <;> rfl

end FrameSpec

/-- A step that is refused has nothing to pad. -/
theorem StepSpec.pads_of_error {f : Frame} {next : Nat} {e : Fault} {step : StepSpec}
    (h : step.apply c f next = .error e) : step.Pads S db c f next := by
  cases step with
  | merge right on? leftOn? rightOn? how? =>
    intro g next' hbuild made hmade
    have hok : (StepSpec.merge right on? leftOn? rightOn? how?).apply c f next = .ok made := by
      rw [StepSpec.apply]
      show (right.build c next >>= fun built => f.merge built.1 _ built.2) = _
      rw [hbuild]
      exact hmade
    rw [hok] at h
    cases h
  | _ => trivial

/-- A step on a frame has the rows of the step on its table exactly if it pads. -/
theorem StepSpec.table_apply_iff (hc : c.WellFormed) {next : Nat}
    (hids : ∀ info ∈ c.tables, info.id < next) {f : Frame}
    (h : f.Denotes c next (f.plan.query.table S db)) {step : StepSpec} (hexact : step.IsExact)
    (hparts : ∀ part ∈ step.parts, part.IsFaithful S db c) :
    (step.apply c f next).map (fun made => made.1.plan.query.table S db) =
        step.perform S db c (f.plan.query.table S db) ↔ step.Pads S db c f next := by
  have hagree : Agree (Frame.Made c next (step.Follows S db c f next (f.plan.query.table S db)))
      (step.apply c f next) (step.perform S db c (f.plan.query.table S db)) :=
    StepSpec.agree_apply hc hids h step
  generalize hy : step.perform S db c (f.plan.query.table S db) = y at hagree
  cases hx : step.apply c f next with
  | error e =>
    rw [hx] at hagree
    cases hagree
    exact iff_of_true rfl (StepSpec.pads_of_error hx)
  | ok made =>
    rw [hx] at hagree
    cases hagree with
    | ok hmade =>
      have hrows := hmade.related hexact hparts rfl
      exact ⟨fun heq => hrows.mp (Except.ok.inj heq),
        fun hpads => congrArg Except.ok (hrows.mpr hpads)⟩

namespace FrameSpec

/-- One more step keeps a faithful description faithful exactly if it pads. -/
theorem isFaithful_concat_iff (hc : c.WellFormed) {table : String} {front : List StepSpec}
    {step : StepSpec} (hfront : (mk table front).IsFaithful S db c)
    (hparts : ∀ part ∈ step.parts, part.IsFaithful S db c) (hexact : step.IsExact) :
    (mk table (front ++ [step])).IsFaithful S db c ↔ (mk table (front ++ [step])).Pads S db c := by
  rw [pads_concat_iff, IsFaithful]
  refine forall_congr' fun next => ?_
  have hbuild : (mk table (front ++ [step])).build c next =
      (mk table front).build c next >>= fun made => step.apply c made.1 made.2 :=
    congrFun (build_concat c table front step) next
  rw [hbuild, perform_concat]
  -- where the front is refused, both sides hold: its fault is that of the whole
  cases hmade : (mk table front).build c next with
  | error e =>
    refine iff_of_true (fun hids => ?_) fun f next' _ h => by cases h
    rw [← hfront next hids, hmade]
    rfl
  | ok made =>
    obtain ⟨f, next'⟩ := made
    -- the front denotes its own rows, and the last step acts on these
    have hstep : ∀ hids : ∀ info ∈ c.tables, info.id < next,
        (step.apply c f next').map (fun made => made.1.plan.query.table S db) =
            ((mk table front).perform S db c >>= fun t => step.perform S db c t) ↔
            step.Pads S db c f next' := by
      intro hids
      have hrows := hfront next hids
      have hagree : Agree (Frame.Made c next fun _ _ => True) ((mk table front).build c next)
          ((mk table front).perform S db c) := agree_build hc hids _
      rw [← hrows, hmade] at hagree
      rw [← hrows, hmade]
      cases hagree with
      | ok hdenotes =>
        exact StepSpec.table_apply_iff hc (Catalog.ids_mono hids hdenotes.le)
          hdenotes.denotes hexact hparts
    constructor
    · intro h f' n hids heq
      cases heq
      exact (hstep hids).mp (h hids)
    · intro h hids
      exact (hstep hids).mpr (h f next' hids rfl)

end FrameSpec

mutual

/-- What a step merges is faithful throughout exactly if all of it pads. -/
theorem StepSpec.parts_faithful_iff (hc : c.WellFormed) : ∀ step : StepSpec, step.IsExact →
    ((∀ part ∈ step.parts, part.IsFaithful S db c) ↔ ∀ part ∈ step.parts, part.Pads S db c)
  | .merge right _ _ _ _, hexact => FrameSpec.parts_faithful_iff hc right hexact
  | .select _, _ | .assign _ _, _ | .rename _, _ | .drop _, _ | .filter _, _ | .distinct, _
  | .slice _ _, _ => by
    simp [StepSpec.parts]

/-- Behind faithful steps, the steps that follow are faithful one by one exactly if they pad one by
one. -/
theorem FrameSpec.partsFrom_faithful_iff (hc : c.WellFormed) (table : String)
    {front : List StepSpec} (hfront : (FrameSpec.mk table front).IsFaithful S db c)
    (hpads : (FrameSpec.mk table front).Pads S db c) :
    ∀ rest : List StepSpec, StepSpec.AreExact rest →
      ((∀ part ∈ FrameSpec.partsFrom table front rest, part.IsFaithful S db c) ↔
        ∀ part ∈ FrameSpec.partsFrom table front rest, part.Pads S db c)
  | [], _ => by simp [FrameSpec.partsFrom, hfront, hpads]
  | step :: rest, hexact => by
    obtain ⟨hstep, hrest⟩ := hexact
    have hright : (∀ part ∈ step.parts, part.IsFaithful S db c) ↔
        ∀ part ∈ step.parts, part.Pads S db c :=
      StepSpec.parts_faithful_iff hc step hstep
    have hmem :
        FrameSpec.mk table (front ++ [step]) ∈ FrameSpec.partsFrom table (front ++ [step]) rest :=
      FrameSpec.mem_partsFrom table _ rest
    rw [FrameSpec.partsFrom, List.forall_mem_cons, List.forall_mem_append, List.forall_mem_cons,
      List.forall_mem_append]
    -- each step is settled with what it merges before the steps behind it are
    constructor
    · rintro ⟨_, hparts, hothers⟩
      have hnext := hothers _ hmem
      have hnext' := (FrameSpec.isFaithful_concat_iff hc hfront hparts hstep).mp hnext
      exact ⟨hpads, hright.mp hparts,
        (FrameSpec.partsFrom_faithful_iff hc table hnext hnext' rest hrest).mp hothers⟩
    · rintro ⟨_, hparts, hothers⟩
      have hfaithful := hright.mpr hparts
      have hnext' := hothers _ hmem
      have hnext := (FrameSpec.isFaithful_concat_iff hc hfront hfaithful hstep).mpr hnext'
      exact ⟨hfront, hfaithful,
        (FrameSpec.partsFrom_faithful_iff hc table hnext hnext' rest hrest).mpr hothers⟩

/-- A description is faithful throughout exactly if all of it pads. -/
theorem FrameSpec.parts_faithful_iff (hc : c.WellFormed) : ∀ spec : FrameSpec, spec.IsExact →
    ((∀ part ∈ spec.parts, part.IsFaithful S db c) ↔ ∀ part ∈ spec.parts, part.Pads S db c)
  | .mk table steps, hexact =>
    FrameSpec.partsFrom_faithful_iff hc table (FrameSpec.isFaithful_table hc table)
      (fun last hlast => by cases hlast) steps hexact

end

/-! ## Descriptions without left merges -/

mutual

/-- No step merges with NULL beside rows without a partner. -/
def StepSpec.IsInner : StepSpec → Prop
  | .merge right _ _ _ how? => how? ≠ some "left" ∧ FrameSpec.IsInner right
  | _ => True

/-- None of the steps does. -/
def StepSpec.AreInner : List StepSpec → Prop
  | [] => True
  | step :: rest => StepSpec.IsInner step ∧ StepSpec.AreInner rest

/-- No step of a description does, nor of the descriptions that it merges. -/
def FrameSpec.IsInner : FrameSpec → Prop
  | .mk _ steps => StepSpec.AreInner steps

end

/-- A merge is a left one only if it is called so. -/
theorem MergeOptions.how?_of_left {options : MergeOptions} (h : options.kind = .ok .left) :
    options.how? = some "left" := by
  have hname : options.how?.getD "inner" = "left" := by
    unfold MergeOptions.kind at h
    cases hkind : JoinKind.ofName? (options.how?.getD "inner") with
    | none => simp [hkind] at h
    | some kind =>
      simp only [hkind] at h
      cases h
      unfold JoinKind.ofName? at hkind
      split_ifs at hkind with hinner hleft
      · cases hkind
      · exact hleft
  cases hhow : options.how? with
  | none =>
    rw [hhow] at hname
    exact absurd hname (by decide)
  | some how =>
    rw [hhow] at hname
    exact congrArg some hname

/-- Without a left merge there is nothing to pad. -/
theorem StepSpec.IsInner.pads {step : StepSpec} (h : step.IsInner) (f : Frame) (next : Nat) :
    step.Pads S db c f next := by
  cases step with
  | merge right on? leftOn? rightOn? how? =>
    exact fun _ _ _ _ _ hkind => absurd (MergeOptions.how?_of_left hkind) h.1
  | _ => trivial

mutual

/-- All that a step merges pads if none of it is a left merge. -/
theorem StepSpec.IsInner.parts_pad :
    ∀ {step : StepSpec}, step.IsInner → ∀ part ∈ step.parts, part.Pads S db c
  | .merge .., h => FrameSpec.IsInner.parts_pad h.2
  | .select _, _ | .assign _ _, _ | .rename _, _ | .drop _, _ | .filter _, _ | .distinct, _
  | .slice _ _, _ => by
    simp [StepSpec.parts]

/-- Behind steps that pad, all that follows pads if none of it is a left merge. -/
theorem StepSpec.AreInner.partsFrom_pad (table : String) {front : List StepSpec}
    (hfront : (FrameSpec.mk table front).Pads S db c) :
    ∀ {rest : List StepSpec}, StepSpec.AreInner rest →
      ∀ part ∈ FrameSpec.partsFrom table front rest, part.Pads S db c
  | [], _ => by simp [FrameSpec.partsFrom, hfront]
  | step :: rest, ⟨hstep, hrest⟩ => by
    have hnext : (FrameSpec.mk table (front ++ [step])).Pads S db c :=
      FrameSpec.pads_concat_iff.mpr fun _ f next' _ _ => hstep.pads f next'
    rw [FrameSpec.partsFrom, List.forall_mem_cons, List.forall_mem_append]
    exact ⟨hfront, hstep.parts_pad, StepSpec.AreInner.partsFrom_pad table hnext hrest⟩

/-- A description without left merges pads throughout. -/
theorem FrameSpec.IsInner.parts_pad :
    ∀ {spec : FrameSpec}, spec.IsInner → ∀ part ∈ spec.parts, part.Pads S db c
  | .mk table _, h => StepSpec.AreInner.partsFrom_pad table (fun last hlast => by cases hlast) h

end

/-- A description is built exactly when it can be carried out, with the same faults and the same
columns. The rows of the plan are the rows of the table at every stage of the description, and of
those that it merges, exactly if every left merge on the way pads. So they always are where there is
no left merge. -/
theorem FrameSpec.build_faithful_iff (S : Scalars α) (db : Database α) (hc : c.WellFormed)
    (spec : FrameSpec) :
    (∀ next, (∀ info ∈ c.tables, info.id < next) →
      (spec.build c next).map (fun made => made.1.columns) =
        (spec.perform S db c).map Table.names) ∧
    (spec.IsExact →
      ((∀ part ∈ spec.parts, part.IsFaithful S db c) ↔ ∀ part ∈ spec.parts, part.Pads S db c) ∧
      (spec.IsInner → spec.IsFaithful S db c)) := by
  refine ⟨fun next hids => ?_, fun hexact => ?_⟩
  · have hagree : Agree (Frame.Made c next fun _ _ => True) (spec.build c next)
        (spec.perform S db c) := FrameSpec.agree_build hc hids spec
    exact hagree.map_eq_map fun _ _ hmade => hmade.denotes.names.symm
  · have hiff : (∀ part ∈ spec.parts, part.IsFaithful S db c) ↔
        ∀ part ∈ spec.parts, part.Pads S db c := FrameSpec.parts_faithful_iff hc spec hexact
    exact ⟨hiff, fun hinner => hiff.mpr hinner.parts_pad spec (FrameSpec.mem_parts spec)⟩

/-- The tracks before the third one, with the track under another name. -/
def FrameSpec.early : FrameSpec :=
  .mk "tracks" [.filter (.op "lt" [.col "TrackId", .lit (.integer 3)]),
    .rename [("TrackId", "Other")]]

/-- All but the first track, each beside the early ones of the same album. -/
def FrameSpec.besideEarly : FrameSpec :=
  .mk "tracks"
    [.filter (.op "gt" [.col "TrackId", .lit (.integer 1)]),
      .merge FrameSpec.early (some ["AlbumId"]) none none (some "left"),
      .slice none (some (.finite 3))]

/-- What is taken from the early tracks are columns as they are, so all of it pads. -/
theorem FrameSpec.pads_besideEarly : ∀ part ∈ FrameSpec.besideEarly.parts,
    part.Pads Scalars.integers Database.music Catalog.music := by
  rintro ⟨table, steps⟩ hpart last hlast next f next' _ _
  have hlasts : FrameSpec.besideEarly.parts.filterMap (fun part => part.steps.getLast?) =
      [.filter _, .filter _, .rename _, .merge FrameSpec.early _ _ _ _, .slice _ _] := rfl
  have hmem := hlasts ▸ List.mem_filterMap.mpr ⟨_, hpart, hlast⟩
  simp only [List.mem_cons, List.not_mem_nil, or_false] at hmem
  rcases hmem with rfl | rfl | rfl | rfl | rfl
  · exact trivial
  · exact trivial
  · exact trivial
  · intro g n hbuild _ _ _ _ _ _
    have hnulls : (FrameSpec.early.build Catalog.music next').map (fun made =>
        made.1.plan.opened.selection.outputs.map fun o =>
          o.expr.value Scalars.integers (Env.blank Scalars.integers)) =
        .ok (List.replicate 3 Scalars.integers.null) := rfl
    rw [hbuild] at hnulls
    refine .inr fun o ho _ => List.eq_of_mem_replicate (n := 3) ?_
    rw [← Except.ok.inj hnulls]
    exact List.mem_map_of_mem ho
  · exact trivial

/-- So its plan has its rows. -/
theorem FrameSpec.build_faithful_iff_besideEarly :
    Catalog.music.WellFormed ∧ FrameSpec.besideEarly.IsExact ∧
      (∀ part ∈ FrameSpec.besideEarly.parts,
        part.Pads Scalars.integers Database.music Catalog.music) ∧
      (FrameSpec.besideEarly.build Catalog.music 2).map
          (fun made => made.1.plan.query.table Scalars.integers Database.music) =
        .ok ⟨["TrackId", "AlbumId", "Name", "Other"], [[some 2, some 7, none, some 1],
          [some 2, some 7, none, some 2], [some 3, some 8, none, none]]⟩ := by
  have hexact : FrameSpec.besideEarly.IsExact := by
    refine ⟨trivial, ⟨trivial, trivial, trivial⟩, fun stop hstop => ?_, trivial⟩
    cases hstop
    decide +kernel
  have hids : ∀ info ∈ Catalog.music.tables, info.id < 2 := by decide
  obtain ⟨_, hiff⟩ := FrameSpec.build_faithful_iff Scalars.integers Database.music
    Catalog.wellFormed_music FrameSpec.besideEarly
  have hpads := FrameSpec.pads_besideEarly
  have hfaithful := (hiff hexact).1.mpr hpads _ (FrameSpec.mem_parts _) 2 hids
  exact ⟨Catalog.wellFormed_music, hexact, hpads, hfaithful.trans rfl⟩

/-- The tracks with their albums, and with a column that is true for each album. -/
def FrameSpec.flagged : FrameSpec :=
  .mk "tracks"
    [.merge (.mk "albums" [.assign "flag" (.lit (.bool true))]) none none none (some "left")]

/-- The third track has no album, and its plan flags it all the same. -/
theorem FrameSpec.flagged_unfaithful :
    Catalog.music.WellFormed ∧ FrameSpec.flagged.IsExact ∧
      (FrameSpec.flagged.build Catalog.music 2).map
          (fun made => made.1.plan.query.table Scalars.integers Database.music) =
        .ok ⟨["TrackId", "AlbumId", "Name", "Title", "flag"], [[some 1, some 7, none, none, some 1],
          [some 2, some 7, none, none, some 1], [some 3, some 8, none, none, some 1]]⟩ ∧
      FrameSpec.flagged.perform Scalars.integers Database.music Catalog.music =
        .ok ⟨["TrackId", "AlbumId", "Name", "Title", "flag"], [[some 1, some 7, none, none, some 1],
          [some 2, some 7, none, none, some 1], [some 3, some 8, none, none, none]]⟩ ∧
      ¬FrameSpec.flagged.IsFaithful Scalars.integers Database.music Catalog.music := by
  have hids : ∀ info ∈ Catalog.music.tables, info.id < 2 := by decide
  have hbuild : (FrameSpec.flagged.build Catalog.music 2).map
      (fun made => made.1.plan.query.table Scalars.integers Database.music) = .ok _ := rfl
  have hperform : FrameSpec.flagged.perform Scalars.integers Database.music Catalog.music =
    .ok _ := rfl
  refine ⟨Catalog.wellFormed_music, ⟨⟨trivial, trivial⟩, trivial⟩, hbuild, hperform, fun h => ?_⟩
  have hrows := congrArg Table.rows (Except.ok.inj (hbuild.symm.trans ((h 2 hids).trans hperform)))
  exact absurd hrows (by decide)

end LazyFrame
