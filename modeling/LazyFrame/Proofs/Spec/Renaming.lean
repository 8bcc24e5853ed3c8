import LazyFrame.Proofs.Scope.Session
import LazyFrame.Proofs.Spec.Reading
import LazyFrame.Spec.Build
import LazyFrame.Spec.Written

/-!
# What a rename step renames

A mapping lists names and what they become. A rename that keeps to its list (`Renames`) comes out in
one of three ways: a listed name is not there, which is reported for the first such name; two names
become equal, which is reported for the first one that stands there again; or every listed name is
replaced by what is listed with it, all at once, and every other name stays (`Renaming`).

`Plan.rename` keeps to its list whatever the plan is (`Plan.renames`). A step that is read from a
value keeps to the list without one name, which never reaches the step (`Spec.droppedKey`). So it
keeps to the whole list, on every frame, exactly if that name is not listed
(`StepSpec.renames_iff`).
-/

namespace LazyFrame

/-! ## Names that repeat -/

/-- A name that stands in a list again, and no other did before. -/
def IsFirstRepeated (names : List String) (name : String) : Prop :=
  ∃ before after, names = before ++ name :: after ∧ before.Nodup ∧ name ∈ before

/-- The search finds the first name that was seen before or stands there again. -/
theorem firstRepeated_eq_some {seen names : List String} {name : String}
    (h : firstRepeated seen names = some name) :
    ∃ before after, names = before ++ name :: after ∧ before.Nodup ∧
      (∀ other ∈ before, other ∉ seen) ∧ (name ∈ seen ∨ name ∈ before) := by
  induction names generalizing seen with
  | nil => cases h
  | cons first rest ih =>
    unfold firstRepeated at h
    split at h
    next hseen =>
      cases h
      exact ⟨[], rest, rfl, .nil, fun other hother => (by cases hother),
        .inl (by simpa using hseen)⟩
    next hnew =>
      obtain ⟨before, after, rfl, hnodup, hfresh, hname⟩ := ih h
      have hfirst : first ∉ before := fun hmem => hfresh first hmem (List.mem_cons_self ..)
      refine ⟨first :: before, after, rfl, List.nodup_cons.mpr ⟨hfirst, hnodup⟩,
        fun other hother => ?_, ?_⟩
      · rcases List.mem_cons.mp hother with rfl | hother
        · simpa using hnew
        · exact fun hseen => hfresh other hother (List.mem_cons_of_mem _ hseen)
      · rw [List.mem_cons, or_assoc, or_left_comm] at hname
        rwa [List.mem_cons]

theorem checkUnique_eq_error {names : List String} {e : Fault} (h : checkUnique names = .error e) :
    ∃ name, IsFirstRepeated names name ∧ e = .invalidOperation (.duplicateOutput name) := by
  unfold checkUnique at h
  split at h
  next name hname =>
    cases h
    obtain ⟨before, after, hnames, hnodup, _, hseen⟩ := firstRepeated_eq_some hname
    exact ⟨name, ⟨before, after, hnames, hnodup, hseen.resolve_left List.not_mem_nil⟩, rfl⟩
  next => cases h

/-! ## Renamings -/

/-- Every listed name becomes what is listed with it, and every other name stays. -/
structure Renaming (entries : List (String × String)) (f : String → String) : Prop where
  listed : ∀ entry ∈ entries, f entry.1 = entry.2
  others : ∀ name, (∀ entry ∈ entries, entry.1 ≠ name) → f name = name

/-- What becomes of the names of a frame when it is renamed by a list. -/
inductive Renames (entries : List (String × String)) (names : List String) :
    Attempt (List String) → Prop where
  | unknown {before after : List (String × String)} {key value : String}
    (hentries : entries = before ++ (key, value) :: after)
    (hbefore : ∀ entry ∈ before, entry.1 ∈ names)
    (hkey : key ∉ names) : Renames entries names (.error (.unknownColumn key (some .toRename)))
  | duplicate {f : String → String} {name : String} (hlisted : ∀ entry ∈ entries, entry.1 ∈ names)
    (hf : Renaming entries f) (hname : IsFirstRepeated (names.map f) name) :
    Renames entries names (.error (.invalidOperation (.duplicateOutput name)))
  | renamed {f : String → String} (hlisted : ∀ entry ∈ entries, entry.1 ∈ names)
    (hf : Renaming entries f) (hnodup : (names.map f).Nodup) :
    Renames entries names (.ok (names.map f))

namespace Renames

variable {entries : List (String × String)} {names : List String} {outcome : Attempt (List String)}

/-- A listed name that is not there is always reported, or another one is. -/
theorem exists_unknown (h : Renames entries names outcome) {entry : String × String}
    (hentry : entry ∈ entries) (hname : entry.1 ∉ names) :
    ∃ other ∈ entries, other.1 ∉ names ∧
      outcome = .error (.unknownColumn other.1 (some .toRename)) := by
  cases h with
  | unknown hentries _ hkey =>
    subst hentries
    exact ⟨_, List.mem_append_right _ (List.mem_cons_self ..), hkey, rfl⟩
  | duplicate hlisted | renamed hlisted => exact absurd (hlisted entry hentry) hname

/-- Only a listed name that is not there is reported. -/
theorem mem_of_unknown {key : String} {context : Option ColumnContext}
    (h : Renames entries names (.error (.unknownColumn key context))) :
    ∃ entry ∈ entries, entry.1 ∉ names := by
  cases h with
  | unknown hentries _ hkey =>
    exact ⟨_, hentries ▸ List.mem_append_right _ (List.mem_cons_self ..), hkey⟩

end Renames

/-! ## Plans -/

namespace Plan

/-- The renaming of a list in which no name stands twice. -/
theorem renaming_renamed {entries : List (String × String)} (h : (entries.map (·.1)).Nodup) :
    Renaming entries (renamed entries) := by
  induction entries with
  | nil => exact ⟨fun entry hentry => (by cases hentry), fun _ _ => rfl⟩
  | cons first rest ih =>
    obtain ⟨key, value⟩ := first
    obtain ⟨hkey, hrest⟩ := List.nodup_cons.mp h
    have hcons : ∀ name, key ≠ name → renamed ((key, value) :: rest) name = renamed rest name := by
      intro name hne
      rw [renamed, List.lookup_cons, beq_false_of_ne hne.symm]
      rfl
    refine ⟨fun entry hentry => ?_, fun name hname => ?_⟩
    · rcases List.mem_cons.mp hentry with rfl | hentry
      · rw [renamed, List.lookup_cons, beq_self_eq_true]
        rfl
      · have hne : key ≠ entry.1 := fun heq => hkey (List.mem_map.mpr ⟨entry, hentry, heq.symm⟩)
        rw [hcons _ hne]
        exact (ih hrest).listed entry hentry
    · obtain ⟨hne, hname⟩ := List.forall_mem_cons.mp hname
      rw [hcons name hne]
      exact (ih hrest).others name hname

/-- The check of a listed name. -/
def checkListed (p : Plan) (entry : String × String) : Attempt Unit :=
  if p.opened.names.contains entry.1 then .ok ()
    else .error (.unknownColumn entry.1 (some .toRename))

variable {p : Plan}

theorem checkListed_eq_ok {entry : String × String} :
    p.checkListed entry = .ok () ↔ entry.1 ∈ p.names := by
  rw [← p.names_opened]
  unfold checkListed
  by_cases hmem : entry.1 ∈ p.opened.names
  · simp [hmem]
  · simp [hmem]

theorem checkListed_eq_error {entry : String × String} {e : Fault}
    (h : p.checkListed entry = .error e) :
    entry.1 ∉ p.names ∧ e = .unknownColumn entry.1 (some .toRename) := by
  have hnot : entry.1 ∉ p.names := fun hmem => by
    rw [checkListed_eq_ok.mpr hmem] at h
    cases h
  refine ⟨hnot, ?_⟩
  rw [← p.names_opened] at hnot
  have hfault : p.checkListed entry = .error (.unknownColumn entry.1 (some .toRename)) :=
    if_neg (by simpa using hnot)
  exact Except.error.inj (h.symm.trans hfault)

/-- Of the names, a rename checks what is listed and then what they become. -/
theorem map_names_rename (p : Plan) (mapping : List (String × String)) :
    (p.rename mapping).map Query.names =
    mapping.forM p.checkListed >>= fun _ => checkUnique (p.names.map (renamed mapping)) >>= fun _ =>
      .ok (p.names.map (renamed mapping)) := by
  have hnames : (p.opened.withOutputs (renamedOutputs mapping p.opened.selection.outputs)).names =
      p.opened.names.map (renamed mapping) := names_renamedOutputs mapping _
  have hrename : p.rename mapping = mapping.forM p.checkListed >>= fun _ =>
      checkUnique (p.opened.names.map (renamed mapping)) >>= fun _ =>
        .ok (p.opened.withOutputs (renamedOutputs mapping p.opened.selection.outputs)) := by
    rw [Query.names, Selection.names, ← names_renamedOutputs]
    rfl
  rw [hrename, Attempt.map_bind]
  refine congrArg _ (funext fun _ => ?_)
  rw [Attempt.map_bind, Attempt.map_ok, hnames, p.names_opened]

/-- A rename keeps to its list, whatever the plan is. -/
theorem renames (p : Plan) {mapping : List (String × String)} (h : (mapping.map (·.1)).Nodup) :
    Renames mapping p.names ((p.rename mapping).map Query.names) := by
  have hf := renaming_renamed h
  rw [map_names_rename]
  cases hknown : mapping.forM p.checkListed with
  | error e =>
    obtain ⟨before, entry, after, hmapping, hbefore, hfault⟩ := Attempt.forM_eq_error.mp hknown
    obtain ⟨hnot, rfl⟩ := checkListed_eq_error hfault
    exact .unknown hmapping (fun other hother => checkListed_eq_ok.mp (hbefore other hother)) hnot
  | ok =>
    have hlisted : ∀ entry ∈ mapping, entry.1 ∈ p.names := fun entry hentry =>
      checkListed_eq_ok.mp (Attempt.forM_eq_ok.mp hknown entry hentry)
    rw [Attempt.ok_bind]
    cases hunique : checkUnique (p.names.map (renamed mapping)) with
    | error e =>
      obtain ⟨name, hname, rfl⟩ := checkUnique_eq_error hunique
      exact .duplicate hlisted hf hname
    | ok => exact .renamed hlisted hf (checkUnique_eq_ok.mp hunique)

end Plan

/-! ## Steps -/

theorem Frame.columns_build (f : Frame) (attempt : Attempt Query) (next : Nat) :
    (f.build attempt next).map (fun made => made.1.columns) = attempt.map Query.names := by
  cases attempt with
  | error _ | ok _ => rfl

/-- A record that asks for a rename by a list of names, none of them twice, and none of the new ones
empty. -/
structure IsRenameStep (entries : List (String × String)) (v : Value) : Prop where
  exists_fields : ∃ fields, v = .record fields ∧ Fields.get fields "op" = .text "rename" ∧
    Fields.get fields "mapping" = Spec.mappingValue entries
  nonempty : ∀ entry ∈ entries, entry.2 ≠ ""
  nodup : (entries.map (·.1)).Nodup

theorem IsRenameStep.parse {entries : List (String × String)} {v : Value}
    (h : IsRenameStep entries v) :
    StepSpec.parse v = .ok (.rename (entries.filter fun entry => entry.1 != Spec.droppedKey)) := by
  obtain ⟨fields, rfl, hop, hmapping⟩ := h.exists_fields
  exact StepSpec.parse_eq_ok.mpr
    (.rename hop (Spec.mapping_eq_ok.mpr ⟨entries, h.nonempty, hmapping, rfl⟩))

/-- The names of the frame that a table, some steps and a step read from a value describe. -/
def FrameSpec.columnsWith (c : Catalog) (next : Nat) (table : String) (steps : List StepSpec)
    (v : Value) :
    Attempt (List String) := do
  let step ← StepSpec.parse v
  let made ← (mk table (steps ++ [step])).build c next
  .ok made.1.columns

/-- A step keeps to the list without the name that never reaches it. -/
theorem IsRenameStep.renames {entries : List (String × String)} {v : Value}
    (h : IsRenameStep entries v) {c : Catalog} {next next' : Nat} {table : String}
    {steps : List StepSpec} {f : Frame}
    (hf : (FrameSpec.mk table steps).build c next = .ok (f, next')) :
    Renames (entries.filter fun entry => entry.1 != Spec.droppedKey) f.columns
      (FrameSpec.columnsWith c next table steps v) := by
  have hcolumns : FrameSpec.columnsWith c next table steps v =
      (f.plan.rename (entries.filter fun entry => entry.1 != Spec.droppedKey)).map Query.names := by
    rw [FrameSpec.columnsWith, h.parse, Attempt.ok_bind, FrameSpec.build_concat,
      ← f.columns_build _ next']
    show (((FrameSpec.mk table steps).build c next >>= fun made =>
      StepSpec.apply c made.1 (.rename _) made.2) >>= fun made => .ok made.1.columns) = _
    rw [hf, Attempt.ok_bind, StepSpec.apply, Frame.rename]
    cases f.build (f.plan.rename _) next' with
    | error _ | ok _ => rfl
  rw [hcolumns]
  exact f.plan.renames (h.nodup.sublist (List.filter_sublist.map _))

/-- A table with any columns, as a frame. -/
theorem FrameSpec.exists_frame (names : List String) :
    ∃ (c : Catalog) (table : String) (next : Nat) (f : Frame)
    (next' : Nat), (mk table []).build c next = .ok (f, next') ∧ f.columns = names := by
  refine ⟨⟨0, .sqlite, [⟨0, "listed", names.map fun name => .named name "TEXT"⟩]⟩, "listed", 1,
    _, _, rfl, ?_⟩
  show (Query.ofTable 0 "listed" (TableInfo.columnNames _)).names = names
  rw [Query.names, Selection.names, Query.ofTable, Selection.plain, Plan.names_passThrough,
    TableInfo.columnNames, List.map_map]
  exact List.map_id _

/-- A rename that is read from a value keeps to its list less one name; so it keeps to the whole
list, on every frame that it is applied to, exactly if that name is not listed. -/
theorem StepSpec.renames_iff {entries : List (String × String)} {v : Value}
    (h : IsRenameStep entries v) :
    (∀ (c : Catalog) (table : String) (steps : List StepSpec) (next : Nat) (f : Frame)
      (next' : Nat),
        (FrameSpec.mk table steps).build c next = .ok (f, next') →
          Renames (entries.filter fun entry => entry.1 != Spec.droppedKey) f.columns
            (FrameSpec.columnsWith c next table steps v)) ∧
      ((∀ (c : Catalog) (table : String) (steps : List StepSpec) (next : Nat) (f : Frame)
        (next' : Nat),
          (FrameSpec.mk table steps).build c next = .ok (f, next') →
            Renames entries f.columns (FrameSpec.columnsWith c next table steps v)) ↔
        ∀ entry ∈ entries, entry.1 ≠ "__proto__") := by
  refine ⟨fun _ _ _ _ _ _ hf => h.renames hf, fun hall entry hentry hkey => ?_,
    fun hkeys c table steps next f next' hf => ?_⟩
  · -- on the frame of all other names nothing is left to complain about
    obtain ⟨c, table, next, f, next', hf, hcolumns⟩ :=
      FrameSpec.exists_frame ((entries.filter fun entry => entry.1 != Spec.droppedKey).map (·.1))
    have hnot : entry.1 ∉ f.columns := by
      rw [hcolumns, hkey]
      simp [Spec.droppedKey]
    obtain ⟨_, _, _, houtcome⟩ := (hall c table [] next f next' hf).exists_unknown hentry hnot
    have hrest := h.renames hf
    rw [houtcome] at hrest
    obtain ⟨other, hother, hmissing⟩ := hrest.mem_of_unknown
    exact hmissing (hcolumns ▸ List.mem_map_of_mem hother)
  · have hwhole : entries.filter (fun entry => entry.1 != Spec.droppedKey) = entries :=
      List.filter_eq_self.mpr fun entry hentry => bne_iff_ne.mpr (hkeys entry hentry)
    exact hwhole ▸ h.renames hf

theorem isRenameStep_toValue {entries : List (String × String)}
    (hne : ∀ entry ∈ entries, entry.2 ≠ "") (h : (entries.map (·.1)).Nodup) :
    IsRenameStep entries (StepSpec.rename entries).toValue := by
  rw [StepSpec.toValue]
  exact ⟨⟨_, rfl, rfl, rfl⟩, hne, h⟩

/-- Two columns of a table swap their names. -/
theorem StepSpec.renames_swapped :
    Renames [("TrackId", "AlbumId"), ("AlbumId", "TrackId")] ["TrackId", "AlbumId", "Name"]
    (FrameSpec.columnsWith .music 2 "tracks" []
      (rename [("TrackId", "AlbumId"), ("AlbumId", "TrackId")]).toValue) := by
  have h : IsRenameStep [("TrackId", "AlbumId"), ("AlbumId", "TrackId")] _ :=
    isRenameStep_toValue (by decide) (by decide)
  exact (StepSpec.renames_iff h).2.mpr (by decide) .music "tracks" [] 2 _ _ rfl

/-- A name that no table has, listed as the one that is lost: nothing is renamed, and nothing is
reported. -/
theorem StepSpec.rename_lost :
    IsRenameStep [("__proto__", "x")] (rename [("__proto__", "x")]).toValue ∧
    FrameSpec.columnsWith .music 2 "tracks" [] (rename [("__proto__", "x")]).toValue =
      .ok ["TrackId", "AlbumId", "Name"] ∧
    ¬Renames [("__proto__", "x")] ["TrackId", "AlbumId", "Name"]
      (.ok ["TrackId", "AlbumId", "Name"]) := by
  have h : IsRenameStep [("__proto__", "x")] _ := isRenameStep_toValue (by decide) (by decide)
  refine ⟨h, ?_, fun hrenames => ?_⟩
  · rw [FrameSpec.columnsWith, h.parse]
    rfl
  · obtain ⟨_, _, _, houtcome⟩ := hrenames.exists_unknown (List.mem_singleton_self _) (by decide)
    cases houtcome

end LazyFrame
