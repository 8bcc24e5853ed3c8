import LazyFrame.Proofs.Attempt
import LazyFrame.Spec.Parser
import LazyFrame.Spec.Written

/-!
# Fields of descriptions

What the fields of a description may hold: a name, one name or a list of names, a literal, a whole
number, a mapping. Each kind of field is told twice, as a predicate on values (`Spec.IsNameList`)
and by the values that are read from it (`Spec.nameList_eq_ok`). A field is read exactly when it is
of its kind.
-/

namespace LazyFrame

namespace Spec

/-! ## Kinds of fields -/

/-- A text that is not empty. -/
def IsName (v : Value) : Prop := ∃ s, s ≠ "" ∧ v = .text s

/-- One name or a list of names. -/
def IsNameList (v : Value) : Prop :=
  IsName v ∨ ∃ items, v = .list items ∧ ∀ item ∈ items, IsName item

/-- A text, a number, a truth value or `null`. -/
def IsLiteral (v : Value) : Prop :=
  v = .null ∨ (∃ s, v = .text s) ∨ (∃ n, v = .number n) ∨ ∃ b, v = .bool b

/-- A whole number. -/
def IsInteger (v : Value) : Prop := ∃ n : Number, n.isInteger = true ∧ v = .number n

/-- A text, which may be empty. -/
def IsText (v : Value) : Prop := ∃ s, v = .text s

/-- A field that may be left out. -/
def IsOptional (P : Value → Prop) (v : Value) : Prop := v = .missing ∨ P v

/-- Whether there is a field of that name, whatever it holds. -/
def Has (fields : List (String × Value)) (name : String) : Prop := ∃ v, (name, v) ∈ fields

/-! ## Reading fields -/

theorem has_iff {fields : List (String × Value)} {name : String} :
    Has fields name ↔ fields.any (·.1 == name) = true := by
  simp [Has]

theorem not_has_iff {fields : List (String × Value)} {name : String} :
    ¬Has fields name ↔ fields.any (·.1 == name) = false := by
  rw [has_iff, Bool.not_eq_true]

/-- A name is a text that is not empty. -/
theorem name?_eq_some {v : Value} {s : String} : name? v = some s ↔ s ≠ "" ∧ v = .text s := by
  unfold name?
  split
  next t =>
    constructor
    · intro h
      split at h
      · cases h
      next ht =>
        cases h
        exact ⟨ht, rfl⟩
    · intro h
      obtain ⟨hs, h⟩ := h
      cases h
      rw [if_neg hs]
  next hv =>
    constructor
    · intro h
      cases h
    · intro h
      exact absurd h.2 (hv s)

/-- Names are texts that are not empty. -/
theorem names?_eq_some {items : List Value} {names : List String} :
    names? items = some names ↔ (∀ name ∈ names, name ≠ "") ∧ items = names.map .text := by
  -- the induction is on the items; they are read one by one
  induction items generalizing names with
  | nil =>
    rw [names?]
    constructor
    · intro h
      cases h
      exact ⟨fun _ hn => absurd hn List.not_mem_nil, rfl⟩
    · intro h
      rw [List.map_eq_nil_iff.mp h.2.symm]
  | cons item rest ih =>
    rw [names?]
    constructor
    · intro h
      split at h
      next first others hfirst hothers =>
        cases h
        obtain ⟨hne, rfl⟩ := name?_eq_some.mp hfirst
        obtain ⟨hall, rfl⟩ := ih.mp hothers
        exact ⟨List.forall_mem_cons.mpr ⟨hne, hall⟩, rfl⟩
      · cases h
    · intro h
      obtain ⟨hall, h⟩ := h
      cases names with
      | nil => cases h
      | cons first others =>
        obtain ⟨hitem, hrest⟩ := List.cons_eq_cons.mp h
        obtain ⟨hne, hall⟩ := List.forall_mem_cons.mp hall
        rw [name?_eq_some.mpr ⟨hne, hitem⟩, ih.mpr ⟨hall, hrest⟩]

/-- The names in a list of names. -/
theorem forall_isName_iff {items : List Value} :
    (∀ item ∈ items, IsName item) ↔
      ∃ names : List String, (∀ name ∈ names, name ≠ "") ∧ items = names.map .text := by
  constructor
  · intro h
    induction items with
    | nil => exact ⟨[], fun _ hn => absurd hn List.not_mem_nil, rfl⟩
    | cons item rest ih =>
      obtain ⟨⟨name, hname, rfl⟩, hrest⟩ := List.forall_mem_cons.mp h
      obtain ⟨names, hall, rfl⟩ := ih hrest
      exact ⟨name :: names, List.forall_mem_cons.mpr ⟨hname, hall⟩, rfl⟩
  · intro h item hitem
    obtain ⟨names, hall, rfl⟩ := h
    obtain ⟨name, hname, rfl⟩ := List.mem_map.mp hitem
    exact ⟨name, hall name hname, rfl⟩

/-- One name is read like the list of it. -/
theorem nameList_eq_ok {what : String} {v : Value} {names : List String} :
    nameList what v = .ok names ↔
      (∀ name ∈ names, name ≠ "") ∧
      (v = namesValue names ∨ ∃ name, names = [name] ∧ v = .text name) := by
  unfold nameList
  constructor
  · intro h
    split at h
    next name hname =>
      cases h
      obtain ⟨hne, rfl⟩ := name?_eq_some.mp hname
      exact ⟨List.forall_mem_singleton.mpr hne, .inr ⟨name, rfl, rfl⟩⟩
    · split at h
      next found hfound =>
        cases h
        obtain ⟨hall, rfl⟩ := names?_eq_some.mp hfound
        exact ⟨hall, .inl rfl⟩
      · cases h
    · cases h
  · intro h
    obtain ⟨hall, rfl | ⟨name, rfl, rfl⟩⟩ := h
    · have hnames : names? (names.map .text) = some names := names?_eq_some.mpr ⟨hall, rfl⟩
      simp only [namesValue, name?, hnames]
    · rw [name?_eq_some.mpr ⟨hall name (List.mem_singleton_self name), rfl⟩]

/-- A list of names is read exactly if it is one. -/
theorem exists_nameList_iff {what : String} {v : Value} :
    (∃ names, nameList what v = .ok names) ↔ IsNameList v := by
  simp only [nameList_eq_ok, IsNameList, forall_isName_iff]
  constructor
  · intro h
    obtain ⟨names, hall, hv | ⟨name, rfl, hv⟩⟩ := h
    · exact .inr ⟨_, hv, names, hall, rfl⟩
    · exact .inl ⟨name, hall name (List.mem_singleton_self name), hv⟩
  · intro h
    rcases h with ⟨name, hne, hv⟩ | ⟨_, hv, names, hall, rfl⟩
    · exact ⟨[name], List.forall_mem_singleton.mpr hne, .inr ⟨name, rfl, hv⟩⟩
    · exact ⟨names, hall, .inl hv⟩

/-- A field that may be left out is read like the field, or not at all. -/
theorem optionalNames_eq_ok {what : String} {v : Value} {names? : Option (List String)} :
    optionalNames what v = .ok names? ↔
      (v = .missing ∧ names? = none) ∨ ∃ names, names? = some names ∧
      nameList what v = .ok names := by
  unfold optionalNames
  split
  · constructor
    · intro h
      cases h
      exact .inl ⟨rfl, rfl⟩
    · intro h
      rcases h with ⟨_, rfl⟩ | ⟨names, _, h⟩
      · rfl
      · cases h
  next hv =>
    constructor
    · intro h
      cases hnames : nameList what v with
      | error e =>
        rw [hnames] at h
        cases h
      | ok names =>
        rw [hnames] at h
        cases h
        exact .inr ⟨names, rfl, rfl⟩
    · intro h
      rcases h with ⟨rfl, _⟩ | ⟨names, rfl, h⟩
      · exact absurd rfl hv
      · rw [h]
        rfl

/-- Names that may be missing are read exactly if they are names or missing. -/
theorem exists_optionalNames_iff {what : String} {v : Value} :
    (∃ names?, optionalNames what v = .ok names?) ↔ IsOptional IsNameList v := by
  simp only [optionalNames_eq_ok, IsOptional, ← @exists_nameList_iff what]
  constructor
  · intro h
    obtain ⟨_, ⟨hv, _⟩ | ⟨names, _, h⟩⟩ := h
    · exact .inl hv
    · exact .inr ⟨names, h⟩
  · intro h
    rcases h with hv | ⟨names, h⟩
    · exact ⟨none, .inl ⟨hv, rfl⟩⟩
    · exact ⟨some names, .inr ⟨names, rfl, h⟩⟩

/-- Names are read from their own value. -/
theorem optionalNames_value {what : String} {names? : Option (List String)}
    (h : ∀ names ∈ names?, ∀ name ∈ names, name ≠ "") :
    optionalNames what (optionalNamesValue names?) = .ok names? := by
  cases names? with
  | none => rfl
  | some names =>
    exact optionalNames_eq_ok.mpr (.inr ⟨names, rfl, nameList_eq_ok.mpr ⟨h names rfl, .inl rfl⟩⟩)

/-- None of the names that are read is empty. -/
theorem ne_empty_of_optionalNames {what : String} {v : Value} {names? : Option (List String)}
    (h : optionalNames what v = .ok names?) : ∀ names ∈ names?, ∀ name ∈ names, name ≠ "" := by
  intro names hnames
  rcases optionalNames_eq_ok.mp h with ⟨_, rfl⟩ | ⟨_, rfl, hread⟩
  · cases hnames
  · cases hnames
    exact (nameList_eq_ok.mp hread).1

/-- What is read as a bound is an integer or nothing, and the value of that bound. -/
theorem optionalInteger_eq_ok {what : String} {v : Value} {bound? : Option Number} :
    optionalInteger what v = .ok bound? ↔ (∀ n ∈ bound?, n.isInteger = true) ∧
    v = boundValue bound? := by
  -- nothing is no bound, a number has to be an integer, and all else is refused
  unfold optionalInteger
  split
  · constructor
    · intro h
      cases h
      exact ⟨fun n hn => (by cases hn), rfl⟩
    · intro h
      obtain ⟨_, h⟩ := h
      cases bound? with
      | none => rfl
      | some n => cases h
  next n =>
    constructor
    · intro h
      split at h
      next hn =>
        cases h
        refine ⟨fun m hm => ?_, rfl⟩
        cases hm
        exact hn
      · cases h
    · intro h
      obtain ⟨hall, h⟩ := h
      cases bound? with
      | none => cases h
      | some m =>
        cases h
        rw [if_pos (hall n rfl)]
  next hmissing hnumber =>
    constructor
    · intro h
      cases h
    · intro h
      obtain ⟨_, rfl⟩ := h
      cases bound? with
      | none => exact absurd rfl hmissing
      | some n => exact absurd rfl (hnumber n)

/-- A bound is read exactly if it is an integer or missing. -/
theorem exists_optionalInteger_iff {what : String} {v : Value} :
    (∃ bound?, optionalInteger what v = .ok bound?) ↔ IsOptional IsInteger v := by
  simp only [optionalInteger_eq_ok]
  constructor
  · intro h
    obtain ⟨bound?, hall, rfl⟩ := h
    cases bound? with
    | none => exact .inl rfl
    | some n => exact .inr ⟨n, hall n rfl, rfl⟩
  · intro h
    rcases h with rfl | ⟨n, hn, rfl⟩
    · exact ⟨none, fun n hn => (by cases hn), rfl⟩
    · refine ⟨some n, fun m hm => ?_, rfl⟩
      cases hm
      exact hn

/-- What is read as a kind of merge is a text or nothing. -/
theorem joinKind_eq_ok {v : Value} {how? : Option String} :
    joinKind v = .ok how? ↔ v = optionalTextValue how? := by
  unfold joinKind
  cases v with
  | missing =>
    cases how? with
    | none => exact iff_of_true rfl rfl
    | some s => exact iff_of_false (fun h => by cases h) fun h => by cases h
  | text t =>
    cases how? with
    | none => exact iff_of_false (fun h => by cases h) fun h => by cases h
    | some s =>
      constructor
      · intro h
        cases h
        rfl
      · intro h
        cases h
        rfl
  | _ => cases how? <;> exact iff_of_false (fun h => by cases h) fun h => by cases h

/-- A kind is read exactly if it is a text or missing. -/
theorem exists_joinKind_iff {v : Value} :
    (∃ how?, joinKind v = .ok how?) ↔ IsOptional IsText v := by
  simp only [joinKind_eq_ok]
  constructor
  · intro h
    obtain ⟨how?, rfl⟩ := h
    cases how? with
    | none => exact .inl rfl
    | some s => exact .inr ⟨s, rfl⟩
  · intro h
    rcases h with rfl | ⟨s, rfl⟩
    · exact ⟨none, rfl⟩
    · exact ⟨some s, rfl⟩

theorem isLiteral_iff {v : Value} : isLiteral v = true ↔ IsLiteral v := by
  unfold IsLiteral
  cases v <;> simp [isLiteral]

/-- A mapping is a record of names. -/
theorem mapping?_eq_some {fields : List (String × Value)} {entries : List (String × String)} :
    mapping? fields = some entries ↔
      (∀ entry ∈ entries, entry.2 ≠ "") ∧ fields = entries.map fun entry =>
        (entry.1, .text entry.2) := by
  -- the induction is on the fields, as for a list of names
  induction fields generalizing entries with
  | nil =>
    rw [mapping?]
    constructor
    · intro h
      cases h
      exact ⟨fun _ hn => absurd hn List.not_mem_nil, rfl⟩
    · intro h
      rw [List.map_eq_nil_iff.mp h.2.symm]
  | cons field rest ih =>
    obtain ⟨old, new⟩ := field
    rw [mapping?]
    constructor
    · intro h
      split at h
      next first others hfirst hothers =>
        cases h
        obtain ⟨hne, rfl⟩ := name?_eq_some.mp hfirst
        obtain ⟨hall, rfl⟩ := ih.mp hothers
        exact ⟨List.forall_mem_cons.mpr ⟨hne, hall⟩, rfl⟩
      · cases h
    · intro h
      obtain ⟨hall, h⟩ := h
      cases entries with
      | nil => cases h
      | cons first others =>
        obtain ⟨hfield, hrest⟩ := List.cons_eq_cons.mp h
        obtain ⟨hne, hall⟩ := List.forall_mem_cons.mp hall
        cases hfield
        rw [name?_eq_some.mpr ⟨hne, rfl⟩, ih.mpr ⟨hall, hrest⟩]

/-- A mapping is read without the one name that never reaches it. -/
theorem mapping_eq_ok {v : Value} {mapping : List (String × String)} :
    Spec.mapping v = .ok mapping ↔ ∃ entries, (∀ entry ∈ entries, entry.2 ≠ "") ∧
    v = mappingValue entries ∧
      mapping = entries.filter fun entry => entry.1 != droppedKey := by
  unfold Spec.mapping
  split
  next fields =>
    constructor
    · intro h
      split at h
      next entries hentries =>
        cases h
        obtain ⟨hall, rfl⟩ := mapping?_eq_some.mp hentries
        exact ⟨entries, hall, rfl, rfl⟩
      · cases h
    · intro h
      obtain ⟨entries, hall, hv, rfl⟩ := h
      cases hv
      rw [mapping?_eq_some.mpr ⟨hall, rfl⟩]
  next hv =>
    constructor
    · intro h
      cases h
    · intro h
      obtain ⟨_, _, rfl, _⟩ := h
      exact absurd rfl (hv _)

/-- A mapping is read exactly if it is a record of names. -/
theorem exists_mapping_iff {v : Value} : (∃ mapping, Spec.mapping v = .ok mapping) ↔
    ∃ fields, v = .record fields ∧ ∀ field ∈ fields, IsName field.2 := by
  simp only [mapping_eq_ok]
  constructor
  · intro h
    obtain ⟨_, entries, hall, rfl, _⟩ := h
    refine ⟨_, rfl, fun field hfield => ?_⟩
    obtain ⟨entry, hentry, rfl⟩ := List.mem_map.mp hfield
    exact ⟨entry.2, hall entry hentry, rfl⟩
  · intro h
    obtain ⟨fields, rfl, hall⟩ := h
    choose! name hne htext using hall
    refine ⟨_, fields.map fun field => (field.1, name field), fun entry hentry => ?_, ?_, rfl⟩
    · obtain ⟨field, hfield, rfl⟩ := List.mem_map.mp hentry
      exact hne field hfield
    · have hfields :
          fields.map ((fun entry => (entry.1, Value.text entry.2)) ∘
            fun field => (field.1, name field)) =
          fields.map id := List.map_congr_left fun field hfield => by
        rw [id, Function.comp, ← htext field hfield]
      rw [mappingValue, List.map_map, hfields, List.map_id]

end Spec

end LazyFrame
