import LazyFrame.Proofs.Number.Plain
import LazyFrame.Proofs.Scope.Session
import LazyFrame.Proofs.Sql.Writable

/-!
# Row windows as they are printed

A window is handed in as numbers and printed as texts of numbers: how many rows stay, which is a
difference and hence rounded, and how many are skipped. The clause is the one of the exact natural
numbers (`Window.digits`) if and only if both are plain (`Window.text_eq_digits_iff`), which they
are as long as the window does not end beyond `2 ^ 53` (`Window.isPlain_of_le`).

In a session windows are cut by slices only. A new plan reads SELECTs that plans of the session are
or read themselves, and it cuts a window of its own only if it is the slice of one of them
(`Step.selects`). So every SELECT of a statement, however deep, prints no window or that of a slice
in the session (`Session.windows_exact_iff`).
-/

namespace LazyFrame

/-! ## The text of a window -/

/-- Both dialects write a number of rows that are kept in the same way. -/
theorem Dialect.window_rows (d : Dialect) (kept : Number) (offset? : Option Bound) :
    d.window (some (.rows kept)) offset? = " LIMIT " ++ kept.text ++ offsetText offset? := by
  cases d with
  | sqlite | postgres => rfl

namespace Window

/-- Both ends are numbers of binary64 precision. -/
def IsExact (w : Window) : Prop := w.start.IsExact ∧ ∀ behind ∈ w.stop?, behind.IsExact

theorem isExact_finite {a b : Rat} (ha : Number.round a = .finite a)
    (hb : Number.round b = .finite b) : IsExact ⟨.finite a, some (.finite b)⟩ := by
  refine ⟨fun q hq => ?_, fun behind hbehind q hq => ?_⟩
  · cases hq
    exact ha
  · cases hbehind
    cases hq
    exact hb

/-- How many rows stay, and how many are skipped, are plain numbers. -/
def IsPlain (w : Window) : Prop :=
  Number.IsPlain w.start.count ∧ ∀ behind ∈ w.stop?, Number.IsPlain (behind.count - w.start.count)

/-- The clause of a window in digits: how many rows stay, if the window has an end, and how many are
skipped, if any. -/
def digits (d : Dialect) (w : Window) : String :=
  (match w.stop?, d with
    | some behind, _ => " LIMIT " ++ toString (behind.count - w.start.count)
    | none, .sqlite => " LIMIT -1"
    | none, .postgres => "") ++
  if w.start.count = 0 then "" else " OFFSET " ++ toString w.start.count

/-- The number of rows that are kept. -/
theorem text_limit_iff {start behind : Number} {x y : Nat} (hstart : start.toRat? = some (y : Rat))
    (hbehind : behind.toRat? = some (x : Rat)) (hle : y ≤ x) :
    (behind.sub start).text = toString (x - y) ↔ Number.IsPlain (x - y) := by
  rw [Number.text_sub hbehind hstart hle, Number.text_round_eq_iff]

/-- The clause for the rows that are skipped. -/
theorem offsetText_eq (w : Window) {y : Nat} (hy : w.start.toRat? = some (y : Rat)) :
    Dialect.offsetText w.offset? = if y = 0 then "" else " OFFSET " ++ w.start.text := by
  have hzero : (0 : Number).toRat? = some 0 := rfl
  rw [offset?, Number.lt_of_toRat? hzero hy]
  rcases Nat.eq_zero_or_pos y with rfl | hpos
  · simp [Dialect.offsetText]
  · have hpos' : (0 : Rat) < (y : Rat) := Nat.cast_pos.mpr hpos
    have hnonzero : w.start.isNonzero = true := by
      cases hs : w.start with
      | nan | infinity _ => simp [hs, Number.toRat?] at hy
      | negZero =>
        rw [hs] at hy
        exact absurd (Option.some.inj hy) hpos'.ne
      | finite q =>
        rw [hs] at hy
        obtain rfl := Option.some.inj hy
        simpa [Number.isNonzero] using hpos.ne'
    simp [hpos', hpos.ne', Dialect.offsetText, Bound.isEffective, hnonzero, Bound.text]

/-- The first row, if it is not the very first, is written as it was handed in. -/
theorem text_start_iff {n : Number} {y : Nat} (hy : n.toRat? = some (y : Rat))
    (hexact : n.IsExact) (hpos : 0 < y) : n.text = toString y ↔ Number.IsPlain y := by
  cases n with
  | nan | infinity _ => cases hy
  | negZero =>
    have : (y : Rat) = 0 := (Option.some.inj hy).symm
    exact absurd this (Nat.cast_pos.mpr hpos).ne'
  | finite q =>
    obtain rfl : q = (y : Rat) := Option.some.inj hy
    rw [← Number.text_round_eq_iff, hexact _ rfl]

/-- A blank ends the word in front of it. -/
theorem takeWhile_word {cs : List Char} (h : ' ' ∉ cs) (rest : List Char) :
    (cs ++ ' ' :: rest).takeWhile (· != ' ') = cs := by
  have hall : ∀ e ∈ cs, (e != ' ') = true := by
    intro e he
    rw [bne_iff_ne]
    rintro rfl
    exact h he
  rw [List.takeWhile_append_of_pos hall]
  exact List.append_nil _

/-- Two clauses agree only if they keep and skip the same rows. -/
theorem limit_offset_inj {a a' b b' : String} (ha : ' ' ∉ a.toList) (ha' : ' ' ∉ a'.toList) :
    " LIMIT " ++ a ++ (" OFFSET " ++ b) = " LIMIT " ++ a' ++ (" OFFSET " ++ b') ↔
    a = a' ∧ b = b' := by
  have hfront {c : String} (hc : ' ' ∉ c.toList) (d : String) :
      ((c ++ (" OFFSET " ++ d)).toList).takeWhile (· != ' ') = c.toList := by
    rw [String.toList_append, String.toList_append]
    exact takeWhile_word hc _
  constructor
  · intro h
    rw [String.append_assoc, String.append_assoc, String.append_right_inj] at h
    have hsame : a = a' := by
      rw [← String.toList_inj, ← hfront ha b, ← hfront ha' b', h]
    rw [hsame, String.append_right_inj, String.append_right_inj] at h
    exact ⟨hsame, h⟩
  · rintro ⟨rfl, rfl⟩
    rfl

/-- The clause of a window is the one in digits exactly if its numbers are plain. -/
theorem text_eq_digits_iff {start stop : Value} {w : Window} (hw : ofValues start stop = .ok w)
    (hexact : w.IsExact) (hcut : w.isWhole = false) (d : Dialect) :
    d.window w.limit? w.offset? = w.digits d ↔ w.IsPlain := by
  obtain ⟨hstart, hstop⟩ := isStart_and_isStop hw
  obtain ⟨y, hy⟩ := Number.exists_natCast hstart
  have hcount : w.start.count = y := Number.count_of_toRat? hy
  have hskipped := w.offsetText_eq hy
  have hfirst := text_start_iff hy hexact.1
  unfold digits IsPlain
  rw [hcount]
  -- without an end there is an offset only, and it is not 0
  cases hbehind : w.stop? with
  | none =>
    have hlt : Number.lt 0 w.start = true := by simpa [isWhole, hbehind] using hcut
    have hpos : 0 < y := by
      have hzero : (0 : Number).toRat? = some 0 := rfl
      rw [Number.lt_of_toRat? hzero hy, decide_eq_true_iff] at hlt
      exact_mod_cast hlt
    have hlimit : w.limit? = none := by rw [limit?, hbehind]; rfl
    have hoffset : w.offset? = some (.rows w.start) := if_pos hlt
    rw [if_neg hpos.ne'] at hskipped ⊢
    rw [hoffset] at hskipped
    have hall : (∀ behind ∈ (none : Option Number), Number.IsPlain (behind.count - y)) ↔
        True := by simp
    rw [hlimit, hoffset, hall, and_true, ← hfirst hpos]
    cases d with
    | sqlite =>
      rw [Dialect.window, hskipped, String.append_right_inj, String.append_right_inj]
      exact fun h => by cases h
    | postgres =>
      rw [Dialect.window, hskipped, String.empty_append, String.append_right_inj]
  | some behind =>
    obtain ⟨x, hx, hle⟩ := Number.exists_natCast_le hy (hstop behind hbehind)
    have hlimit : w.limit? = some (.rows (behind.sub w.start)) := by rw [limit?, hbehind]; rfl
    have hwindow : d.window w.limit? w.offset? = " LIMIT " ++ (behind.sub w.start).text ++
        Dialect.offsetText w.offset? := by
      rw [hlimit, Dialect.window_rows]
    have hkept := text_limit_iff hy hx hle
    have hall : (∀ other ∈ some behind, Number.IsPlain (other.count - y)) ↔
        Number.IsPlain (x - y) := by
      simp [Number.count_of_toRat? hx]
    rw [hwindow, hskipped, hall]
    dsimp only
    rw [Number.count_of_toRat? hx]
    -- an offset of 0 is left out, and then the limit alone decides
    rcases Nat.eq_zero_or_pos y with rfl | hpos
    · have hplain : Number.IsPlain 0 := Number.isPlain_of_le (by decide)
      rw [if_pos rfl, if_pos rfl, String.append_empty, String.append_empty,
        String.append_right_inj, hkept]
      exact (and_iff_right hplain).symm
    · rw [if_neg hpos.ne', if_neg hpos.ne', limit_offset_inj (Number.blank_not_mem_text _) ?_,
        hkept, hfirst hpos, and_comm]
      exact (Number.isNumeral_nat _).blank_not_mem

/-- A window that does not end beyond `2 ^ 53` is plain. -/
theorem isPlain_of_le {w : Window} (hstart : w.start.count ≤ 2 ^ 53)
    (hstop : ∀ behind ∈ w.stop?, behind.count ≤ 2 ^ 53) : w.IsPlain :=
  ⟨Number.isPlain_of_le hstart, fun behind hbehind =>
    Number.isPlain_of_le (Nat.le_trans (Nat.sub_le _ _) (hstop behind hbehind))⟩

end Window

/-! ## The SELECTs of a statement -/

/-- The SELECTs that a source reads as subqueries, at any depth. -/
def Source.selects : Source → List Query
  | table _ _ _ => []
  | derived _ source selection => ⟨source, selection⟩ :: source.selects
  | join left right _ _ _ => left.selects ++ right.selects

/-- A query and the SELECTs that it reads. -/
def Query.selects (q : Query) : List Query := q :: q.source.selects

/-- The clauses of the subqueries of a FROM, at any depth. -/
def FromItem.selects : FromItem → List Clauses
  | table _ _ => []
  | select clauses source _ => clauses :: source.selects
  | join _ left right _ => left.selects ++ right.selects

/-- The clauses of all SELECTs of a statement. -/
def Statement.selects (s : Statement) : List Clauses := s.clauses :: s.source.selects

/-- The clauses print the bounds of a query. -/
def Query.Bounds (q : Query) (c : Clauses) : Prop :=
  c.limit? = q.selection.limit? ∧ c.offset? = q.selection.offset?

theorem Selection.bounds {source : Source} {selection : Selection} {n n' : Nat}
    {clauses : Clauses} {item : FromItem}
    (h : selection.resolve source.visible source.resolve n = .ok (clauses, item, n')) :
    (Query.mk source selection).Bounds clauses ∧ ∃ scope m, source.resolve scope m =
      .ok (item, n') := by
  obtain ⟨_, _, _, _, hitem, _, _, rfl⟩ := Selection.resolve_eq_ok.mp h
  exact ⟨⟨rfl, rfl⟩, _, _, hitem⟩

theorem Source.selects_resolve {s : Source} {scope : Scope} {n n' : Nat} {item : FromItem}
    (h : s.resolve scope n = .ok (item, n')) :
    List.Forall₂ Query.Bounds s.selects item.selects := by
  induction s generalizing scope n n' item with
  | table id name columns =>
    obtain ⟨_, _, h⟩ := Attempt.bind_eq_ok.mp h
    cases h
    exact .nil
  | derived id source selection ih =>
    obtain ⟨⟨clauses, inner, m⟩, hinner, h⟩ := Attempt.bind_eq_ok.mp h
    obtain ⟨_, _, h⟩ := Attempt.bind_eq_ok.mp h
    cases h
    obtain ⟨hbounds, _, _, hsource⟩ := Selection.bounds hinner
    exact .cons hbounds (ih hsource)
  | join left right kind keys condition? ihl ihr =>
    obtain ⟨⟨l, n₁⟩, hleft, h⟩ := Attempt.bind_eq_ok.mp h
    obtain ⟨⟨r, n₂⟩, hright, h⟩ := Attempt.bind_eq_ok.mp h
    obtain ⟨_, _, h⟩ := Attempt.bind_eq_ok.mp h
    obtain ⟨_, _, h⟩ := Attempt.bind_eq_ok.mp h
    cases h
    exact List.rel_append (ihl hleft) (ihr hright)

theorem Query.selects_statement {q : Query} {s : Statement} (hs : q.statement = .ok s) :
    List.Forall₂ Query.Bounds q.selects s.selects := by
  obtain ⟨⟨clauses, item, n⟩, h, hs⟩ := Attempt.bind_eq_ok.mp hs
  cases hs
  obtain ⟨hbounds, _, _, hsource⟩ := Selection.bounds h
  exact .cons hbounds (Source.selects_resolve hsource)

/-! ## Where windows come from -/

/-- A query that cuts the rows of a plan by an accepted window. -/
def Query.IsSlice (plans : List Plan) (q : Query) : Prop :=
  ∃ base ∈ plans, ∃ start stop w, Window.ofValues start stop = .ok w ∧ base.slice? w = some q

theorem Query.IsSlice.mono {plans : List Plan} {q : Query} (h : q.IsSlice plans) (p : Plan) :
    q.IsSlice (p :: plans) := by
  obtain ⟨base, hbase, hslice⟩ := h
  exact ⟨base, List.mem_cons_of_mem _ hbase, hslice⟩

theorem Source.selects_relabel (map : Relabelling) (s : Source) :
    (s.relabel map).selects = s.selects := by
  induction s with
  | table id name columns =>
    rw [relabel]
    split <;> rfl
  | derived id source selection ih =>
    rw [relabel]
    split <;> rfl
  | join left right kind keys condition? ihl ihr => rw [relabel, selects, ihl, ihr, selects]

namespace Plan

/-- Opening a plan reads no other SELECT than the plan itself. -/
theorem selects_opened (p : Plan) : p.opened.source.selects ⊆ p.query.selects := by
  unfold opened
  split
  · exact List.Subset.refl _
  · exact List.subset_cons_self ..

theorem selects_unwindowed (p : Plan) : p.unwindowed.source.selects ⊆ p.query.selects := by
  unfold unwindowed
  split
  · exact p.selects_opened
  · exact List.subset_cons_self ..

end Plan

/-- A new plan reads SELECTs of plans that were there, and only a slice cuts a window. -/
theorem Step.selects {plans : List Plan} {next next' : Nat} {q : Query}
    (h : Step plans next q next') :
    (∀ sub ∈ q.source.selects, ∃ p ∈ plans, sub ∈ p.query.selects) ∧
      (q.selection.isWindowed = true → q.IsSlice plans) := by
  have hopened {p : Plan} (hp : p ∈ plans) :
      ∀ sub ∈ p.opened.source.selects, ∃ p ∈ plans, sub ∈ p.query.selects :=
    fun sub hsub => ⟨p, hp, p.selects_opened hsub⟩
  have hplain (p : Plan) : p.opened.selection.isWindowed = true → q.IsSlice plans :=
    fun hwindowed => by
    rw [p.isWindowed_opened] at hwindowed
    cases hwindowed
  cases h with
  | @project p _ _ hp hq =>
    obtain ⟨_, _, _, _, rfl⟩ := Plan.project_eq_ok.mp hq
    exact ⟨hopened hp, hplain p⟩
  | @assign p _ _ _ hp hq =>
    obtain ⟨_, _, rfl⟩ := Plan.assign_eq_ok.mp hq
    exact ⟨hopened hp, hplain p⟩
  | @rename p _ _ hp hq =>
    obtain ⟨_, _, rfl⟩ := Plan.rename_eq_ok.mp hq
    exact ⟨hopened hp, hplain p⟩
  | @drop p _ _ hp hq =>
    obtain ⟨_, _, rfl⟩ := Plan.drop_eq_ok.mp hq
    exact ⟨hopened hp, hplain p⟩
  | @filter p _ _ hp hq =>
    obtain ⟨_, _, rfl⟩ := Plan.filter_eq_ok.mp hq
    exact ⟨hopened hp, hplain p⟩
  | @distinct p _ hp hq =>
    obtain ⟨_, rfl⟩ := Plan.distinct?_eq_some.mp hq
    refine ⟨fun sub hsub => ⟨p, hp, p.selects_unwindowed hsub⟩, fun hwindowed => ?_⟩
    -- what carries a window is wrapped first
    exact absurd (p.isWindowed_unwindowed.symm.trans hwindowed) (by decide)
  | @slice p start stop w _ hp hw hq =>
    refine ⟨?_, fun _ => ⟨p, hp, start, stop, w, hw, hq⟩⟩
    obtain ⟨_, rfl⟩ := Plan.slice?_eq_some.mp hq
    exact fun sub hsub => ⟨p, hp, p.selects_unwindowed hsub⟩
  | @merge p r _ _ _ hp hr hq =>
    obtain ⟨kind, _, _, keys, _, _, _, rfl, _⟩ := Plan.merge_eq_ok.mp hq
    obtain ⟨_, hsource⟩ := Query.exists_source_joinOn p.opened (p.rebased r next) kind keys
    refine ⟨fun sub hsub => ?_, fun hwindowed => ?_⟩
    · rw [hsource, Source.selects] at hsub
      rcases List.mem_append.mp hsub with hleft | hright
      · exact hopened hp sub hleft
      · -- relabelling the right side leaves its SELECTs what they are
        rw [Plan.rebased, Query.relabel, Source.selects_relabel] at hright
        exact hopened hr sub hright
    · cases kind <;> cases hwindowed

/-- In a session every window at any depth is that of a slice. -/
theorem Session.selects {c : Catalog} {plans : List Plan} {next : Nat} (h : Session c plans next) :
    ∀ p ∈ plans, ∀ q ∈ p.query.selects, q.selection.isWindowed = true → q.IsSlice plans := by
  induction h with
  | start _ => exact fun p hp => by cases hp
  | table h ht ih =>
    intro p hp q hq hwindowed
    rcases List.mem_cons.mp hp with rfl | hp
    · rw [List.mem_singleton.mp hq] at hwindowed
      cases hwindowed
    · exact (ih p hp q hq hwindowed).mono _
  | step h hstep ih =>
    obtain ⟨hsource, hown⟩ := hstep.selects
    intro p hp q hq hwindowed
    rcases List.mem_cons.mp hp with rfl | hp
    · rcases List.mem_cons.mp hq with rfl | hq
      · exact (hown hwindowed).mono _
      · obtain ⟨old, hold, hmem⟩ := hsource q hq
        exact (ih old hold q hmem hwindowed).mono _
    · exact (ih p hp q hq hwindowed).mono _

/-! ## Windows in statements -/

/-- The clauses print these bounds of a window. -/
def Clauses.HasWindow (c : Clauses) (w : Window) : Prop :=
  c.limit? = w.limit? ∧ c.offset? = w.offset?

/-- Every SELECT of a statement in a session, at any depth, prints no bounds or those of a slice in
the session. What it prints is the clause in digits of whichever accepted window has these bounds
exactly if that window is plain, and windows that do not end beyond `2 ^ 53` are. -/
theorem Session.windows_exact_iff {c : Catalog} {plans : List Plan} {next : Nat}
    (h : Session c plans next) {p : Plan} (hp : p ∈ plans) {s : Statement}
    (hs : p.query.statement = .ok s) :
    ∀ clauses ∈ s.selects, (clauses.limit? = none ∧ clauses.offset? = none) ∨
      (∃ base ∈ plans, ∃ start stop w q, Window.ofValues start stop = .ok w ∧
        base.slice? w = some q ∧
          clauses.HasWindow w) ∧
        ∀ start stop w, Window.ofValues start stop = .ok w → w.isWhole = false → w.IsExact →
          clauses.HasWindow w →
          (∀ d : Dialect, d.window clauses.limit? clauses.offset? = w.digits d ↔ w.IsPlain) ∧
            (w.start.count ≤ 2 ^ 53 → (∀ behind ∈ w.stop?, behind.count ≤ 2 ^ 53) → w.IsPlain) := by
  intro clauses hclauses
  obtain ⟨q, hq, hlimit, hoffset⟩ :=
    Attempt.exists_of_mem_right (Query.selects_statement hs) hclauses
  cases hwindowed : q.selection.isWindowed with
  | false =>
    left
    simpa [Selection.isWindowed, hlimit, hoffset] using hwindowed
  | true =>
    obtain ⟨base, hbase, start, stop, w, hw, hslice⟩ := h.selects p hp q hq hwindowed
    right
    refine ⟨⟨base, hbase, start, stop, w, q, hw, hslice, ?_⟩,
      fun start stop w hw hcut hexact hbounds => ⟨fun d => ?_, ?_⟩⟩
    · obtain ⟨_, rfl⟩ := Plan.slice?_eq_some.mp hslice
      exact ⟨hlimit, hoffset⟩
    · rw [hbounds.1, hbounds.2]
      exact Window.text_eq_digits_iff hw hexact hcut d
    · exact Window.isPlain_of_le

/-- The tracks of a window. -/
def Plan.tracksOf (w : Window) : Query :=
  { tracks.query with
    selection := { tracks.query.selection with limit? := w.limit?, offset? := w.offset? } }

theorem Plan.slice?_tracks {w : Window} (hcut : w.isWhole = false) :
    tracks.slice? w = some (tracksOf w) :=
  slice?_eq_some.mpr ⟨hcut, rfl⟩

/-- Five rows of a table, behind the first two. -/
theorem Session.windows_exact_tracks :
    ∃ plans next p s, Session Catalog.music plans next ∧ p ∈ plans ∧
    p.query.statement = .ok s ∧
    ∀ d : Dialect, d.window s.clauses.limit? s.clauses.offset? = " LIMIT 5 OFFSET 2" := by
  have hw : Window.ofValues (.number (.finite 2)) (.number (.finite 7)) =
      .ok ⟨.finite 2, some (.finite 7)⟩ := rfl
  have hcut : Window.isWhole ⟨.finite 2, some (.finite 7)⟩ = false := rfl
  have hexact : Window.IsExact ⟨.finite 2, some (.finite 7)⟩ :=
    Window.isExact_finite (by decide +kernel) (by decide +kernel)
  have hsession := Session.step Session.tracks (.slice (.head _) hw (Plan.slice?_tracks hcut))
  obtain ⟨s, hs⟩ : ∃ s, (Plan.tracksOf ⟨.finite 2, some (.finite 7)⟩).statement = .ok s := ⟨_, rfl⟩
  have hbounds : s.clauses.HasWindow ⟨.finite 2, some (.finite 7)⟩ :=
    (List.forall₂_cons.mp (Query.selects_statement hs)).1
  refine ⟨_, _, _, s, hsession, .head _, hs, fun d => ?_⟩
  rcases Session.windows_exact_iff hsession (.head _) hs s.clauses (.head _) with hnone | ⟨_, hlaw⟩
  · cases hbounds.1.symm.trans hnone.1
  · obtain ⟨hdigits, hsmall⟩ := hlaw _ _ _ hw hcut hexact hbounds
    rw [(hdigits d).mpr (hsmall (by decide +kernel) fun behind hbehind => by
      cases hbehind; decide +kernel)]
    cases d <;> decide +kernel

/-- A window that ends beyond `2 ^ 53`: it asks for an odd number of rows, and the even one next to
it is printed. -/
theorem Session.window_rounded : ∃ plans next p s w, Session Catalog.music plans next ∧ p ∈ plans ∧
    p.query.statement = .ok s ∧
    Window.ofValues (.number (.finite 1)) (.number (.finite 9007199254740994)) = .ok w ∧ w.IsExact ∧
    s.clauses.HasWindow w ∧ w.digits .sqlite = " LIMIT 9007199254740993 OFFSET 1" ∧
    Dialect.sqlite.window s.clauses.limit? s.clauses.offset? =
      " LIMIT 9007199254740992 OFFSET 1" := by
  have hw : Window.ofValues (.number (.finite 1)) (.number (.finite 9007199254740994)) =
      .ok ⟨.finite 1, some (.finite 9007199254740994)⟩ := rfl
  have hcut : Window.isWhole ⟨.finite 1, some (.finite 9007199254740994)⟩ = false := rfl
  have hsession := Session.step Session.tracks (.slice (.head _) hw (Plan.slice?_tracks hcut))
  obtain ⟨s, hs⟩ : ∃ s, (Plan.tracksOf ⟨.finite 1, some (.finite 9007199254740994)⟩).statement =
      .ok s := ⟨_, rfl⟩
  have hbounds : s.clauses.HasWindow ⟨.finite 1, some (.finite 9007199254740994)⟩ :=
    (List.forall₂_cons.mp (Query.selects_statement hs)).1
  have hexact : Window.IsExact ⟨.finite 1, some (.finite 9007199254740994)⟩ :=
    Window.isExact_finite (by decide +kernel) (by decide +kernel)
  refine ⟨_, _, _, s, _, hsession, .head _, hs, hw, hexact, hbounds, by decide +kernel, ?_⟩
  rw [hbounds.1, hbounds.2]
  decide +kernel

end LazyFrame
