import Mathlib.Algebra.GroupWithZero.Nat
import Mathlib.Data.List.DropRight
import Mathlib.Data.List.Forall2
import Mathlib.Data.List.GetD
import Mathlib.Order.Bounds.Basic
import Mathlib.Order.MinMax
import LazyFrame.Grid
import LazyFrame.Proofs.Attempt

/-!
# The columns of a text table

A table is read by where things stand. `offset` is the place at which a column starts, counted in
16-bit units and found from the widths alone, and `cut` takes what stands in a line over the width
of a column, with blanks for what the line is too short to have. A line is `Aligned` with texts when
its bars stand two places in front of the columns and every cut gives back the text of its column,
up to blanks at the end.

Before blanks are cut off its end every line is aligned, by induction on its cells (`bar_lineChars`,
`cut_lineChars`). What is cut off is blank, so it can neither be a bar (`bar_of_append`) nor make a
difference to what a cut gives (`trimmed_cut_append`). So all lines of a table are aligned with
their texts, over the same widths, and the line breaks of the table are those between its lines
(`text_aligned`).
-/

namespace LazyFrame

/-! ## Units of a text -/

namespace Text

/-- Whether a unit is a blank character. -/
def isBlankUnit (unit : Nat) : Bool := blanks.contains unit

/-- The units of a text are those of its first character and then the others. -/
theorem unitList_cons (c : Char) (cs : List Char) :
    unitList (c :: cs) = charUnitList c ++ unitList cs := rfl

/-- The units of two texts in a row stand in a row. -/
theorem unitList_append (as bs : List Char) : unitList (as ++ bs) = unitList as ++ unitList bs :=
  List.flatMap_append

/-- A character of one unit is that unit. -/
theorem unitList_replicate {c : Char} (hc : charUnitList c = [c.toNat]) (n : Nat) :
    unitList (List.replicate n c) = List.replicate n c.toNat := by
  induction n with
  | zero => rfl
  | succ n ih =>
    rw [List.replicate_succ, List.replicate_succ, unitList_cons, hc, ih, List.singleton_append]

/-- A blank character is one unit, which is blank. -/
theorem isBlankUnit_of_mem_charUnitList {c : Char} (hc : isBlank c = true) :
    ∀ unit ∈ charUnitList c, isBlankUnit unit = true := by
  have hsmall : ∀ n ∈ blanks, n < 0x10000 := by decide
  have hown : charUnitList c = [c.toNat] := if_pos (hsmall _ (List.contains_iff_mem.mp hc))
  intro unit hunit
  rw [hown, List.mem_singleton] at hunit
  rw [hunit]
  exact hc

/-- Blank characters have blank units only. -/
theorem isBlankUnit_of_mem_unitList {cs : List Char} (hcs : ∀ c ∈ cs, isBlank c = true) :
    ∀ unit ∈ unitList cs, isBlankUnit unit = true := by
  intro unit hunit
  obtain ⟨c, hc, hmem⟩ := List.mem_flatMap.mp hunit
  exact isBlankUnit_of_mem_charUnitList (hcs c hc) unit hmem

/-- What is cut off at the right end is blank. -/
theorem exists_trimRight_append (cs : List Char) :
    ∃ tail, cs = trimRight cs ++ tail ∧ ∀ c ∈ tail, isBlank c = true :=
  ⟨cs.rtakeWhile isBlank, List.rdropWhile_append_rtakeWhile.symm, fun _ => List.mem_rtakeWhile_imp⟩

end Text

namespace Grid

open Text

/-! ## Cutting a line -/

/-- The offset of a column. In front of it there is a blank, and each column before it takes its
width, a blank behind that, a bar and a blank. -/
def offset (widths : List Nat) (i : Nat) : Nat := 1 + ((widths.take i).map (· + 3)).sum

/-- What stands in the units of a line from an offset on; what the line does not have reads as
blanks. -/
def cut (line : List Nat) (start width : Nat) : List Nat :=
  (List.range width).map fun j => line.getD (start + j) ' '.toNat

/-- Units without the blanks at the end. -/
def trimmed (units : List Nat) : List Nat := units.rdropWhile isBlankUnit

/-- The first column begins behind one place. -/
theorem offset_zero (widths : List Nat) : offset widths 0 = 1 := rfl

/-- The others begin behind the first column, its places, and a bar. -/
theorem offset_succ (width : Nat) (widths : List Nat) (i : Nat) :
    offset (width :: widths) (i + 1) = 1 + width + 2 + offset widths i := by
  simp only [offset, List.take_succ_cons, List.map_cons, List.sum_cons]
  omega

/-- A cut that is one wider has one more unit, or a blank where the line is over. -/
theorem cut_succ (line : List Nat) (start width : Nat) :
    cut line start (width + 1) = cut line start width ++ [line.getD (start + width) ' '.toNat] := by
  rw [cut, cut, List.range_succ, List.map_append, List.map_singleton]

/-- A cut in a line that is long enough. -/
theorem cut_append (front own back : List Nat) :
    cut (front ++ (own ++ back)) front.length own.length = own := by
  refine List.ext_getElem (by simp [cut]) fun j hj hown => ?_
  simp only [cut, List.getElem_map, List.getElem_range]
  rw [List.getD_eq_getElem?_getD, List.getElem?_append_right (Nat.le_add_right _ _),
    Nat.add_sub_cancel_left, List.getElem?_append_left hown, List.getElem?_eq_getElem hown,
    Option.getD_some]

/-- A cut behind a front does not see it. -/
theorem cut_append_right (front line : List Nat) (start width : Nat) :
    cut (front ++ line) (front.length + start) width = cut line start width := by
  refine List.map_congr_left fun j _ => ?_
  rw [Nat.add_assoc, List.getD_append_right _ _ _ _ (Nat.le_add_right _ _), Nat.add_sub_cancel_left]

/-- Blanks at the end of a line make no difference to what a cut gives. The induction is on the
width: a unit that both lines have is the same, and so are all in front of it; any other is blank
and does not count. -/
theorem trimmed_cut_append {line tail : List Nat} (htail : ∀ unit ∈ tail, isBlankUnit unit = true)
    (start width : Nat) :
    trimmed (cut (line ++ tail) start width) = trimmed (cut line start width) := by
  induction width with
  | zero => rfl
  | succ width ih =>
    by_cases hshort : start + width < line.length
    · have hsame : cut (line ++ tail) start (width + 1) = cut line start (width + 1) := by
        refine List.map_congr_left fun j hj => ?_
        have hj : start + j < line.length := by
          have := List.mem_range.mp hj
          omega
        rw [List.getD_append _ _ _ _ hj]
      rw [hsame]
    · have hblank : isBlankUnit ' '.toNat = true := rfl
      have hlong : isBlankUnit ((line ++ tail).getD (start + width) ' '.toNat) = true := by
        rw [List.getD_append_right _ _ _ _ (Nat.le_of_not_lt hshort), List.getD_eq_getElem?_getD]
        cases h : tail[start + width - line.length]? with
        | none => exact hblank
        | some unit => exact htail unit (List.mem_of_getElem? h)
      have hend : line.getD (start + width) ' '.toNat = ' '.toNat :=
        List.getD_eq_default _ _ (Nat.le_of_not_lt hshort)
      rw [cut_succ, cut_succ, hend, trimmed, trimmed, List.rdropWhile_concat_pos _ _ _ hlong,
        List.rdropWhile_concat_pos _ _ _ hblank]
      exact ih

/-- A unit that is not blank does not stand among the blanks at the end of a line. -/
theorem bar_of_append {own tail : List Nat} (htail : ∀ unit ∈ tail, isBlankUnit unit = true)
    {i unit : Nat} (hunit : isBlankUnit unit = false) (h : (own ++ tail)[i]? = some unit) :
    own[i]? = some unit := by
  by_cases hi : i < own.length
  · rwa [List.getElem?_append_left hi] at h
  · rw [List.getElem?_append_right (Nat.le_of_not_lt hi)] at h
    have hblank := htail unit (List.mem_of_getElem? h)
    rw [hunit] at hblank
    cases hblank

/-! ## Whole lines -/

theorem unitList_padded (width : Nat) (s : String) :
    unitList (padded width s) =
      unitList s.toList ++ List.replicate (width - units s) ' '.toNat := by
  rw [padded, unitList_append, unitList_replicate rfl]

/-- A text that fits is padded to the width. -/
theorem length_unitList_padded {width : Nat} {s : String} (h : units s ≤ width) :
    (unitList (padded width s)).length = width := by
  rw [unitList_padded, List.length_append, length_unitList, List.length_replicate]
  exact Nat.add_sub_cancel' h

/-- The padding is blank. -/
theorem trimmed_padded (width : Nat) (s : String) :
    trimmed (unitList (padded width s)) = trimmed (unitList s.toList) := by
  rw [unitList_padded]
  induction width - units s with
  | zero => rw [List.replicate_zero, List.append_nil]
  | succ n ih =>
    rw [List.replicate_succ', ← List.append_assoc, trimmed, List.rdropWhile_concat_pos _ _ _ rfl]
    exact ih

/-- What a line has in front of the cells behind its first one. -/
def lead (width : Nat) (s : String) : List Nat :=
  ' '.toNat :: (unitList (padded width s) ++ [' '.toNat, '|'.toNat])

/-- A column but the last takes its width, a place in front, and two behind. -/
theorem length_lead {width : Nat} {s : String} (h : units s ≤ width) :
    (lead width s).length = 1 + width + 2 := by
  rw [lead, List.length_cons, List.length_append, length_unitList_padded h, Nat.add_assoc,
    Nat.add_comm 1, Nat.add_assoc]
  rfl

/-- The units of a line are those of its first column and then those of the rest. -/
theorem unitList_lineChars_cons (width : Nat) (s : String) {rest : List (Nat × String)}
    (hrest : rest ≠ []) :
    unitList (lineChars ((width, s) :: rest)) = lead width s ++ unitList (lineChars rest) := by
  obtain ⟨next, rest, rfl⟩ := List.exists_cons_of_ne_nil hrest
  rw [lineChars, unitList_cons, unitList_append, unitList_cons, unitList_cons, lead,
    List.cons_append, List.append_assoc]
  · rfl
  · exact List.cons_ne_nil _ _

/-- Every line starts with a blank and its first cell. -/
theorem exists_unitList_lineChars (width : Nat) (s : String) (rest : List (Nat × String)) :
    ∃ back, unitList (lineChars ((width, s) :: rest)) =
      [' '.toNat] ++ (unitList (padded width s) ++ back) := by
  by_cases hrest : rest = []
  · refine ⟨[' '.toNat], ?_⟩
    rw [hrest, lineChars, unitList_cons, unitList_append]
    rfl
  · refine ⟨[' '.toNat, '|'.toNat] ++ unitList (lineChars rest), ?_⟩
    rw [unitList_lineChars_cons _ _ hrest, lead, ← List.append_assoc (unitList (padded width s))]
    rfl

variable {cells : List (Nat × String)}

/-- Two places in front of a column, but the first, there is a bar. -/
theorem bar_lineChars (hwide : ∀ cell ∈ cells, units cell.2 ≤ cell.1) {i : Nat}
    (hi : i + 1 < cells.length) :
    (unitList (lineChars cells))[offset (cells.map (·.1)) (i + 1) - 2]? = some '|'.toNat := by
  -- the induction is on the cells: a later bar is one in the line of those behind the first
  induction cells generalizing i with
  | nil => cases hi
  | cons cell rest ih =>
    obtain ⟨width, s⟩ := cell
    obtain ⟨hown, hrest⟩ := List.forall_mem_cons.mp hwide
    have hne : rest ≠ [] := by
      rintro rfl
      simp at hi
    have hlead : (lead width s).length = 1 + width + 2 := length_lead hown
    rw [unitList_lineChars_cons _ _ hne, List.map_cons, offset_succ]
    cases i with
    | zero =>
      have hplace : 1 + width + 2 + offset (rest.map (·.1)) 0 - 2 =
          (unitList (padded width s)).length + 1 + 1 := by
        rw [offset_zero, length_unitList_padded hown]
        omega
      rw [hplace,
        List.getElem?_append_left (by rw [hlead, length_unitList_padded hown]; omega), lead,
        List.getElem?_cons_succ, List.getElem?_append_right (Nat.le_add_right _ 1),
        Nat.add_sub_cancel_left]
      rfl
    | succ i =>
      have hpos : 2 ≤ offset (rest.map (·.1)) (i + 1) := by
        obtain ⟨next, others, rfl⟩ := List.exists_cons_of_ne_nil hne
        rw [List.map_cons, offset_succ]
        omega
      rw [Nat.add_sub_assoc hpos, ← hlead, List.getElem?_append_right (Nat.le_add_right _ _),
        Nat.add_sub_cancel_left]
      exact ih hrest (Nat.lt_of_succ_lt_succ hi)

/-- Over the width of a column there stands its text, filled up with blanks. -/
theorem cut_lineChars (hwide : ∀ cell ∈ cells, units cell.2 ≤ cell.1) {i : Nat}
    {cell : Nat × String} (hcell : cells[i]? = some cell) :
    cut (unitList (lineChars cells)) (offset (cells.map (·.1)) i) cell.1 =
      unitList (padded cell.1 cell.2) := by
  induction cells generalizing i with
  | nil => cases hcell
  | cons first rest ih =>
    obtain ⟨width, s⟩ := first
    obtain ⟨hown, hrest⟩ := List.forall_mem_cons.mp hwide
    cases i with
    | zero =>
      cases hcell
      obtain ⟨back, hline⟩ := exists_unitList_lineChars width s rest
      have hcut := cut_append [' '.toNat] (unitList (padded width s)) back
      rw [length_unitList_padded hown] at hcut
      rw [hline, offset_zero]
      exact hcut
    | succ i =>
      rw [List.getElem?_cons_succ] at hcell
      have hne : rest ≠ [] := List.ne_nil_of_mem (List.mem_of_getElem? hcell)
      rw [unitList_lineChars_cons _ _ hne, List.map_cons, offset_succ, ← length_lead hown,
        cut_append_right]
      exact ih hrest hcell

/-- A line in which the columns of these widths stand at their places: two places in front of each
column, but the first, there is a bar, and what stands over the width of a column is its text, up to
blanks at the end. -/
structure Aligned (widths : List Nat) (texts : List String) (line : String) : Prop where
  bar : ∀ i, 0 < i → i < widths.length → (unitList line.toList)[offset widths i - 2]? =
    some '|'.toNat
  cell : ∀ i, i < widths.length →
    trimmed (cut (unitList line.toList) (offset widths i) (widths.getD i 0)) =
      trimmed (unitList (texts.getD i "").toList)

variable {w : List Nat} {texts : List String}

/-- Texts that fit their columns make an aligned line. -/
theorem aligned_line (hlength : texts.length = w.length)
    (hwide : ∀ i < w.length, units (texts.getD i "") ≤ w.getD i 0) :
    Aligned w texts (line w texts) := by
  have hfst : (w.zip texts).map (·.1) = w := List.map_fst_zip hlength.ge
  have hfits : ∀ cell ∈ w.zip texts, units cell.2 ≤ cell.1 := by
    intro cell hcell
    obtain ⟨i, hi, rfl⟩ := List.getElem_of_mem hcell
    have hi : i < w.length := by
      rw [List.length_zip, hlength, Nat.min_self] at hi
      exact hi
    have hown := hwide i hi
    rw [List.getD_eq_getElem _ _ (hlength ▸ hi), List.getD_eq_getElem _ _ hi] at hown
    rw [List.getElem_zip]
    exact hown
  -- what is trimmed at the end is blank, so no bar and no text is lost by it
  obtain ⟨tail, htail, hblank⟩ := exists_trimRight_append (lineChars (w.zip texts))
  have hunits := congrArg unitList htail
  rw [unitList_append] at hunits
  have hblank := isBlankUnit_of_mem_unitList hblank
  constructor
  · intro i hpos hi
    obtain ⟨i, rfl⟩ := Nat.exists_eq_succ_of_ne_zero hpos.ne'
    have hbar :=
      bar_lineChars hfits (i := i) (by rw [List.length_zip, hlength, Nat.min_self]; exact hi)
    rw [hfst, hunits] at hbar
    rw [line, String.toList_ofList]
    exact bar_of_append hblank rfl hbar
  · intro i hi
    have hcell : (w.zip texts)[i]? = some (w[i], texts[i]) :=
      List.getElem?_zip_eq_some.mpr
        ⟨List.getElem?_eq_getElem hi, List.getElem?_eq_getElem (hlength ▸ hi)⟩
    have hcut := cut_lineChars hfits hcell
    rw [hfst, hunits] at hcut
    rw [line, String.toList_ofList, List.getD_eq_getElem w _ hi,
      List.getD_eq_getElem texts _ (hlength ▸ hi), ← trimmed_cut_append hblank, hcut,
      trimmed_padded]

/-- What a line is made of. -/
theorem mem_lineChars {cells : List (Nat × String)} {c : Char} (hc : c ∈ lineChars cells) :
    c = ' ' ∨ c = '|' ∨ ∃ cell ∈ cells, c ∈ cell.2.toList := by
  induction cells with
  | nil => cases hc
  | cons cell rest ih =>
    obtain ⟨width, s⟩ := cell
    have hpadded : c ∈ padded width s → c = ' ' ∨ c = '|' ∨
        ∃ cell ∈ (width, s) :: rest, c ∈ cell.2.toList := by
      intro hc
      rcases List.mem_append.mp hc with hc | hc
      · exact .inr (.inr ⟨_, List.mem_cons_self .., hc⟩)
      · exact .inl (List.eq_of_mem_replicate hc)
    by_cases hrest : rest = []
    · rw [hrest, lineChars, List.mem_cons, List.mem_append, List.mem_singleton] at hc
      rcases hc with hc | hc | hc
      · exact .inl hc
      · exact hpadded hc
      · exact .inl hc
    · rw [lineChars, List.mem_cons, List.mem_append, List.mem_cons, List.mem_cons] at hc
      · rcases hc with hc | hc | hc | hc | hc
        · exact .inl hc
        · exact hpadded hc
        · exact .inl hc
        · exact .inr (.inl hc)
        · rcases ih hc with hc | hc | ⟨cell, hcell, hc⟩
          · exact .inl hc
          · exact .inr (.inl hc)
          · exact .inr (.inr ⟨cell, List.mem_cons_of_mem _ hcell, hc⟩)
      · exact fun h => hrest h

/-- Texts without line breaks make a line without one. -/
theorem line_unbroken (hunbroken : ∀ own ∈ texts, '\n' ∉ own.toList) :
    '\n' ∉ (line w texts).toList := by
  intro hbreak
  rw [line, String.toList_ofList] at hbreak
  obtain ⟨tail, htail, -⟩ := exists_trimRight_append (lineChars (w.zip texts))
  have hbreak : '\n' ∈ lineChars (w.zip texts) := htail ▸ List.mem_append_left _ hbreak
  rcases mem_lineChars hbreak with h | h | ⟨cell, hcell, h⟩
  · exact absurd h (by decide)
  · exact absurd h (by decide)
  · exact hunbroken _ (List.of_mem_zip hcell).2 h

/-! ## The widths of a table -/

/-- The lengths of the texts of a column, its header included. -/
def columnUnits (headers : List String) (texts : List (List String)) (i : Nat) : Set Nat :=
  {n | n = units (headers.getD i "") ∨ ∃ own ∈ texts, n = units (own.getD i "")}

/-- There is a width for every header. -/
theorem length_widths (headers : List String) (texts : List (List String)) :
    (widths headers texts).length = headers.length := by
  rw [widths, List.length_map, List.length_zipIdx]

/-- The greatest number along a list is among those that it is taken from, and none of them is
greater. -/
theorem isGreatest_foldl {α : Type} (f : α → Nat) (items : List α) (start : Nat) :
    IsGreatest {n | n = start ∨
      ∃ a ∈ items, n = f a} (items.foldl (fun most a => max most (f a)) start) := by
  induction items generalizing start with
  | nil =>
    refine ⟨.inl rfl, ?_⟩
    rintro n (rfl | ⟨a, ha, -⟩)
    · exact le_refl _
    · cases ha
  | cons a rest ih =>
    obtain ⟨hmem, hmost⟩ := ih (max start (f a))
    constructor
    · rcases hmem with h | ⟨b, hb, h⟩
      · rcases max_choice start (f a) with hmax | hmax
        · exact .inl (h.trans hmax)
        · exact .inr ⟨a, List.mem_cons_self .., h.trans hmax⟩
      · exact .inr ⟨b, List.mem_cons_of_mem _ hb, h⟩
    · have hstart := hmost (.inl rfl)
      rintro n (rfl | ⟨b, hb, rfl⟩)
      · exact (le_max_left _ _).trans hstart
      · rcases List.mem_cons.mp hb with rfl | hb
        · exact (le_max_right _ _).trans hstart
        · exact hmost (.inr ⟨b, hb, rfl⟩)

/-- A column is as wide as its widest text. -/
theorem isGreatest_widths (headers : List String) (texts : List (List String)) {i : Nat}
    (hi : i < headers.length) :
    IsGreatest (columnUnits headers texts i) ((widths headers texts).getD i 0) := by
  have hwidth :=
    isGreatest_foldl (fun own : List String => units (own.getD i "")) texts
      (units (headers.getD i ""))
  rw [List.getD_eq_getElem _ _ (by rw [length_widths]; exact hi)]
  simp only [widths, List.getElem_map, List.getElem_zipIdx, Nat.zero_add]
  rw [← List.getD_eq_getElem headers "" hi]
  exact hwidth

/-! ## Tables -/

/-- What is written under the headers and behind the rows: one character over the width of each
column. -/
def strokes (c : Char) (widths : List Nat) : List String :=
  widths.map fun width => String.ofList (List.replicate width c)

/-- A rule is aligned with strokes over the widths. -/
theorem aligned_rule {c : Char} (hc : charUnits c = 1) (w : List Nat) :
    Aligned w (strokes c w) (rule c w) := by
  refine aligned_line (by rw [strokes, List.length_map]) fun i hi => ?_
  rw [strokes, List.getD_eq_getElem _ _ (by rw [List.length_map]; exact hi), List.getElem_map,
    List.getD_eq_getElem _ _ hi]
  refine le_of_eq ?_
  rw [units, String.toList_ofList]
  induction w[i] with
  | zero => rfl
  | succ n ih => rw [List.replicate_succ, unitCount, hc, ih, Nat.add_comm]

/-- A rule breaks no line. -/
theorem rule_unbroken {c : Char} (hc : c ≠ '\n') (w : List Nat) : '\n' ∉ (rule c w).toList := by
  refine line_unbroken fun own hown hbreak => ?_
  obtain ⟨width, -, rfl⟩ := List.mem_map.mp hown
  rw [String.toList_ofList] at hbreak
  exact hc (List.eq_of_mem_replicate hbreak).symm

/-- The lines of a table of these texts. -/
def lines (headers : List String) (texts : List (List String)) : List String :=
  let w := widths headers texts
  [line w headers, rule '-' w] ++ texts.map (line w) ++ [rule '=' w]

/-- Without line breaks in its texts the lines of a table are those of its text. -/
theorem splitOn_lines {headers : List String} {texts : List (List String)}
    (hheaders : ∀ header ∈ headers, '\n' ∉ header.toList)
    (hcells : ∀ own ∈ texts, ∀ cell ∈ own, '\n' ∉ cell.toList) :
    ("\n".intercalate (lines headers texts)).toList.splitOn '\n' =
      (lines headers texts).map String.toList := by
  rw [String.toList_intercalate]
  refine List.splitOn_intercalate _ ?_ (by simp [lines])
  intro chars hchars
  obtain ⟨own, hown, rfl⟩ := List.mem_map.mp hchars
  simp only [lines, List.mem_append, List.mem_cons, List.not_mem_nil, or_false,
    List.mem_map] at hown
  rcases hown with ((rfl | rfl) | ⟨own, hown, rfl⟩) | rfl
  · exact line_unbroken hheaders
  · exact rule_unbroken (by decide) _
  · exact line_unbroken (hcells own hown)
  · exact rule_unbroken (by decide) _

/-- All lines of a table are aligned over its widths. -/
theorem aligned_lines {headers : List String} {texts : List (List String)}
    (hlength : ∀ own ∈ texts, own.length = headers.length) :
    List.Forall₂ (Aligned (widths headers texts))
      ([headers, strokes '-' (widths headers texts)] ++ texts ++
        [strokes '=' (widths headers texts)])
      (lines headers texts) := by
  have hwidths := length_widths headers texts
  have hmost {i : Nat} (hi : i < (widths headers texts).length) :=
    (isGreatest_widths headers texts (hwidths ▸ hi)).2
  have hheader : Aligned (widths headers texts) headers (line (widths headers texts) headers) :=
    aligned_line hwidths.symm fun i hi => hmost hi (.inl rfl)
  have hrows :
      List.Forall₂ (Aligned (widths headers texts)) texts
        (texts.map (line (widths headers texts))) := by
    refine List.forall₂_map_right_iff.mpr (List.forall₂_same.mpr fun own hown => ?_)
    exact aligned_line ((hlength own hown).trans hwidths.symm) fun i hi =>
      hmost hi (.inr ⟨own, hown, rfl⟩)
  exact List.rel_append (List.rel_append (.cons hheader (.cons (aligned_rule rfl _) .nil)) hrows)
    (.cons (aligned_rule rfl _) .nil)

/-- The text of a table is its lines, with a line break between any two. -/
theorem text_eq_lines {g : Grid} {rows : List Value} {texts : List (List String)}
    (hrows : g.rowList = .ok rows)
    (htexts : List.Forall₂ (fun row own => rowTexts g.columns.length row = .ok own) rows texts) :
    g.text = .ok ("\n".intercalate (lines g.columns texts)) := by
  rw [text, hrows, Attempt.ok_bind, Attempt.mapM_eq_ok.mpr htexts]
  rfl

/-- The text of a table of formatted cells without line breaks has a line of headers, a rule, a line
for every row and a closing rule. All of them are aligned over the same widths, which are the
greatest lengths of the texts of the columns. -/
theorem text_aligned {g : Grid} {rows : List Value} {texts : List (List String)}
    (hrows : g.rowList = .ok rows)
    (htexts : List.Forall₂ (fun row own => rowTexts g.columns.length row = .ok own) rows texts)
    (hheaders : ∀ header ∈ g.columns, '\n' ∉ header.toList)
    (hcells : ∀ own ∈ texts, ∀ cell ∈ own, '\n' ∉ cell.toList) :
    ∃ (w : List Nat) (text : String) (lines : List String),
      w.length = g.columns.length ∧
      (∀ i < w.length, IsGreatest (columnUnits g.columns texts i) (w.getD i 0)) ∧
      g.text = .ok text ∧ text.toList.splitOn '\n' = lines.map String.toList ∧
      List.Forall₂ (Aligned w) ([g.columns, strokes '-' w] ++ texts ++ [strokes '=' w]) lines := by
  have hwidths := length_widths g.columns texts
  have hlength : ∀ own ∈ texts, own.length = g.columns.length := by
    intro own hown
    obtain ⟨row, -, hrow⟩ := Attempt.exists_of_mem_right htexts hown
    rw [← (Attempt.mapM_eq_ok.mp hrow).length_eq, List.length_range]
  refine ⟨widths g.columns texts, "\n".intercalate (lines g.columns texts),
    lines g.columns texts, hwidths, fun i hi => isGreatest_widths _ _ (hwidths ▸ hi), ?_, ?_, ?_⟩
  · exact text_eq_lines hrows htexts
  · exact splitOn_lines hheaders hcells
  · exact aligned_lines hlength

/-- A table with a row that is too short, one that is too long, a bar in a cell, a cell that ends
with a blank and a character of two units. -/
def assorted : Grid :=
  ⟨["id", "na|me", "é"], .list
    [.list [.integer 1, .text "a | b", .bool true],
     .list [.null],
     .list [.text "😀 ", .list [.null, .bool false], .text "  ", .text "unseen"]]⟩

/-- Its lines are aligned over the widths that its texts ask for. -/
theorem text_aligned_assorted :
    let rows := assorted.rows.items
    let texts := [["1", "a | b", "true"], ["NULL", "NULL", "NULL"], ["😀 ", "[null,false]", "  "]]
    List.Forall₂ (fun row own => rowTexts assorted.columns.length row = .ok own) rows texts ∧
      (∀ own ∈ texts, ∀ cell ∈ own, '\n' ∉ cell.toList) ∧
      ∃ (w : List Nat) (text : String) (lines : List String),
        w.length = assorted.columns.length ∧
        (∀ i < w.length, IsGreatest (columnUnits assorted.columns texts i) (w.getD i 0)) ∧
        assorted.text = .ok text ∧ text.toList.splitOn '\n' = lines.map String.toList ∧
        List.Forall₂ (Aligned w) ([assorted.columns, strokes '-' w] ++ texts ++
          [strokes '=' w]) lines := by
  intro rows texts
  have htexts :
      List.Forall₂ (fun row own => rowTexts assorted.columns.length row = .ok own) rows texts := by
    refine .cons ?_ (.cons ?_ (.cons ?_ .nil)) <;> cbv
  have hcells : ∀ own ∈ texts, ∀ cell ∈ own, '\n' ∉ cell.toList := by decide
  exact ⟨htexts, hcells, text_aligned (g := assorted) rfl htexts (by decide) hcells⟩

end Grid

end LazyFrame
