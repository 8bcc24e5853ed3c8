import LazyFrame.Proofs.Sql.Confinement
import LazyFrame.Proofs.Sql.Drawing
import LazyFrame.Proofs.Sql.Supply

/-!
# Aliases as they are written

Aliases are printed without quotes. The supply leaves out a list of its own, and each dialect has
its list of keywords, which is longer: the first alias that is a keyword is `add` in SQLite, the
772nd, and `both` in PostgreSQL, the 45800th (`Dialect.word_firstKeyword`,
`Dialect.count_firstKeyword`). In front of it all aliases are words that the dialect leaves as they
are, and from there on the aliases of a statement hold that keyword (`Alias.take_bare_iff`). So what
decides is how many relations a statement names (`Query.aliases_bare_iff`).
-/

namespace LazyFrame

/-! ## Keywords among the aliases -/

namespace Dialect

/-- The keywords of a dialect. -/
def keywords : Dialect → List String
  | sqlite => Keywords.sqlite
  | postgres => Keywords.postgres

/-- The number of the first alias that is a keyword: `add` in SQLite, `both` in PostgreSQL. -/
def firstKeyword : Dialect → Nat
  | sqlite => 784
  | postgres => 45820

/-- How many aliases come before the first one that is a keyword. -/
def bareAliases : Dialect → Nat
  | sqlite => 771
  | postgres => 45799

theorem firstKeyword_le (d : Dialect) :
    ∀ w ∈ d.keywords, w ∈ Alias.reserved ∨ d.firstKeyword ≤ Alias.number w.toList := by
  cases d with
  | sqlite => decide +kernel
  | postgres => decide +kernel

theorem word_firstKeyword (d : Dialect) :
    Alias.word d.firstKeyword ∈ d.keywords ∧ Alias.IsFree d.firstKeyword := by
  cases d with
  | sqlite =>
    have hword : Alias.word 784 = "add" := (Alias.word_eq_iff (by decide)).mpr rfl
    rw [firstKeyword, Alias.IsFree, hword]
    decide
  | postgres =>
    have hword : Alias.word 45820 = "both" := (Alias.word_eq_iff (by decide)).mpr rfl
    rw [firstKeyword, Alias.IsFree, hword]
    decide

theorem count_firstKeyword (d : Dialect) :
    Nat.count Alias.IsFree d.firstKeyword = d.bareAliases + 1 := by
  have h := Alias.count_isFree d.firstKeyword
  cases d with
  | sqlite =>
    have hbelow : (Alias.reservedNumbers.filter (· < firstKeyword sqlite)).length = 12 := by
      decide +kernel
    have hfirst : firstKeyword sqlite = bareAliases sqlite + 1 + 12 := by decide
    omega
  | postgres =>
    have hbelow : (Alias.reservedNumbers.filter (· < firstKeyword postgres)).length = 20 := by
      decide +kernel
    have hfirst : firstKeyword postgres = bareAliases postgres + 1 + 20 := by decide
    omega

theorem toLower_eq_self {c : Char} (h : c.isLower = true) : c.toLower = c := by
  refine dif_neg fun hupper => ?_
  have hlower := Alias.isLower_iff.mp h
  have : c.toNat ≤ 90 := UInt32.le_iff_toNat_le.mp hupper.2
  omega

/-- A word of small letters stays bare unless it is a keyword. -/
theorem isBare_iff_of_isLower (d : Dialect) {c : Char} {cs : List Char}
    (h : ∀ e ∈ c :: cs, e.isLower = true) :
    d.isBare (c :: cs) = true ↔ String.ofList (c :: cs) ∉ d.keywords := by
  have hfold : (c :: cs).map Char.toLower = c :: cs :=
    (List.map_congr_left fun e he => toLower_eq_self (h e he)).trans (List.map_id _)
  have hword : ∀ start : Char → Bool, (∀ e, e.isLower = true → start e = true) →
      isWord start (c :: cs) = true := by
    intro start hstart
    simp only [isWord, Bool.and_eq_true, List.all_eq_true, Bool.or_eq_true]
    exact ⟨hstart c (h c (List.mem_cons_self ..)),
      fun e he => .inl (hstart e (h e (List.mem_cons_of_mem _ he)))⟩
  cases d with
  | sqlite =>
    rw [isBare, hword isStart fun e he => by simp [isStart, he]]
    simp [hfold, keywords]
  | postgres =>
    rw [isBare, hword isLowerStart fun e he => by simp [isLowerStart, he]]
    simp [keywords]

/-- An alias is written as it is exactly if it is no keyword. -/
theorem identifier_word_iff (d : Dialect) {n : Nat} (hn : 0 < n) :
    d.identifier (Alias.word n) = Alias.word n ↔ Alias.word n ∉ d.keywords := by
  obtain ⟨c, cs, hword, hc, hcs⟩ := Alias.word_eq_cons hn
  have hbare := d.isBare_iff_of_isLower (List.forall_mem_cons.mpr ⟨hc, hcs⟩)
  rw [← hword, String.ofList_toList] at hbare
  rw [← hbare, identifier, identifierChars]
  constructor
  · intro h
    by_contra hnot
    rw [if_neg hnot, hword, enclose] at h
    have hquote : '"' = c := by
      have := congrArg String.toList h
      rw [String.toList_ofList, hword] at this
      exact (List.cons.inj this).1
    rw [← hquote] at hc
    cases hc
  · intro h
    rw [if_pos h, String.ofList_toList]

end Dialect

/-- The first aliases are all written as they are exactly if the first keyword is not among them
yet. -/
theorem Alias.take_bare_iff (d : Dialect) (count : Nat) :
    (∀ w ∈ take count 1, d.identifier w = w) ↔ count ≤ d.bareAliases := by
  obtain ⟨hkeyword, hfree⟩ := d.word_firstKeyword
  have hpos : 0 < d.firstKeyword := by cases d <;> decide
  have hfirst : word d.firstKeyword ∈ take count 1 ↔ Nat.count IsFree d.firstKeyword ≤ count :=
    word_mem_take_iff hfree hpos
  rw [d.count_firstKeyword] at hfirst
  constructor
  · intro h
    by_contra hmany
    exact (d.identifier_word_iff hpos).mp (h _ (hfirst.mpr (Nat.not_le.mp hmany))) hkeyword
  · intro hfew w hw
    obtain ⟨m, hm, _, hunreserved, rfl⟩ := mem_take_iff.mp hw
    refine (d.identifier_word_iff hm).mpr fun hmem => ?_
    -- a keyword among them would be the first one or come behind it
    rcases d.firstKeyword_le _ hmem with hreserved | hle
    · exact hunreserved hreserved
    · rw [word, String.toList_ofList, number_wordChars] at hle
      have hcount := (word_mem_take_iff hunreserved hm).mp hw
      have := Nat.count_monotone IsFree hle
      rw [d.count_firstKeyword] at this
      omega

/-! ## Statements -/

/-- All aliases of a statement are words that a dialect leaves as they are exactly if there are no
more of them than come before its first keyword. -/
theorem Query.aliases_bare_iff {q : Query} {s : Statement} (hs : q.statement = .ok s)
    (d : Dialect) :
    (∀ w ∈ s.aliases, d.identifier w = w) ↔ s.source.aliases.dedup.length ≤ d.bareAliases := by
  rw [← Alias.take_bare_iff]
  exact forall_congr' fun w => imp_congr_left (Query.mem_aliases_iff hs w)

/-- The rows of a table, in either dialect. -/
theorem Query.aliases_bare_tracks : ∃ s, Plan.tracks.query.statement = .ok s ∧
    ∀ d : Dialect, ∀ w ∈ s.aliases, d.identifier w = w := by
  obtain ⟨s, hs⟩ : ∃ s, Plan.tracks.query.statement = .ok s := ⟨_, rfl⟩
  have hone : s.source.aliases.length = 1 := by
    obtain rfl := Except.ok.inj hs
    rfl
  have hfew : s.source.aliases.dedup.length ≤ 1 := hone ▸ (List.dedup_sublist _).length_le
  refine ⟨s, hs, fun d => (Query.aliases_bare_iff hs d).mpr (Nat.le_trans hfew ?_)⟩
  cases d with
  | sqlite | postgres => decide

/-! ## A plan with a keyword for an alias -/

namespace Plan

/-- The first nine rows of a plan. -/
def firstNine (p : Plan) : Query :=
  { p.unwindowed with
    selection := { p.unwindowed.selection with
      limit? := some (.rows (.finite 9)), offset? := none } }

/-- The tracks cut to nine rows, and cut again as many times. -/
def tower : Nat → Plan
  | 0 => ⟨3, tracks.firstNine⟩
  | n + 1 => ⟨n + 4, (tower n).firstNine⟩

theorem tower_query (n : Nat) : ∃ p : Plan, (tower n).query = p.firstNine := by
  cases n with
  | zero => exact ⟨_, rfl⟩
  | succ n => exact ⟨_, rfl⟩

theorem unwindowed_tower (n : Nat) : (tower n).unwindowed =
    ⟨(tower n).asSource, .plain (Query.passThrough (tower n).relation) none⟩ := by
  obtain ⟨p, hp⟩ := tower_query n
  have hwindowed : (tower n).query.selection.isWindowed = true := by rw [hp]; rfl
  have hsealed : (tower n).isSealed = true := by
    rw [isSealed, Selection.isSealed, hwindowed, Bool.or_true]
  rw [unwindowed, if_pos hwindowed, opened, if_pos hsealed]

/-- One SELECT for each cut, and the table. -/
theorem itemCount_tower (n : Nat) : (tower n).query.source.itemCount = n + 1 := by
  induction n with
  | zero => rfl
  | succ n ih =>
    show (tower n).unwindowed.source.itemCount = _
    rw [unwindowed_tower]
    exact congrArg (· + 1) ih

theorem isWritable_tower (n : Nat) : (tower n).query.IsWritable := by
  have hcolumns : ∀ r : Relation, ∀ o ∈ Query.passThrough r, o.expr.IsWritable := by
    intro r o ho
    obtain ⟨name, _, rfl⟩ := List.mem_map.mp ho
    trivial
  induction n with
  | zero => exact ⟨trivial, hcolumns _, fun e he => by cases he⟩
  | succ n ih =>
    have hquery : (tower (n + 1)).query = (tower n).firstNine := rfl
    rw [hquery, firstNine, unwindowed_tower]
    exact ⟨⟨ih.source, ih.selection⟩, hcolumns _, fun e he => by cases he⟩

end Plan

theorem Session.tower (n : Nat) :
    ∃ plans, Session Catalog.music (Plan.tower n :: plans) (n + 4) := by
  have hw : Window.ofValues .missing (.number (.finite 9)) = .ok ⟨0, some (.finite 9)⟩ := rfl
  have hlimit : Window.limit? ⟨0, some (.finite 9)⟩ = some (.rows (.finite 9)) := by decide +kernel
  have hq : ∀ p : Plan, p.slice? ⟨0, some (.finite 9)⟩ = some p.firstNine := by
    intro p
    rw [Plan.firstNine, ← hlimit]
    rfl
  induction n with
  | zero => exact ⟨_, .step Session.tracks (.slice (.head _) hw (hq _))⟩
  | succ n ih =>
    obtain ⟨plans, h⟩ := ih
    exact ⟨_, .step h (.slice (.head _) hw (hq _))⟩

/-- The statement over it prints one alias for each of its cuts. -/
theorem Plan.aliases_tower (n : Nat) : ∃ s, (tower n).query.statement = .ok s ∧
    ∀ w, w ∈ s.aliases ↔ w ∈ Alias.take (n + 1) 1 := by
  obtain ⟨plans, h⟩ := Session.tower n
  have hwf := ((h.wellFormed Catalog.wellFormed_music).2 _ (.head _)).1
  obtain ⟨s, hs⟩ :=
    (Query.exists_statement_iff hwf.source hwf.visible_nodup hwf.selection.inScope).mpr
      (isWritable_tower n)
  have hygienic := Query.hygienic_statement hwf.source hwf.visible_nodup hs
  have hcount : s.source.aliases.dedup.length = n + 1 := by
    rw [hygienic.nodup.dedup, hygienic.one_each, itemCount_tower]
  exact ⟨s, hs, fun w => hcount ▸ Query.mem_aliases_iff hs w⟩

/-- A table cut 772 times in SQLite: the table itself is called `add`. -/
theorem Session.keyword_among_aliases :
    ∃ plans next p s, Session Catalog.music plans next ∧ p ∈ plans ∧
    p.query.statement = .ok s ∧ "add" ∈ s.aliases ∧ Dialect.sqlite.identifier "add" ≠ "add" := by
  obtain ⟨plans, h⟩ := Session.tower 771
  obtain ⟨s, hs, haliases⟩ := Plan.aliases_tower 771
  have hadd : Alias.word (Dialect.firstKeyword .sqlite) = "add" :=
    (Alias.word_eq_iff (by decide)).mpr rfl
  obtain ⟨hkeyword, hfree⟩ := Dialect.word_firstKeyword .sqlite
  have hdrawn : Alias.word (Dialect.firstKeyword .sqlite) ∈ Alias.take 772 1 ↔
      Nat.count Alias.IsFree (Dialect.firstKeyword .sqlite) ≤ 772 :=
    Alias.word_mem_take_iff hfree (by decide)
  rw [Dialect.count_firstKeyword, hadd] at hdrawn
  refine ⟨_, _, _, s, h, List.mem_cons_self .., hs, (haliases _).mpr (hdrawn.mpr (by decide)), ?_⟩
  rw [← hadd, Ne, Dialect.identifier_word_iff .sqlite (by decide), not_not]
  exact hkeyword

end LazyFrame
