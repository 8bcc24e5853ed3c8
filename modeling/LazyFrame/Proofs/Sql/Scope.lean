import Mathlib.Data.List.Nodup
import LazyFrame.Sql.Resolve
import LazyFrame.Proofs.Scope.WellFormed

/-!
# Scopes and the supply of aliases

Different numbers stand for different words (`Alias.word_inj`), and the supply only moves on. So
what is drawn from it between two numbers (`Alias.Drawn`) are different words, and words that are
drawn one after the other stay different (`Drawn.append`), whatever else is drawn in between.

A SELECT binds the relations it reads to the next aliases, one after the other. When no relation
is read twice the scope is the list of relations beside the list of aliases
(`Scope.bindAll_nil`), and every relation has its alias in it (`Scope.covers_bindAll`). Whatever is
read, all aliases of a scope are words of small letters (`Scope.Worded`, `Alias.word_eq_cons`).
-/

namespace LazyFrame

namespace Alias

/-! ## Words -/

theorem letter_inj {a b : Nat} (ha : a < 26) (hb : b < 26) (h : letter a = letter b) : a = b := by
  have hall : ∀ i j : Fin 26, letter i = letter j → i = j := by decide
  exact congrArg Fin.val (hall ⟨a, ha⟩ ⟨b, hb⟩ h)

/-- Every word has exactly one number. The induction follows the digits: the last ones agree, and
so do the words in front of them. -/
theorem wordChars_inj {a b : Nat} (h : wordChars a = wordChars b) : a = b := by
  induction a using Nat.strongRecOn generalizing b with
  | ind a ih =>
    cases a with
    | zero =>
      cases b with
      | zero => rfl
      | succ b => simp [wordChars] at h
    | succ a =>
      cases b with
      | zero => simp [wordChars] at h
      | succ b =>
        -- the last letter tells the remainder, the letters in front of it the quotient
        rw [wordChars, wordChars] at h
        obtain ⟨hfront, hlast⟩ := List.append_inj' h rfl
        have hdigit : a % 26 = b % 26 :=
          letter_inj (Nat.mod_lt _ (by decide)) (Nat.mod_lt _ (by decide))
            (List.singleton_inj.mp hlast)
        have hrest : a / 26 = b / 26 :=
          ih (a / 26) (Nat.lt_succ_of_le (Nat.div_le_self a 26)) hfront
        omega

/-- Two numbers with the same word are the same. -/
theorem word_inj {a b : Nat} (h : word a = word b) : a = b :=
  wordChars_inj (String.ofList_injective h)

/-- A letter of the alphabet is in lower case. -/
theorem isLower_letter {n : Nat} (h : n < 26) : (letter n).isLower = true := by
  have hall : ∀ i : Fin 26, (letter i).isLower = true := by decide
  exact hall ⟨n, h⟩

/-- Words are in lower case throughout. -/
theorem isLower_of_mem_wordChars {n : Nat} : ∀ c ∈ wordChars n, c.isLower = true := by
  induction n using Nat.strongRecOn with
  | ind n ih =>
    cases n with
    | zero => simp [wordChars]
    | succ n =>
      intro c hc
      rw [wordChars] at hc
      rcases List.mem_append.mp hc with hc | hc
      · exact ih (n / 26) (Nat.lt_succ_of_le (Nat.div_le_self n 26)) c hc
      · rw [List.mem_singleton.mp hc]
        exact isLower_letter (Nat.mod_lt _ (by decide))

/-- A word has a first letter, and all of its letters are in lower case. -/
theorem word_eq_cons {n : Nat} (h : 0 < n) :
    ∃ c cs, (word n).toList = c :: cs ∧ c.isLower = true ∧ ∀ e ∈ cs, e.isLower = true := by
  obtain ⟨m, rfl⟩ := Nat.exists_eq_succ_of_ne_zero (Nat.pos_iff_ne_zero.mp h)
  have hne : wordChars m.succ ≠ [] := by
    rw [wordChars]
    exact List.append_ne_nil_of_right_ne_nil _ (List.cons_ne_nil _ _)
  obtain ⟨c, cs, hcs⟩ := List.exists_cons_of_ne_nil hne
  have hall := @isLower_of_mem_wordChars m.succ
  rw [hcs] at hall
  refine ⟨c, cs, ?_, hall c (List.mem_cons_self ..), fun e he => hall e (List.mem_cons_of_mem _ he)⟩
  rw [word, String.toList_ofList, hcs]

/-! ## The supply -/

theorem le_skipReserved : ∀ fuel n : Nat, n ≤ skipReserved fuel n
  | 0, n => Nat.le_refl n
  | fuel + 1, n => by
    unfold skipReserved
    split
    · exact Nat.le_of_succ_le (le_skipReserved fuel (n + 1))
    · exact Nat.le_refl n

/-- The next alias has no smaller number. -/
theorem le_next (n : Nat) : n ≤ next n := le_skipReserved _ n

/-- Drawing aliases never goes back. -/
theorem le_advance : ∀ count n : Nat, n ≤ advance count n
  | 0, n => Nat.le_refl n
  | count + 1, n => by
    have hnext := le_next n
    have hrest := le_advance count (next n + 1)
    rw [advance]
    omega

/-- As many aliases are drawn as are asked for. -/
theorem length_take : ∀ count n : Nat, (take count n).length = count
  | 0, _ => rfl
  | count + 1, n => congrArg (· + 1) (length_take count (next n + 1))

/-- Different words, each with a number from `first` on and before `last`. -/
structure Drawn (first last : Nat) (words : List String) : Prop where
  nodup : words.Nodup
  range : ∀ w ∈ words, ∃ k, first ≤ k ∧ k < last ∧ w = word k

namespace Drawn

variable {a b c : Nat} {xs ys : List String}

/-- No aliases are drawn from any range. -/
theorem nil : Drawn a b [] := ⟨.nil, fun w hw => by cases hw⟩

/-- What is drawn from a range is drawn from any range around it. -/
theorem mono {a' b' : Nat} (h : Drawn a b xs) (ha : a' ≤ a) (hb : b ≤ b') : Drawn a' b' xs := by
  refine ⟨h.nodup, fun w hw => ?_⟩
  obtain ⟨k, hk, hlt, rfl⟩ := h.range w hw
  exact ⟨k, by omega, by omega, rfl⟩

/-- What is drawn later differs from what was drawn before. -/
theorem append (hx : Drawn a b xs) (hy : Drawn b c ys) (hab : a ≤ b) (hbc : b ≤ c) :
    Drawn a c (xs ++ ys) := by
  refine ⟨List.Nodup.append hx.nodup hy.nodup fun w hwx hwy => ?_, fun w hw => ?_⟩
  · obtain ⟨k, _, hk, rfl⟩ := hx.range w hwx
    obtain ⟨l, hl, _, hkl⟩ := hy.range _ hwy
    have := word_inj hkl
    omega
  · rcases List.mem_append.mp hw with hw | hw
    · exact (hx.mono (Nat.le_refl a) hbc).range w hw
    · exact (hy.mono hab (Nat.le_refl c)).range w hw

end Drawn

/-- Aliases that are taken in a row are drawn from the numbers in between. -/
theorem drawn_take : ∀ count n : Nat, Drawn n (advance count n) (take count n)
  | 0, _ => .nil
  | count + 1, n => by
    have hfirst : Drawn n (next n + 1) [word (next n)] := by
      refine ⟨List.nodup_singleton _, fun w hw => ⟨next n, le_next n, Nat.lt_succ_self _, ?_⟩⟩
      exact List.mem_singleton.mp hw
    exact hfirst.append (drawn_take count (next n + 1)) (Nat.le_succ_of_le (le_next n))
      (le_advance _ _)

end Alias

namespace Scope

/-- Relations that are new to a scope are bound to the next aliases in order. -/
theorem bindAll_append {scope : Scope} {relations : List Relation} {n : Nat}
    (hnodup : relations.Nodup) (hnew : ∀ r ∈ relations, scope.lookup r = none) :
    scope.bindAll relations n =
      (scope ++ relations.zip (Alias.take relations.length n),
        Alias.advance relations.length n) := by
  induction relations generalizing scope n with
  | nil => simp [bindAll, Alias.advance]
  | cons r rest ih =>
    obtain ⟨hr, hrest⟩ := List.nodup_cons.mp hnodup
    have hbind : scope.bind r n =
        (scope ++ [(r, Alias.word (Alias.next n))], Alias.next n + 1) := by
      simp [bind, hnew r (List.mem_cons_self ..)]
    -- the others are still new, since no relation stands twice
    have hnew' : ∀ s ∈ rest, (scope ++ [(r, Alias.word (Alias.next n))]).lookup s = none := by
      intro s hs
      have hne : s ≠ r := fun h => hr (h ▸ hs)
      rw [List.lookup_append, hnew s (List.mem_cons_of_mem _ hs)]
      simp [hne]
    show bindAll (scope.bind r n).1 rest (scope.bind r n).2 = _
    rw [hbind, ih hrest hnew']
    simp [Alias.take, Alias.advance]

/-- The scope of a SELECT: its relations beside the next aliases. -/
theorem bindAll_nil {relations : List Relation} {n : Nat} (hnodup : relations.Nodup) :
    Scope.bindAll [] relations n =
      (relations.zip (Alias.take relations.length n), Alias.advance relations.length n) :=
  bindAll_append hnodup fun _ _ => rfl

/-- Every relation of these has an alias. -/
def Covers (scope : Scope) (relations : List Relation) : Prop :=
  ∀ r ∈ relations, ∃ name, scope.owner r = .ok name

/-- Enough aliases cover the relations beside them. -/
theorem covers_zip {relations : List Relation} {aliases : List String}
    (hlength : relations.length ≤ aliases.length) : Covers (relations.zip aliases) relations := by
  intro r hr
  induction relations generalizing aliases with
  | nil => cases hr
  | cons first rest ih =>
    cases aliases with
    | nil => cases hlength
    | cons name others =>
      rw [List.zip_cons_cons, owner, List.lookup_cons]
      by_cases hfirst : r = first
      · exact ⟨name, by rw [hfirst, beq_self_eq_true]⟩
      · rw [beq_false_of_ne hfirst]
        exact ih (Nat.le_of_succ_le_succ hlength) (List.mem_of_ne_of_mem hfirst hr)

/-- Distinct relations that are bound one after the other are covered. -/
theorem covers_bindAll {relations : List Relation} {n : Nat} (hnodup : relations.Nodup) :
    Covers (Scope.bindAll [] relations n).1 relations := by
  rw [bindAll_nil hnodup]
  exact covers_zip (Nat.le_of_eq (Alias.length_take _ _).symm)

/-- What covers some relations covers fewer. -/
theorem Covers.mono {scope : Scope} {relations others : List Relation} (h : scope.Covers relations)
    (hsub : others ⊆ relations) : scope.Covers others :=
  fun r hr => h r (hsub hr)

/-! ## Scopes of drawn words -/

section Drawn

variable {scope : Scope}

/-- The owner of a relation is its alias in the scope. -/
theorem owner_eq_ok_iff {r : Relation} {name : String} :
    scope.owner r = .ok name ↔ scope.lookup r = some name := by
  unfold owner
  cases scope.lookup r with
  | none => simp
  | some other => simp

/-- An owner stands in the scope with its relation. -/
theorem mem_of_owner {r : Relation} {name : String} (h : scope.owner r = .ok name) :
    (r, name) ∈ scope := by
  obtain ⟨before, after, hscope, _⟩ := List.lookup_eq_some_iff.mp (owner_eq_ok_iff.mp h)
  simp [hscope]

/-- All aliases of a scope come from the supply. -/
def Worded (scope : Scope) : Prop := ∀ entry ∈ scope, ∃ n, 0 < n ∧ entry.2 = Alias.word n

/-- An owner in a scope of words is a word. -/
theorem Worded.owner (h : scope.Worded) {r : Relation} {name : String}
    (howner : scope.owner r = .ok name) : ∃ n, 0 < n ∧ name = Alias.word n :=
  h (r, name) (mem_of_owner howner)

/-- One more relation leaves a scope one of words, and the numbers go on. -/
theorem Worded.bind (h : scope.Worded) (r : Relation) {n : Nat} (hn : 0 < n) :
    (scope.bind r n).1.Worded ∧ n ≤ (scope.bind r n).2 := by
  unfold Scope.bind
  cases scope.lookup r with
  | some other => exact ⟨h, Nat.le_refl n⟩
  | none =>
    have hnext := Alias.le_next n
    refine ⟨fun entry hentry => ?_, Nat.le_succ_of_le hnext⟩
    rcases List.mem_append.mp hentry with hentry | hentry
    · exact h entry hentry
    · rw [List.mem_singleton.mp hentry]
      exact ⟨_, Nat.lt_of_lt_of_le hn hnext, rfl⟩

/-- More relations leave a scope one of words, and the numbers go on. -/
theorem Worded.bindAll (h : scope.Worded) (relations : List Relation) {n : Nat} (hn : 0 < n) :
    (scope.bindAll relations n).1.Worded ∧ n ≤ (scope.bindAll relations n).2 := by
  induction relations generalizing scope n with
  | nil => exact ⟨h, Nat.le_refl n⟩
  | cons r rest ih =>
    obtain ⟨hworded, hle⟩ := h.bind r hn
    obtain ⟨hall, hle'⟩ := ih hworded (Nat.lt_of_lt_of_le hn hle)
    exact ⟨hall, Nat.le_trans hle hle'⟩

/-- Nothing is in the empty scope but words. -/
theorem worded_nil : Worded [] := fun entry hentry => by cases hentry

end Drawn

end Scope

end LazyFrame
