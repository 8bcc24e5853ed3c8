import Mathlib.Data.List.Forall2
import LazyFrame.Fault

/-!
# Attempts that succeed

What it takes for an attempt to succeed: a sequence of two succeeds when both parts do, an
attempt for every item of a list succeeds when each of them does. These facts take the place of
unfolding the monad wherever an operation on plans or a printer is looked into.

Two attempts *agree* when both succeed, with results that are related, or both fail with the same
fault (`Agree`). Agreement goes through sequences and lists, so two programs that check the same
things in the same order agree once their steps do.
-/

namespace LazyFrame.Attempt

variable {α β γ : Type}

/-- One attempt behind another succeeds exactly if both do. -/
theorem bind_eq_ok {x : Attempt α} {f : α → Attempt β} {b : β} :
    (x >>= f) = .ok b ↔ ∃ a, x = .ok a ∧ f a = .ok b := by
  cases x with
  | error e =>
    constructor
    · intro h
      cases h
    · intro h
      obtain ⟨_, h, _⟩ := h
      cases h
  | ok a =>
    constructor
    · intro h
      exact ⟨a, rfl, h⟩
    · intro h
      obtain ⟨_, h, hf⟩ := h
      cases h
      exact hf

@[simp] theorem ok_bind (a : α) (f : α → Attempt β) : ((.ok a : Attempt α) >>= f) = f a := rfl

@[simp] theorem error_bind (e : Fault) (f : α → Attempt β) :
    ((.error e : Attempt α) >>= f) = .error e := rfl

/-- What is only worked on afterwards decides the success. -/
theorem exists_bind_ok_iff {x : Attempt α} {f : α → β} :
    (∃ b, (x >>= fun a => .ok (f a)) = .ok b) ↔ ∃ a, x = .ok a := by
  constructor
  · intro h
    obtain ⟨_, hb⟩ := h
    obtain ⟨a, ha, _⟩ := bind_eq_ok.mp hb
    exact ⟨a, ha⟩
  · intro h
    obtain ⟨a, ha⟩ := h
    exact ⟨f a, bind_eq_ok.mpr ⟨a, ha, rfl⟩⟩

/-- Two attempts that do not depend on each other succeed together when each of them does. -/
theorem exists_bind_both_iff {x : Attempt α} {y : Attempt β} {f : α → β → γ} :
    (∃ c, (x >>= fun a => y >>= fun b => .ok (f a b)) = .ok c) ↔
    (∃ a, x = .ok a) ∧ ∃ b, y = .ok b := by
  constructor
  · intro h
    obtain ⟨_, hc⟩ := h
    obtain ⟨a, ha, hc⟩ := bind_eq_ok.mp hc
    obtain ⟨b, hb, _⟩ := bind_eq_ok.mp hc
    exact ⟨⟨a, ha⟩, ⟨b, hb⟩⟩
  · intro h
    obtain ⟨⟨a, ha⟩, ⟨b, hb⟩⟩ := h
    exact ⟨f a b, bind_eq_ok.mpr ⟨a, ha, bind_eq_ok.mpr ⟨b, hb, rfl⟩⟩⟩

/-- What is left of an attempt when faults are forgotten is its value. -/
theorem toOption_eq_some {x : Attempt α} {a : α} : x.toOption = some a ↔ x = .ok a := by
  cases x with
  | ok b => simp [Except.toOption]
  | error e => simp [Except.toOption]

/-- A check in front of an attempt gives nothing but its passing. -/
theorem check_bind_eq_ok {x : Attempt Unit} {f : Unit → Attempt β} {b : β} :
    (x >>= f) = .ok b ↔ x = .ok () ∧ f () = .ok b := by
  rw [bind_eq_ok]
  constructor
  · intro h
    obtain ⟨_, hx, hf⟩ := h
    exact ⟨hx, hf⟩
  · intro h
    obtain ⟨hx, hf⟩ := h
    exact ⟨(), hx, hf⟩

/-- A condition that forbids an attempt does not hold when the attempt succeeds. -/
theorem guard_eq_ok {c : Prop} [Decidable c] {e : Fault} {x : Attempt β} {b : β} :
    (if c then .error e else x) = .ok b ↔ ¬c ∧ x = .ok b := by
  by_cases h : c
  · simp [h]
  · simp [h]

/-- An attempt for every item succeeds with the items that the single attempts give. -/
theorem mapM_eq_ok {f : α → Attempt β} :
    ∀ {l : List α} {bs : List β}, l.mapM f = .ok bs ↔ List.Forall₂ (fun a b => f a = .ok b) l bs
  | [], bs => by
    rw [List.mapM_nil]
    constructor
    · intro h
      cases h
      exact .nil
    · intro h
      cases h
      rfl
  | a :: l, bs => by
    rw [List.mapM_cons, bind_eq_ok]
    constructor
    · intro h
      obtain ⟨b, hb, h⟩ := h
      obtain ⟨rest, hrest, h⟩ := bind_eq_ok.mp h
      cases h
      exact .cons hb (mapM_eq_ok.mp hrest)
    · intro h
      cases h with
      | cons hb hrest => exact ⟨_, hb, bind_eq_ok.mpr ⟨_, mapM_eq_ok.mpr hrest, rfl⟩⟩

/-- What stands on the right of two related lists has its partner on the left. -/
theorem exists_of_mem_right {R : α → β → Prop} {as : List α} {bs : List β}
    (h : List.Forall₂ R as bs) {b : β} (hb : b ∈ bs) : ∃ a ∈ as, R a b := by
  induction h with
  | nil => cases hb
  | cons hfirst _ ih =>
    rcases List.mem_cons.mp hb with rfl | hb
    · exact ⟨_, List.mem_cons_self .., hfirst⟩
    · obtain ⟨a, ha, hR⟩ := ih hb
      exact ⟨a, List.mem_cons_of_mem _ ha, hR⟩

/-- What stands on the left has its partner on the right. -/
theorem exists_of_mem_left {R : α → β → Prop} {as : List α} {bs : List β} (h : List.Forall₂ R as bs)
    {a : α} (ha : a ∈ as) : ∃ b, R a b := by
  induction h with
  | nil => cases ha
  | cons hfirst _ ih =>
    rcases List.mem_cons.mp ha with rfl | ha
    · exact ⟨_, hfirst⟩
    · exact ih ha

/-- Items have related ones in a row when each of them has one. -/
theorem exists_forall₂_iff {R : α → β → Prop} {as : List α} :
    (∃ bs, List.Forall₂ R as bs) ↔ ∀ a ∈ as, ∃ b, R a b := by
  constructor
  · intro h a ha
    obtain ⟨bs, hbs⟩ := h
    exact exists_of_mem_left hbs ha
  · intro h
    induction as with
    | nil => exact ⟨[], .nil⟩
    | cons a rest ih =>
      obtain ⟨b, hb⟩ := h a (List.mem_cons_self ..)
      obtain ⟨bs, hbs⟩ := ih fun x hx => h x (List.mem_cons_of_mem _ hx)
      exact ⟨b :: bs, .cons hb hbs⟩

/-- An attempt for every item succeeds when each single one does. -/
theorem exists_mapM_iff {f : α → Attempt β} {l : List α} :
    (∃ bs, l.mapM f = .ok bs) ↔ ∀ a ∈ l, ∃ b, f a = .ok b := by
  simp only [mapM_eq_ok]
  exact exists_forall₂_iff

/-- An attempt for every item fails at the first item whose attempt fails. -/
theorem mapM_eq_error {f : α → Attempt β} {e : Fault} :
    ∀ {l : List α}, l.mapM f = .error e ↔
      ∃ before a after, l = before ++ a :: after ∧ (∀ x ∈ before, ∃ b, f x = .ok b) ∧ f a = .error e
  | [] => by
    rw [List.mapM_nil]
    constructor
    · intro h
      cases h
    · intro h
      obtain ⟨before, _, _, hl, _⟩ := h
      cases before <;> cases hl
  | a :: l => by
    rw [List.mapM_cons]
    cases hfa : f a with
    | error e' =>
      constructor
      · intro h
        cases h
        exact ⟨[], a, l, rfl, fun x hx => absurd hx List.not_mem_nil, hfa⟩
      · intro h
        obtain ⟨before, a', after, hl, hbefore, ha'⟩ := h
        cases before with
        | nil =>
          cases hl
          rw [hfa] at ha'
          rw [ha']
          rfl
        | cons first rest =>
          -- an item in front of the failing one would be the one that fails here
          cases hl
          obtain ⟨b, hb⟩ := hbefore a (List.mem_cons_self ..)
          rw [hfa] at hb
          cases hb
    | ok b =>
      have hrest :
          ((Except.ok b : Attempt β) >>= fun c => l.mapM f >>= fun cs => pure (c :: cs)) =
            .error e ↔
          l.mapM f = .error e := by
        cases l.mapM f with
        | error e' => exact ⟨fun h => (by cases h; rfl), fun h => (by cases h; rfl)⟩
        | ok cs => exact ⟨fun h => (by cases h), fun h => (by cases h)⟩
      rw [hrest, mapM_eq_error]
      constructor
      · intro h
        obtain ⟨before, a', after, rfl, hbefore, ha'⟩ := h
        refine ⟨a :: before, a', after, rfl, fun x hx => ?_, ha'⟩
        rcases List.mem_cons.mp hx with rfl | hx
        · exact ⟨b, hfa⟩
        · exact hbefore x hx
      · intro h
        obtain ⟨before, a', after, hl, hbefore, ha'⟩ := h
        cases before with
        | nil =>
          cases hl
          rw [hfa] at ha'
          cases ha'
        | cons first rest =>
          cases hl
          exact ⟨rest, a', after, rfl, fun x hx => hbefore x (List.mem_cons_of_mem _ hx), ha'⟩

/-- Attempts for the images of items are attempts for the items. -/
theorem mapM_map {f : α → Attempt γ} {g : β → Attempt γ} {h : α → β} {l : List α}
    (heq : ∀ a ∈ l, g (h a) = f a) : (l.map h).mapM g = l.mapM f := by
  induction l with
  | nil => rfl
  | cons a rest ih =>
    rw [List.map_cons, List.mapM_cons, List.mapM_cons, heq a (List.mem_cons_self ..),
      ih fun b hb => heq b (List.mem_cons_of_mem _ hb)]

/-- A check of every item is passed when each of them passes it. -/
theorem forM_eq_ok {f : α → Attempt Unit} :
    ∀ {l : List α}, l.forM f = .ok () ↔ ∀ a ∈ l, f a = .ok ()
  | [] => by
    constructor
    · intro _ x hx
      cases hx
    · intro _
      rfl
  | a :: l => by
    rw [List.forM_eq_forM, List.forM_cons, bind_eq_ok]
    constructor
    · intro h x hx
      obtain ⟨_, ha, h⟩ := h
      rcases List.mem_cons.mp hx with rfl | hx
      · exact ha
      · exact forM_eq_ok.mp h x hx
    · intro h
      exact ⟨(), h a (List.mem_cons_self ..), forM_eq_ok.mpr fun x hx =>
        h x (List.mem_cons_of_mem _ hx)⟩

/-- A check of every item fails at the first item that does not pass it. -/
theorem forM_eq_error {f : α → Attempt Unit} {e : Fault} : ∀ {l : List α}, l.forM f = .error e ↔
    ∃ before a after, l = before ++ a :: after ∧ (∀ x ∈ before, f x = .ok ()) ∧ f a = .error e
  | [] => by
    constructor
    · intro h
      cases h
    · intro h
      obtain ⟨before, _, _, hl, _⟩ := h
      cases before <;> cases hl
  | a :: l => by
    change (f a >>= fun _ => l.forM f) = .error e ↔ _
    -- a list fails at its first item, or else where the rest of it fails
    cases hfa : f a with
    | error e' =>
      constructor
      · intro h
        cases h
        exact ⟨[], a, l, rfl, fun x hx => absurd hx List.not_mem_nil, hfa⟩
      · intro h
        obtain ⟨before, a', after, hl, hbefore, ha'⟩ := h
        cases before with
        | nil =>
          cases hl
          rw [hfa] at ha'
          exact ha'
        | cons first rest =>
          cases hl
          exact absurd (hfa.symm.trans (hbefore a (List.mem_cons_self ..))) (by simp)
    | ok =>
      rw [ok_bind, forM_eq_error]
      constructor
      · intro h
        obtain ⟨before, a', after, rfl, hbefore, ha'⟩ := h
        exact ⟨a :: before, a', after, rfl, List.forall_mem_cons.mpr ⟨hfa, hbefore⟩, ha'⟩
      · intro h
        obtain ⟨before, a', after, hl, hbefore, ha'⟩ := h
        cases before with
        | nil =>
          cases hl
          exact absurd (hfa.symm.trans ha') (by simp)
        | cons first rest =>
          cases hl
          exact ⟨rest, a', after, rfl, fun x hx => hbefore x (List.mem_cons_of_mem _ hx), ha'⟩

/-- Checks along two lists in a row are the checks along the one and then along the other. -/
theorem forM_append (f : α → Attempt Unit) (l₁ l₂ : List α) :
    (l₁ ++ l₂).forM f = l₁.forM f >>= fun _ => l₂.forM f := by
  induction l₁ with
  | nil => rfl
  | cons a rest ih =>
    show (f a >>= fun _ => (rest ++ l₂).forM f) =
      (f a >>= fun _ => rest.forM f) >>= fun _ => l₂.forM f
    rw [ih]
    cases f a <;> rfl

/-! ## Attempts with other results -/

section Results

variable {δ : Type}

theorem map_ok (f : α → β) (a : α) : (Except.ok a : Attempt α).map f = .ok (f a) := rfl

theorem map_error (f : α → β) (e : Fault) : (Except.error e : Attempt α).map f = .error e := rfl

/-- What is made of the outcome at the end may be made of it within. -/
theorem map_bind (g : β → γ) (x : Attempt α) (f : α → Attempt β) :
    (x >>= f).map g = x >>= fun a => (f a).map g := by
  cases x <;> rfl

/-- What goes on with a changed value goes on with the value itself. -/
theorem bind_map (h : α → β) (x : Attempt α) (f : β → Attempt γ) :
    (x.map h >>= f) = x >>= fun a => f (h a) := by
  cases x <;> rfl

/-- What is made of the outcome of a case distinction may be made of it case by case. -/
theorem map_ite (c : Prop) [Decidable c] (f : α → β) (x y : Attempt α) :
    (if c then x else y : Attempt α).map f = if c then x.map f else y.map f := by
  split <;> rfl

/-- An attempt for every item gives other results when each single one does. -/
theorem mapM_of_map {f : α → Attempt β} {g : α → Attempt γ} {h : β → γ} {l : List α}
    (heq : ∀ a ∈ l, g a = (f a).map h) : l.mapM g = (l.mapM f).map (List.map h) := by
  induction l with
  | nil => rfl
  | cons a rest ih =>
    rw [List.mapM_cons, List.mapM_cons, heq a (List.mem_cons_self ..),
      ih fun b hb => heq b (List.mem_cons_of_mem _ hb), bind_map, map_bind]
    refine congrArg _ (funext fun b => ?_)
    rw [bind_map, map_bind]
    rfl

/-- Checks along a changed list are checks of what was changed. -/
theorem forM_map (f : β → Attempt Unit) (h : α → β) (l : List α) :
    (l.map h).forM f = l.forM fun a => f (h a) := by
  induction l with
  | nil => rfl
  | cons a rest ih =>
    show (f (h a) >>= fun _ => (rest.map h).forM f) = f (h a) >>= fun _ =>
      rest.forM fun a => f (h a)
    rw [ih]

end Results

/-! ## Agreement -/

/-- Both attempts succeed with related results, or both fail with one fault. -/
inductive Agree (R : α → β → Prop) : Attempt α → Attempt β → Prop where
  | ok {a : α} {b : β} (h : R a b) : Agree R (.ok a) (.ok b)
  | error (e : Fault) : Agree R (.error e) (.error e)

namespace Agree

variable {δ : Type} {R : α → β → Prop} {Q : γ → δ → Prop}

/-- An attempt agrees with itself. -/
theorem refl (x : Attempt α) : Agree Eq x x := by
  cases x with
  | error e => exact .error e
  | ok a => exact .ok rfl

/-- Attempts that agree still do when they go on from related values in agreement. -/
theorem bind {x : Attempt α} {y : Attempt β} (h : Agree R x y) {f : α → Attempt γ}
    {g : β → Attempt δ} (hf : ∀ a b, R a b → Agree Q (f a) (g b)) :
    Agree Q (x >>= f) (y >>= g) := by
  cases h with
  | ok h => exact hf _ _ h
  | error e => exact .error e

/-- A check in front of both sides changes nothing between them. -/
theorem check (x : Attempt Unit) {f : Unit → Attempt γ} {g : Unit → Attempt δ}
    (h : Agree Q (f ()) (g ())) : Agree Q (x >>= f) (x >>= g) :=
  (refl x).bind fun _ _ _ => h

/-- Attempts along related lists agree if they do pair by pair. -/
theorem mapM {f : α → Attempt γ} {g : β → Attempt δ} {as : List α} {bs : List β}
    (h : List.Forall₂ R as bs) (hf : ∀ a b, R a b → Agree Q (f a) (g b)) :
    Agree (List.Forall₂ Q) (as.mapM f) (bs.mapM g) := by
  induction h with
  | nil => exact .ok .nil
  | cons hfirst _ ih =>
    rw [List.mapM_cons, List.mapM_cons]
    exact (hf _ _ hfirst).bind fun _ _ hc => ih.bind fun _ _ hcs => .ok (.cons hc hcs)

/-- Attempts that agree are as related as their values are. -/
theorem imp {R' : α → β → Prop} {x : Attempt α} {y : Attempt β} (h : Agree R x y)
    (himp : ∀ a b, x = .ok a → y = .ok b → R a b → R' a b) : Agree R' x y := by
  cases h with
  | ok h => exact .ok (himp _ _ rfl rfl h)
  | error e => exact .error e

/-- Attempts that agree are equal when something is made of both that is the same for related
values. -/
theorem map_eq_map {x : Attempt α} {y : Attempt β} (h : Agree R x y) {f : α → γ} {g : β → γ}
    (hfg : ∀ a b, R a b → f a = g b) : x.map f = y.map g := by
  cases h with
  | ok h => exact congrArg Except.ok (hfg _ _ h)
  | error e => rfl

end Agree

end LazyFrame.Attempt
