import LazyFrame.Proofs.Asking
import LazyFrame.Service.Handler

/-!
# Transcripts

What happens in a dialogue is told by its transcript: the requests in their order, each with its
answer. `Dialogue.Goes` relates a dialogue to the transcripts it can have, whatever the surroundings
answer, and to its result. One dialogue after the other goes as the first one does and then as the
second one (`goes_bind_iff`), and so it is for computations that can fail (`Asking.goes_bind_iff`)
and for those that also keep catalogs (`Serving.goes_bind_iff`).

A dialogue that is not over yet has come to the rest of it by the exchanges so far
(`Dialogue.Reaches`).

Where all requests of a dialogue are of one kind, so are those of its transcripts (`Only.goes`). A
transcript leaves no choice: if two of them begin alike for as long as both last, they are the same
and have the same result (`Goes.unique`).
-/

namespace LazyFrame

/-- A request with its answer. -/
structure Exchange (I : Interface) where
  request : I.Request
  answer : I.Answer request

namespace Dialogue

variable {I : Interface} {α β σ : Type}

/-- A way that a dialogue can go, and its result then. -/
inductive Goes : Dialogue I α → List (Exchange I) → α → Prop where
  | done (result : α) : Goes (.done result) [] result
  | ask {request : I.Request} {next : I.Answer request → Dialogue I α} {rest : List (Exchange I)}
    {result : α} (answer : I.Answer request) (h : Goes (next answer) rest result) :
    Goes (.ask request next) (⟨request, answer⟩ :: rest) result

/-- What is done asks nothing and has its result. -/
theorem goes_done_iff {a result : α} {transcript : List (Exchange I)} :
    (done a).Goes transcript result ↔ transcript = [] ∧ result = a := by
  constructor
  · intro h
    cases h
    exact ⟨rfl, rfl⟩
  · rintro ⟨rfl, rfl⟩
    exact .done _

/-- A dialogue that asks goes on with the answer. -/
theorem goes_ask_iff {request : I.Request} {next : I.Answer request → Dialogue I α}
    {transcript : List (Exchange I)} {result : α} : (ask request next).Goes transcript result ↔
      ∃ answer rest, transcript = ⟨request, answer⟩ :: rest ∧ (next answer).Goes rest result := by
  constructor
  · intro h
    cases h with
    | ask answer h => exact ⟨answer, _, rfl, h⟩
  · rintro ⟨answer, rest, rfl, h⟩
    exact .ask answer h

/-- One dialogue after the other: two transcripts in a row. -/
theorem goes_bind_iff {d : Dialogue I α} {f : α → Dialogue I β} {transcript : List (Exchange I)}
    {result : β} :
    (d.bind f).Goes transcript result ↔
      ∃ a first second, transcript = first ++ second ∧ d.Goes first a ∧
        (f a).Goes second result := by
  induction d generalizing transcript with
  | done a =>
    constructor
    · exact fun h => ⟨a, [], transcript, rfl, .done a, h⟩
    · rintro ⟨a', first, second, rfl, hfirst, hsecond⟩
      obtain ⟨rfl, rfl⟩ := goes_done_iff.mp hfirst
      exact hsecond
  | ask request next ih =>
    constructor
    · intro h
      obtain ⟨answer, rest, rfl, hrest⟩ := goes_ask_iff.mp h
      obtain ⟨a, first, second, rfl, hfirst, hsecond⟩ := (ih answer).mp hrest
      exact ⟨a, ⟨request, answer⟩ :: first, second, rfl, .ask answer hfirst, hsecond⟩
    · rintro ⟨a, first, second, rfl, hfirst, hsecond⟩
      obtain ⟨answer, rest, rfl, h⟩ := goes_ask_iff.mp hfirst
      exact .ask answer ((ih answer).mpr ⟨a, rest, second, rfl, h, hsecond⟩)

/-- Of two transcripts that agree for as long as both last none goes on. -/
theorem Goes.unique {d : Dialogue I α} {first first' : List (Exchange I)} {a a' : α}
    (h : d.Goes first a) (h' : d.Goes first' a') {rest rest' : List (Exchange I)}
    (heq : first ++ rest = first' ++ rest') : first = first' ∧ a = a' := by
  induction h generalizing first' with
  | done a =>
    obtain ⟨rfl, rfl⟩ := goes_done_iff.mp h'
    exact ⟨rfl, rfl⟩
  | ask answer _ ih =>
    obtain ⟨answer', others, rfl, hothers⟩ := goes_ask_iff.mp h'
    rw [List.cons_append, List.cons_append] at heq
    obtain ⟨hhead, htail⟩ := List.cons.inj heq
    cases hhead
    obtain ⟨rfl, rfl⟩ := ih hothers htail
    exact ⟨rfl, rfl⟩

/-! ## Dialogues that are not over -/

/-- After these exchanges a dialogue has come to where another one starts. -/
inductive Reaches : Dialogue I α → List (Exchange I) → Dialogue I α → Prop where
  | start (d : Dialogue I α) : Reaches d [] d
  | ask {request : I.Request} {next : I.Answer request → Dialogue I α} {rest : List (Exchange I)}
    {d : Dialogue I α} (answer : I.Answer request) (h : Reaches (next answer) rest d) :
    Reaches (.ask request next) (⟨request, answer⟩ :: rest) d

namespace Reaches

variable {d d' : Dialogue I α} {first second : List (Exchange I)}

/-- One more exchange. -/
theorem concat {request : I.Request} {next : I.Answer request → Dialogue I α}
    (h : d.Reaches first (.ask request next)) (answer : I.Answer request) :
    d.Reaches (first ++ [⟨request, answer⟩]) (next answer) := by
  generalize hd : Dialogue.ask request next = d' at h
  induction h with
  | start =>
    subst hd
    exact .ask answer (.start _)
  | ask answer' _ ih => exact .ask answer' (ih hd)

/-- What goes on from there. -/
theorem goes (h : d.Reaches first d') {a : α} (hgoes : d'.Goes second a) :
    d.Goes (first ++ second) a := by
  induction h with
  | start => exact hgoes
  | ask answer _ ih => exact .ask answer (ih hgoes)

end Reaches

/-! ## Kinds of requests -/

/-- All requests that a dialogue can make are of one kind. -/
def Only (P : I.Request → Prop) : Dialogue I α → Prop
  | done _ => True
  | ask request next => P request ∧ ∀ answer, (next answer).Only P

namespace Only

variable {P : I.Request → Prop} {d : Dialogue I α}

/-- A dialogue that goes on asks nothing but what both parts of it ask. -/
theorem bind (h : d.Only P) {f : α → Dialogue I β} (hf : ∀ a, (f a).Only P) :
    (d.bind f).Only P := by
  induction d with
  | done a => exact hf a
  | ask request next ih => exact ⟨h.1, fun answer => ih answer (h.2 answer)⟩

/-- What is asked on the way is what a dialogue asks. -/
theorem goes (h : d.Only P) {transcript : List (Exchange I)} {a : α} (hgoes : d.Goes transcript a) :
    ∀ e ∈ transcript, P e.request := by
  induction hgoes with
  | done => exact fun e he => by cases he
  | ask answer _ ih =>
    intro e he
    rcases List.mem_cons.mp he with rfl | he
    · exact h.1
    · exact ih (h.2 answer) e he

end Only

/-! ## Surroundings -/

/-- The transcript of a dialogue with a state that answers. -/
def recorded (serve : (r : I.Request) → σ → I.Answer r × σ) : Dialogue I α → σ → List (Exchange I)
  | done _, _ => []
  | ask request next, s =>
    ⟨request, (serve request s).1⟩ :: (next (serve request s).1).recorded serve (serve request s).2

/-- With any surroundings a dialogue goes some way. -/
theorem goes_recorded (serve : (r : I.Request) → σ → I.Answer r × σ) (d : Dialogue I α) (s : σ) :
    d.Goes (d.recorded serve s) (d.run serve s).1 := by
  induction d generalizing s with
  | done result => exact .done result
  | ask request next ih => exact .ask _ (ih _ _)

/-- All answers come from the surroundings. -/
theorem exists_of_mem_recorded (serve : (r : I.Request) → σ → I.Answer r × σ) (d : Dialogue I α)
    (s : σ) {e : Exchange I} (h : e ∈ d.recorded serve s) :
    ∃ s', e.answer = (serve e.request s').1 := by
  induction d generalizing s with
  | done result => cases h
  | ask request next ih =>
    rcases List.mem_cons.mp h with rfl | h
    · exact ⟨s, rfl⟩
    · exact ih _ _ h

end Dialogue

/-! ## Computations that can fail -/

namespace Asking

variable {I : Interface} {α β : Type} {transcript : List (Exchange I)}

/-- An asking that goes on goes one way and then the other. -/
theorem goes_bind_iff {x : Asking I α} {f : α → Asking I β} {result : Attempt β} :
    (x >>= f).run.Goes transcript result ↔ ∃ outcome first second, transcript = first ++ second ∧
      x.run.Goes first outcome ∧ (ofAttempt outcome >>= f : Asking I β).run.Goes second result := by
  have hbind : ∀ outcome, ExceptT.bindCont f outcome = (ofAttempt outcome >>= f : Asking I β).run :=
    fun outcome => by
    cases outcome <;> rfl
  refine (Dialogue.goes_bind_iff (d := x.run) (f := ExceptT.bindCont f)).trans ?_
  simp only [hbind]

/-- An outcome that is there asks nothing. -/
theorem goes_ofAttempt_iff {a result : Attempt α} :
    (ofAttempt a : Asking I α).run.Goes transcript result ↔ transcript = [] ∧ result = a :=
  Dialogue.goes_done_iff

/-- Looking at an outcome goes the same way and does not fail. -/
theorem goes_outcome_iff {x : Asking I α} {result : Attempt (Attempt α)} :
    (outcome x).run.Goes transcript result ↔ ∃ a, x.run.Goes transcript a ∧ result = .ok a := by
  refine Dialogue.goes_bind_iff.trans ?_
  simp only [Dialogue.goes_done_iff]
  constructor
  · rintro ⟨a, first, second, rfl, hfirst, rfl, rfl⟩
    exact ⟨a, by rwa [List.append_nil], rfl⟩
  · rintro ⟨a, h, rfl⟩
    exact ⟨a, transcript, [], (List.append_nil _).symm, h, rfl, rfl⟩

/-- A single question has its answer read. -/
theorem goes_request_iff {r : I.Request} {read : I.Answer r → Attempt α} {result : Attempt α} :
    (request r read).run.Goes transcript result ↔ ∃ answer, transcript = [⟨r, answer⟩] ∧
    result = read answer := by
  refine Dialogue.goes_ask_iff.trans ?_
  simp only [Dialogue.goes_done_iff]
  constructor
  · rintro ⟨answer, rest, rfl, rfl, rfl⟩
    exact ⟨answer, rfl, rfl⟩
  · rintro ⟨answer, rfl, rfl⟩
    exact ⟨answer, [], rfl, rfl, rfl⟩

end Asking

/-! ## Computations that keep catalogs -/

namespace Serving

variable {α β : Type} {before after : Catalogs} {transcript : List (Exchange Outside.interface)}

/-- A way that a computation can go with these catalogs, its result then, and the catalogs
afterwards. -/
def Goes (t : Serving α) (before : Catalogs) (transcript : List (Exchange Outside.interface))
    (result : Attempt α) (after : Catalogs) : Prop :=
  (t.run.run before).Goes transcript (result, after)

/-- A job goes its way and leaves the catalogs alone. -/
theorem goes_ofJob_iff {t : Job α} {result : Attempt α} :
    (ofJob t).Goes before transcript result after ↔ t.run.Goes transcript result ∧
    after = before := by
  refine Dialogue.goes_bind_iff.trans ?_
  simp only [Dialogue.goes_done_iff, Prod.mk.injEq]
  constructor
  · rintro ⟨a, first, second, rfl, hfirst, rfl, rfl, rfl⟩
    exact ⟨by rwa [List.append_nil], rfl⟩
  · rintro ⟨h, rfl⟩
    exact ⟨result, transcript, [], (List.append_nil _).symm, h, rfl, rfl, rfl⟩

/-- An outcome that is there asks nothing and leaves the catalogs alone. -/
theorem goes_ofAttempt_iff {a result : Attempt α} :
    (ofAttempt a).Goes before transcript result after ↔ transcript = [] ∧ result = a ∧
    after = before := by
  rw [ofAttempt, goes_ofJob_iff, Asking.goes_ofAttempt_iff, and_assoc]

/-- What goes on goes on with the catalogs that are there then. -/
theorem goes_bind_iff {x : Serving α} {f : α → Serving β} {result : Attempt β} :
    (x >>= f).Goes before transcript result after ↔
    ∃ outcome between first second, transcript = first ++ second ∧
      x.Goes before first outcome between ∧
      (ofAttempt outcome >>= f).Goes between second result after := by
  have hbind : ∀ outcome between, (ExceptT.bindCont f outcome).run between =
      (ofAttempt outcome >>= f : Serving β).run.run between := fun outcome between => by
    cases outcome <;> rfl
  refine (Dialogue.goes_bind_iff (d := x.run.run before)
    (f := fun out => (ExceptT.bindCont f out.1).run out.2)).trans ?_
  simp only [Prod.exists, hbind]
  rfl

/-- What is there is gone on with. -/
theorem ofAttempt_ok_bind (a : α) (f : α → Serving β) : (ofAttempt (.ok a) >>= f) = f a := rfl

/-- A job stays one when the catalogs come into play. -/
theorem ofJob_bind (x : Job α) (f : α → Job β) :
    ofJob (x >>= f) = ofJob x >>= fun a => ofJob (f a) := by
  refine ExceptT.ext (StateT.ext fun before => ?_)
  refine (Dialogue.bind_assoc x.run (ExceptT.bindCont f) _).trans
    (Eq.trans ?_ (Dialogue.bind_assoc x.run _ _).symm)
  refine congrArg (Dialogue.bind x.run) (funext fun outcome => ?_)
  cases outcome <;> rfl

/-- A job in front of a computation changes nothing for it but what it finds out. -/
theorem goes_ofJob_bind_iff {x : Job α} {f : α → Serving β} {result : Attempt β} :
    (ofJob x >>= f).Goes before transcript result after ↔
    ∃ outcome first second, transcript = first ++ second ∧
      x.run.Goes first outcome ∧ (ofAttempt outcome >>= f).Goes before second result after := by
  rw [goes_bind_iff]
  simp only [goes_ofJob_iff]
  constructor
  · rintro ⟨outcome, _, first, second, htranscript, ⟨hfirst, rfl⟩, hsecond⟩
    exact ⟨outcome, first, second, htranscript, hfirst, hsecond⟩
  · rintro ⟨outcome, first, second, htranscript, hfirst, hsecond⟩
    exact ⟨outcome, before, first, second, htranscript, ⟨hfirst, rfl⟩, hsecond⟩

/-- Looking for a catalog counts as a use of it. -/
theorem goes_find_bind_iff {url : String} {f : Option Stamped → Serving β} {result : Attempt β} :
    (find url >>= f).Goes before transcript result after ↔
      (f (before.get (some url)).1).Goes (before.get (some url)).2 transcript result after :=
  Iff.rfl

/-- Keeping a catalog puts it among those that are kept. -/
theorem goes_keep_bind_iff {url : String} {s : Stamped} {f : Unit → Serving β}
    {result : Attempt β} :
    (keep url s >>= f).Goes before transcript result after ↔
      (f ()).Goes (before.set (some url) (some s)) transcript result after :=
  Iff.rfl

/-- Looking at an outcome goes the same way and does not fail. -/
theorem goes_outcome_iff {x : Serving α} {result : Attempt (Attempt α)} :
    (outcome x).Goes before transcript result after ↔ ∃ a, x.Goes before transcript a after ∧
    result = .ok a := by
  refine Dialogue.goes_bind_iff.trans ?_
  simp only [Dialogue.goes_done_iff, Prod.mk.injEq]
  constructor
  · rintro ⟨⟨a, between⟩, first, second, rfl, hfirst, rfl, rfl, rfl⟩
    exact ⟨a, by rwa [List.append_nil], rfl⟩
  · rintro ⟨a, h, rfl⟩
    exact ⟨(a, after), transcript, [], (List.append_nil _).symm, h, rfl, rfl, rfl⟩

end Serving

end LazyFrame
