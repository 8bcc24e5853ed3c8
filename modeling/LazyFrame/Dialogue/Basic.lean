/-!
# Dialogues

A computation that needs answers from its surroundings is a `Dialogue`: it is done, or it asks for
something and says how it goes on with each possible answer. What can be asked, and what the answer
to each request looks like, is an `Interface`.

Nothing happens while a dialogue is put together. It is `run` against a state that answers, or
`delegate`d to a dialogue over another interface; several of them can be served in turns, one
request at a time, because each one is a value that can be kept.
-/

namespace LazyFrame

/-- What can be asked and what the answers look like. -/
structure Interface where
  Request : Type
  Answer : Request → Type

/-- A computation that asks for things over an interface. -/
inductive Dialogue (I : Interface) (α : Type) : Type where
  | done (result : α)
  | ask (request : I.Request) (next : I.Answer request → Dialogue I α)

namespace Dialogue

variable {I J : Interface} {α β σ : Type}

/-- One dialogue after the other. -/
def bind : Dialogue I α → (α → Dialogue I β) → Dialogue I β
  | done result, f => f result
  | ask request next, f => ask request fun answer => (next answer).bind f

instance : Monad (Dialogue I) where
  pure := done
  bind := bind

/-- Asks one thing. -/
def request (r : I.Request) : Dialogue I (I.Answer r) := ask r done

/-- Lets a state answer all requests. -/
def run (serve : (r : I.Request) → σ → I.Answer r × σ) : Dialogue I α → σ → α × σ
  | done result, s => (result, s)
  | ask request next, s =>
    let (answer, s) := serve request s
    (next answer).run serve s

/-- Replaces every request by a dialogue that finds its answer. -/
def delegate (serve : (r : I.Request) → Dialogue J (I.Answer r)) : Dialogue I α → Dialogue J α
  | done result => done result
  | ask request next => (serve request).bind fun answer => (next answer).delegate serve

theorem bind_done (d : Dialogue I α) : d.bind done = d := by
  induction d with
  | done result => rfl
  | ask request next ih => simp only [bind, ih]

theorem bind_assoc {γ : Type} (d : Dialogue I α) (f : α → Dialogue I β) (g : β → Dialogue I γ) :
    (d.bind f).bind g = d.bind fun a => (f a).bind g := by
  induction d with
  | done result => rfl
  | ask request next ih => simp only [bind, ih]

instance : LawfulMonad (Dialogue I) :=
  LawfulMonad.mk' _ bind_done (fun _ _ => rfl) bind_assoc

theorem run_bind (serve : (r : I.Request) → σ → I.Answer r × σ) (d : Dialogue I α)
    (f : α → Dialogue I β) (s : σ) :
    (d.bind f).run serve s = (f (d.run serve s).1).run serve (d.run serve s).2 := by
  induction d generalizing s with
  | done result => rfl
  | ask request next ih => exact ih _ _

end Dialogue

end LazyFrame
