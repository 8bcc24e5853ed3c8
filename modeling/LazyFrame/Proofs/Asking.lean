import LazyFrame.Dialogue.Failing
import LazyFrame.Proofs.Attempt

/-!
# Dialogues that can fail, step by step

How a computation over an interface goes on: what it does after an attempt, and what it does after a
question. These equations take the place of unfolding the monad where a dialogue is followed from
one question to the next.
-/

namespace LazyFrame.Asking

variable {I : Interface} {α β : Type}

@[simp] theorem ofAttempt_ok_bind (a : α) (f : α → Asking I β) :
    ((ofAttempt (.ok a) : Asking I α) >>= f) = f a := rfl

/-- Attempts one after the other are one attempt. -/
theorem ofAttempt_bind_ofAttempt (a : Attempt α) (f : α → Attempt β) :
    ((ofAttempt a : Asking I α) >>= fun x => ofAttempt (f x)) = ofAttempt (a >>= f) := by
  cases a with
  | ok a => rfl
  | error e => rfl

/-- An attempt at the end of a computation changes nothing but its outcome. -/
theorem run_bind_ofAttempt (x : Asking I α) (f : α → Attempt β) :
    (x >>= fun a => ofAttempt (f a)).run = x.run.bind fun outcome => .done (outcome >>= f) := by
  refine congrArg (Dialogue.bind x.run) (funext fun outcome => ?_)
  cases outcome with
  | ok a => rfl
  | error e => rfl

/-- What is done with the answer to a question. -/
theorem run_request_bind (r : I.Request) (read : I.Answer r → Attempt α) (f : α → Asking I β) :
    (request r read >>= f).run = .ask r fun answer =>
      ((ofAttempt (read answer) : Asking I α) >>= f).run := rfl

end LazyFrame.Asking
