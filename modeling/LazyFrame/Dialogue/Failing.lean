import LazyFrame.Dialogue.Basic
import LazyFrame.Fault
import LazyFrame.Value.Text

/-!
# Dialogues that can fail

A computation over an interface may end in a fault. An answer may be a refusal, which is a fault as
well; it ends the computation unless the computation asks for the `outcome` and goes on with it.
-/

namespace LazyFrame

/-- A dialogue that can fail. -/
abbrev Asking (I : Interface) := ExceptT Fault (Dialogue I)

namespace Asking

variable {I : Interface} {α : Type}

/-- Nothing is asked. -/
def ofAttempt (a : Attempt α) : Asking I α := ExceptT.mk (.done a)

/-- Goes on with the outcome, whatever it is. -/
def outcome (t : Asking I α) : Asking I (Attempt α) :=
  ExceptT.mk (t.run.bind fun a => .done (.ok a))

/-- Asks one thing and reads the answer. -/
def request (r : I.Request) (read : I.Answer r → Attempt α) : Asking I α :=
  ExceptT.mk (.ask r fun answer => .done (read answer))

end Asking

/-! ## Refusals -/

namespace Fault

/-- What a fault says; a thrown value says its text. -/
def spoken (f : Fault) : Attempt String :=
  match f with
  | .thrown value => value.asText
  | .masked _ _ (some text) => .ok text
  | .masked _ _ none => .error .noText
  | other => (other.message?.getD .missing).asText

/-- What a log line shows of a fault: its message as it is, or the text of a thrown value. -/
def shown (f : Fault) : Attempt Value :=
  match f with
  | .thrown value => value.asText.map .text
  | .masked _ _ (some text) => .ok (.text text)
  | .masked _ _ none => .error .noText
  | other => .ok (other.message?.getD .missing)

/-- A fault as the cause of a failed execution. -/
def asCause (f : Fault) : Cause :=
  match f with
  | .thrown value | .masked value _ _ => .value value
  | other => .fault (other.message?.getD .missing)

/-- A refusal as a failed execution. One that is a failed execution already stays what it is, and
one that cannot say anything fails for that reason. -/
def asExecution (statement : Option String) (f : Fault) : Fault :=
  match f with
  | .execution message own cause => .execution message own cause
  | other =>
    match other.spoken with
    | .ok message => .execution message statement (some other.asCause)
    | .error fault => fault

end Fault

end LazyFrame
