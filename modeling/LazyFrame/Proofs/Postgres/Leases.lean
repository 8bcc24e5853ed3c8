import LazyFrame.Postgres.Pool
import LazyFrame.Proofs.Number.Numeral
import LazyFrame.Proofs.Service.Transcript

/-!
# A client of a pool in one task

What is done on a client that a pool hands out is a `Task`: a statement under a timeout, or a
trivial query. `Course` lists the ways in which a task goes well, whatever is refused on the way:
the client is asked for, the timeout is set, the statement runs if it was, the timeout is reset, and
the client is given back; the result is that of the statement or the first refusal in front of it.

There is one more way. A refusal of the reset is put into a log line, and one that is a value
without a text cannot be (`IsMute`). Then the task ends there: its result is the fault of that
value, and nobody gives the client back. Every way that a task goes is a course or breaks off so
(`Task.goes`), and which of the two it is can be told from the exchanges (`Course.not_mute`).

At every moment of a task the exchanges so far say which client it has (`held`). A task asks for a
client only when it has none, and whatever it runs or gives back, it does with the one it has
(`Tidy`).
-/

namespace LazyFrame.Pool

/-! ## Tasks -/

/-- What is done on a client of a pool. -/
inductive Task where
  | execute (timeout : Number) (statement : String)
  | ping

namespace Task

/-- What comes of a task: the rows of a statement, or nothing. -/
abbrev Result : Task → Type
  | execute _ _ => Value
  | ping => Unit

/-- How a task is done. -/
def dialogue : (t : Task) → Dialogue interface (Attempt t.Result)
  | execute timeout statement => (Pool.execute (.number timeout) statement).run
  | ping => Pool.ping.run

end Task

/-! ## Exchanges with a pool -/

/-- The log line in front of a statement. -/
def announced (statement : String) : Exchange interface :=
  ⟨.log ⟨.info, "postgres", "sql_execute", .record [("sql", .text statement)]⟩, ()⟩

/-- The statement that sets the timeout of a client. -/
def setStatement (timeout : Number) : String := "SET statement_timeout TO " ++ timeoutText timeout

/-- The statement that resets it. -/
def resetStatement : String := "SET statement_timeout TO DEFAULT"

/-- A client is asked for. -/
def asked (answer : Attempt Nat) : Exchange interface := ⟨.connect, answer⟩

/-- A query runs on a client. -/
def ran (client : Nat) (statement : String) (positional : Bool) (answer : Attempt Value) :
    Exchange interface :=
  ⟨.query (some client) statement [] positional, answer⟩

/-- The log line for a reset that was refused. -/
def complained (message : Value) : Exchange interface :=
  ⟨.log ⟨.warn, "postgres", "statement_timeout_reset_failed", .record [("message", message)]⟩, ()⟩

/-- A client is given back. -/
def returned (client : Nat) : Exchange interface := ⟨.release client, ()⟩

/-- A reset is refused by a value that has no text. -/
def IsMute (e : Exchange interface) (fault : Fault) : Prop :=
  ∃ client refusal, e = ran client resetStatement false (.error refusal) ∧
    refusal.shown = .error fault

/-! ## Courses of a task -/

/-- The timeout of a client is reset; a refusal is logged. -/
inductive Resets (client : Nat) : List (Exchange interface) → Prop where
  | quiet (rows : Value) : Resets client [ran client resetStatement false (.ok rows)]
  | logged {refusal : Fault} {message : Value} (h : refusal.shown = .ok message) :
    Resets client [ran client resetStatement false (.error refusal), complained message]

/-- The ways in which a task goes well, with its result. -/
inductive Course : (t : Task) → List (Exchange interface) → Attempt t.Result → Prop where
  /-- There is no client. -/
  | unserved (timeout : Number) (statement : String) (refusal : Fault) :
    Course (.execute timeout statement) [announced statement, asked (.error refusal)]
      (.error refusal)
  /-- The timeout cannot be set. -/
  | unset (timeout : Number) (statement : String) (client : Nat) (refusal : Fault)
    {reset : List (Exchange interface)} (hreset : Resets client reset) :
    Course (.execute timeout statement)
      ([announced statement, asked (.ok client),
        ran client (setStatement timeout) false (.error refusal)] ++
        (reset ++ [returned client])) (.error refusal)
  /-- The statement runs. -/
  | executed (timeout : Number) (statement : String) (client : Nat) (answer : Value)
    (outcome : Attempt Value) {reset : List (Exchange interface)} (hreset : Resets client reset) :
    Course (.execute timeout statement)
      ([announced statement, asked (.ok client),
        ran client (setStatement timeout) false (.ok answer),
        ran client statement true outcome] ++ (reset ++ [returned client])) outcome
  /-- There is no client for a trivial query. -/
  | unheard (refusal : Fault) : Course .ping [asked (.error refusal)] (.error refusal)
  /-- The trivial query runs. -/
  | pinged (client : Nat) (outcome : Attempt Value) :
    Course .ping [asked (.ok client), ran client "SELECT 1" false outcome, returned client]
      (outcome.map fun _ => ())

/-! ## Refusals of a reset -/

variable {timeout : Number} {statement : String} {client : Nat}
    {transcript : List (Exchange interface)}
  {e : Exchange interface} {fault : Fault}

/-- A timeout is written as a number, never as a word. -/
theorem timeoutText_ne (timeout : Number) : timeoutText timeout ≠ "DEFAULT" := by
  -- a numeral starts with a digit
  have hnumeral : ∀ {cs : List Char}, IsNumeral cs → cs ≠ "DEFAULT".toList := by
    rintro _ ⟨hne, hwhole, -, -⟩ heq
    obtain ⟨c, whole, rfl⟩ := List.exists_cons_of_ne_nil hne
    have hdigit := hwhole c (List.mem_cons_self ..)
    rw [List.cons_append, List.cons_append] at heq
    rw [(List.cons.inj heq).1] at hdigit
    exact absurd hdigit (by decide)
  have hsigned : ∀ {s : String}, IsSigned s → s ≠ "DEFAULT" := by
    rintro _ (h | @⟨s, -⟩) heq
    · exact hnumeral h (congrArg String.toList heq)
    · have hminus := congrArg String.toList heq
      rw [String.toList_append] at hminus
      exact absurd (List.cons.inj hminus).1 (by decide)
  unfold timeoutText
  split
  · cases h : timeout.truncate with
    | nan => decide
    | infinity negative => cases negative <;> decide
    | negZero => decide
    | finite q => exact hsigned (Number.isSigned_text rfl)
  · decide

/-- Setting the timeout of statements is not resetting it. -/
theorem setStatement_ne (timeout : Number) : setStatement timeout ≠ resetStatement := by
  intro h
  have hreset : "SET statement_timeout TO DEFAULT" = "SET statement_timeout TO " ++
      "DEFAULT" := by decide
  have htexts : "SET statement_timeout TO " ++ timeoutText timeout =
      "SET statement_timeout TO " ++ "DEFAULT" :=
    h.trans hreset
  exact timeoutText_ne timeout ((String.append_right_inj _).mp htexts)

/-- Only a reset is refused without a text in this way. -/
theorem not_isMute_of_request
    (h : ∀ client, e.request ≠ .query (some client) resetStatement [] false) : ¬IsMute e fault := by
  rintro ⟨client, refusal, rfl, -⟩
  exact h client rfl

/-- Setting the timeout is not. -/
theorem not_isMute_set {answer : Attempt Value} :
    ¬IsMute (ran client (setStatement timeout) false answer) fault := by
  refine not_isMute_of_request fun client' h => ?_
  injection h with _ hstatement
  exact setStatement_ne timeout hstatement

/-- There is none up to the timeout. -/
theorem not_isMute_of_mem_set {answer : Attempt Value}
    (he : e ∈ [announced statement, asked (.ok client),
      ran client (setStatement timeout) false answer]) :
    ¬IsMute e fault := by
  simp only [List.mem_cons, List.not_mem_nil, or_false] at he
  rcases he with rfl | rfl | rfl
  · exact not_isMute_of_request nofun
  · exact not_isMute_of_request nofun
  · exact not_isMute_set

/-- There is none up to the statement. -/
theorem not_isMute_of_mem_run {answer outcome : Attempt Value}
    (he : e ∈ [announced statement, asked (.ok client),
      ran client (setStatement timeout) false answer] ++
      [ran client statement true outcome]) : ¬IsMute e fault := by
  rcases List.mem_append.mp he with he | he
  · exact not_isMute_of_mem_set he
  · rw [List.mem_singleton.mp he]
    exact not_isMute_of_request nofun

/-- A reset that went well or was logged was not refused without a text. -/
theorem Resets.not_mute {reset : List (Exchange interface)} (h : Resets client reset)
    (he : e ∈ reset) : ¬IsMute e fault := by
  cases h with
  | quiet rows =>
    rw [List.mem_singleton.mp he]
    rintro ⟨client', refusal, heq, -⟩
    cases heq
  | logged hshown =>
    rcases List.mem_pair.mp he with rfl | rfl
    · rintro ⟨client', refusal, heq, hmute⟩
      cases heq
      cases hshown.symm.trans hmute
    · exact not_isMute_of_request nofun

/-- Nor was anything that followed it. -/
theorem Resets.not_mute_behind {reset : List (Exchange interface)} (h : Resets client reset)
    (he : e ∈ reset ++ [returned client]) : ¬IsMute e fault := by
  rcases List.mem_append.mp he with he | he
  · exact h.not_mute he
  · rw [List.mem_singleton.mp he]
    exact not_isMute_of_request nofun

/-- A course has no refusal without a text of a reset. -/
theorem Course.not_mute {t : Task} {result : Attempt t.Result} (h : Course t transcript result)
    (he : e ∈ transcript) : ¬IsMute e fault := by
  -- only a reset can be mute, and each course says how its resets have gone
  cases h with
  | unserved timeout statement refusal =>
    rcases List.mem_pair.mp he with rfl | rfl
    all_goals exact not_isMute_of_request nofun
  | unset timeout statement client refusal hreset =>
    rcases List.mem_append.mp he with he | he
    · exact not_isMute_of_mem_set he
    · exact hreset.not_mute_behind he
  | executed timeout statement client rows outcome hreset =>
    rcases List.mem_append.mp he with he | he
    · exact not_isMute_of_mem_run he
    · exact hreset.not_mute_behind he
  | unheard refusal =>
    rw [List.mem_singleton.mp he]
    exact not_isMute_of_request nofun
  | pinged client outcome =>
    simp only [List.mem_cons, List.not_mem_nil, or_false] at he
    rcases he with rfl | rfl | rfl
    · exact not_isMute_of_request nofun
    · refine not_isMute_of_request fun client' h => ?_
      injection h with _ hstatement
      exact absurd hstatement (by decide)
    · exact not_isMute_of_request nofun

/-! ## How a task goes -/

/-- What is done on a client once the outcome is there. -/
def closing (client : Nat) (outcome : Attempt Value) : Asking interface Value := do
  resetTimeout client
  release client
  Asking.ofAttempt outcome

/-- The dialogue of a statement, from one question to the next. -/
theorem execute_run (timeout : Number) (statement : String) :
    (Task.execute timeout statement).dialogue =
      .ask (announced statement).request fun _ => .ask .connect fun
        | .error refusal => .done (.error refusal)
        | .ok client => .ask (.query (some client) (setStatement timeout) [] false) fun
          | .error refusal => (closing client (.error refusal)).run
          | .ok _ => .ask (.query (some client) statement [] true) fun outcome =>
            (closing client outcome).run := by
  refine congrArg (Dialogue.ask _)
    (funext fun _ => congrArg (Dialogue.ask _) (funext fun client => ?_))
  cases client with
  | error refusal => rfl
  | ok client =>
    refine congrArg (Dialogue.ask _) (funext fun answer => ?_)
    cases answer with
    | error refusal => rfl
    | ok rows => rfl

/-- Closing is a reset and then giving the client back, with the refusal logged in between. -/
theorem closing_run (client : Nat) (outcome : Attempt Value) :
    (closing client outcome).run =
      .ask (.query (some client) resetStatement [] false) fun
        | .ok _ => .ask (.release client) fun _ => .done outcome
        | .error refusal => match refusal.shown with
          | .error fault => .done (.error fault)
          | .ok message => .ask (complained message).request fun _ =>
            .ask (.release client) fun _ => .done outcome := by
  refine congrArg (Dialogue.ask _) (funext fun answer => ?_)
  cases answer with
  | ok rows => rfl
  | error refusal =>
    -- the text of the refusal may not be had, and then nothing follows
    have hshown : ∀ shown : Attempt Value,
        ((Asking.ofAttempt shown >>=
          fun message => log .warn "statement_timeout_reset_failed" [("message", message)]) >>=
            fun _ => release client >>= fun _ => Asking.ofAttempt outcome).run =
          match (shown : Attempt Value) with
          | .error fault => .done (.error fault)
          | .ok message =>
            .ask (complained message).request fun _ => .ask (.release client) fun _ =>
              .done outcome := by
      intro shown
      cases shown with
      | error fault => rfl
      | ok message => rfl
    exact hshown refusal.shown

/-- A ping is one statement on a client of its own. -/
theorem ping_run : Task.ping.dialogue =
    .ask .connect fun
      | .error refusal => .done (.error refusal)
      | .ok client => .ask (.query (some client) "SELECT 1" [] false) fun outcome =>
        .ask (.release client) fun _ => .done (outcome.map fun _ => ()) := by
  refine congrArg (Dialogue.ask _) (funext fun client => ?_)
  cases client with
  | error refusal => rfl
  | ok client =>
    refine congrArg (Dialogue.ask _) (funext fun answer => ?_)
    cases answer with
    | error refusal => rfl
    | ok rows => rfl

/-- Once the outcome of a statement is there, the timeout is reset and the client given back, unless
the reset is refused by a value without a text. -/
theorem goes_closing {outcome result : Attempt Value}
    (h : (closing client outcome).run.Goes transcript result) :
    (∃ reset, Resets client reset ∧ transcript = reset ++ [returned client] ∧ result = outcome) ∨
      ∃ e fault, IsMute e fault ∧ transcript = [e] ∧ result = .error fault := by
  rw [closing_run] at h
  obtain ⟨answer, rest, rfl, hreset⟩ := Dialogue.goes_ask_iff.mp h
  cases answer with
  | ok rows =>
    obtain ⟨_, rest, rfl, hback⟩ := Dialogue.goes_ask_iff.mp hreset
    obtain ⟨rfl, rfl⟩ := Dialogue.goes_done_iff.mp hback
    exact .inl ⟨_, .quiet rows, rfl, rfl⟩
  | error refusal =>
    cases hshown : refusal.shown with
    | error fault =>
      simp only [hshown] at hreset
      obtain ⟨rfl, rfl⟩ := Dialogue.goes_done_iff.mp hreset
      exact .inr ⟨_, fault, ⟨client, refusal, rfl, hshown⟩, rfl, rfl⟩
    | ok message =>
      simp only [hshown] at hreset
      obtain ⟨_, rest, rfl, hlogged⟩ := Dialogue.goes_ask_iff.mp hreset
      obtain ⟨_, rest, rfl, hback⟩ := Dialogue.goes_ask_iff.mp hlogged
      obtain ⟨rfl, rfl⟩ := Dialogue.goes_done_iff.mp hback
      exact .inl ⟨_, .logged hshown, rfl, rfl⟩

/-- A task that breaks off ends with the first reset that is refused by a value without a text. -/
def BreaksOff {α : Type} (transcript : List (Exchange interface)) (result : Attempt α) : Prop :=
  ∃ front e fault, (∀ e ∈ front, ∀ fault, ¬IsMute e fault) ∧ IsMute e fault ∧
    transcript = front ++ [e] ∧ result = .error fault

/-- A statement goes well or breaks off. -/
theorem goes_execute {result : Attempt Value}
    (h : (Task.execute timeout statement).dialogue.Goes transcript result) :
    Course (.execute timeout statement) transcript result ∨ BreaksOff transcript result := by
  rw [execute_run] at h
  obtain ⟨_, rest, rfl, hlogged⟩ := Dialogue.goes_ask_iff.mp h
  obtain ⟨answer, rest, rfl, hasked⟩ := Dialogue.goes_ask_iff.mp hlogged
  cases answer with
  | error refusal =>
    obtain ⟨rfl, rfl⟩ := Dialogue.goes_done_iff.mp hasked
    exact .inl (.unserved timeout statement refusal)
  | ok client =>
    obtain ⟨answer, rest, rfl, hset⟩ := Dialogue.goes_ask_iff.mp hasked
    cases answer with
    | error refusal =>
      rcases goes_closing hset with ⟨reset, hreset, rfl, rfl⟩ | ⟨e, fault, hmute, rfl, rfl⟩
      · exact .inl (.unset timeout statement client refusal hreset)
      · exact .inr ⟨_, e, fault, fun _ he _ => not_isMute_of_mem_set he, hmute, rfl, rfl⟩
    | ok rows =>
      obtain ⟨outcome, rest, rfl, hran⟩ := Dialogue.goes_ask_iff.mp hset
      rcases goes_closing hran with ⟨reset, hreset, rfl, rfl⟩ | ⟨e, fault, hmute, rfl, rfl⟩
      · exact .inl (.executed timeout statement client rows _ hreset)
      · exact .inr ⟨_, e, fault, fun _ he _ => not_isMute_of_mem_run he, hmute, rfl, rfl⟩

/-- A ping always goes well. -/
theorem goes_ping {result : Attempt Unit} (h : Task.ping.dialogue.Goes transcript result) :
    Course .ping transcript result := by
  rw [ping_run] at h
  obtain ⟨answer, rest, rfl, hasked⟩ := Dialogue.goes_ask_iff.mp h
  cases answer with
  | error refusal =>
    obtain ⟨rfl, rfl⟩ := Dialogue.goes_done_iff.mp hasked
    exact .unheard refusal
  | ok client =>
    obtain ⟨outcome, rest, rfl, hran⟩ := Dialogue.goes_ask_iff.mp hasked
    obtain ⟨_, rest, rfl, hback⟩ := Dialogue.goes_ask_iff.mp hran
    obtain ⟨rfl, rfl⟩ := Dialogue.goes_done_iff.mp hback
    exact .pinged client outcome

/-- A task goes well or breaks off. -/
theorem Task.goes {t : Task} {result : Attempt t.Result} (h : t.dialogue.Goes transcript result) :
    Course t transcript result ∨ BreaksOff transcript result := by
  cases t with
  | execute timeout statement => exact goes_execute h
  | ping => exact .inl (goes_ping h)

/-! ## The client of a task -/

/-- The client that a task is given in an exchange. -/
def obtained? : Exchange interface → Option Nat
  | ⟨.connect, .ok client⟩ => some client
  | _ => none

/-- The client that a task gives back in an exchange. -/
def given? : Exchange interface → Option Nat
  | ⟨.release client, _⟩ => some client
  | _ => none

/-- The client that a query runs on. -/
def used? : Exchange interface → Option Nat
  | ⟨.query client? _ _ _, _⟩ => client?
  | _ => none

/-- The client that a task has after an exchange. -/
def after (own : Option Nat) (e : Exchange interface) : Option Nat :=
  if (given? e).isSome then none else (obtained? e).or own

/-- The client that a task has after some exchanges. -/
def held (transcript : List (Exchange interface)) : Option Nat := transcript.foldl after none

/-- A task that has a client, or none, asks for one only if it has none, and whatever it runs or
gives back, it does with the one that it has. -/
def Fits (own : Option Nat) : Request → Prop
  | .connect => own = none
  | .release client | .query (some client) _ _ _ => own = some client
  | _ => True

/-- All requests of a dialogue fit the client it has by then. -/
def Tidy {α : Type} : Dialogue interface α → Option Nat → Prop
  | .done _, _ => True
  | .ask request next, own => Fits own request ∧
      ∀ answer, Tidy (next answer) (after own ⟨request, answer⟩)

/-- Closing is done with the client that it is for. -/
theorem tidy_closing (client : Nat) (outcome : Attempt Value) :
    Tidy (closing client outcome).run (some client) := by
  rw [closing_run]
  refine ⟨rfl, fun answer => ?_⟩
  cases answer with
  | ok rows => exact ⟨rfl, fun _ => trivial⟩
  | error refusal =>
    dsimp only
    split
    · exact trivial
    · exact ⟨trivial, fun _ => ⟨rfl, fun _ => trivial⟩⟩

/-- Every task begins without a client and does everything with the one it has. -/
theorem Task.tidy (t : Task) : Tidy t.dialogue none := by
  cases t with
  | execute timeout statement =>
    rw [execute_run]
    refine ⟨trivial, fun _ => ⟨rfl, fun answer => ?_⟩⟩
    cases answer with
    | error refusal => exact trivial
    | ok client =>
      refine ⟨rfl, fun answer => ?_⟩
      cases answer with
      | error refusal => exact tidy_closing client _
      | ok rows => exact ⟨rfl, fun outcome => tidy_closing client outcome⟩
  | ping =>
    rw [ping_run]
    refine ⟨rfl, fun answer => ?_⟩
    cases answer with
    | error refusal => exact trivial
    | ok client => exact ⟨rfl, fun _ => ⟨rfl, fun _ => trivial⟩⟩

/-- A tidy dialogue stays so. -/
theorem Tidy.reaches {α : Type} {d d' : Dialogue interface α} {own : Option Nat} (h : Tidy d own)
    (hreaches : d.Reaches transcript d') : Tidy d' (transcript.foldl after own) := by
  induction hreaches generalizing own with
  | start => exact h
  | ask answer _ ih => exact ih (h.2 answer)

/-- At the end of a course there is no client left. -/
theorem Course.held_eq_none {t : Task} {result : Attempt t.Result}
    (h : Course t transcript result) : held transcript = none := by
  have hreset {client : Nat} {reset : List (Exchange interface)} (h : Resets client reset) :
      (reset ++ [returned client]).foldl after (some client) = none := by
    cases h <;> rfl
  cases h with
  | unserved | unheard | pinged => rfl
  | unset _ _ _ _ hresets => exact hreset hresets
  | executed _ _ _ _ _ hresets => exact hreset hresets

end LazyFrame.Pool
