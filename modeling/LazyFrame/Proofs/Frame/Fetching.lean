import LazyFrame.Frame.Traffic
import LazyFrame.Proofs.Asking

/-!
# What one fetch does

The rows and the count of a frame are each found by one statement, and everything after it depends
on the answer of the database alone. `Inquiry` names the two, the statement and what is made of an
answer, and `Fetch.AsksOnce` says that a dialogue is nothing but that. `Frame.received` and
`Frame.counted` are what rows and count are made of; their failures are those of the database, and
for the count also an answer without a first cell or with one that is no number.
-/

namespace LazyFrame

/-- A statement and what is made of the answer to it. -/
structure Inquiry (α : Type) where
  statement : String
  read : Attempt Value → Attempt α

namespace Frame

/-! ## What is made of an answer -/

/-- What a fetch fails with when its statement is refused. -/
def refused (statement : String) (refusal : Fault) : Attempt Value := do
  let _ ← refusal.spoken
  .error (refusal.asExecution (some statement))

/-- The rows in an answer. Rows that are nothing at all are refused like a refusal of the
database. -/
def received (statement : String) : Attempt Value → Attempt Value
  | .error refusal => refused statement refusal
  | .ok rows =>
    match rows.extent with
    | .ok _ => .ok rows
    | .error refusal => refused statement refusal

/-- The count in an answer. -/
def counted (statement : String) (reply : Attempt Value) : Attempt Number := do
  let rows ← received statement reply
  let count? ← (firstCell rows).toNumber statement
  match count? with
  | some n => .ok n
  | none => .error (.execution "COUNT query returned no rows" (some statement) none)

theorem refused_ne_ok (statement : String) (refusal : Fault) (rows : Value) :
    refused statement refusal ≠ .ok rows := by
  intro h
  obtain ⟨_, _, h⟩ := Attempt.bind_eq_ok.mp h
  cases h

/-- Rows are received exactly from an answer with rows that are something. -/
theorem received_eq_ok {statement : String} {reply : Attempt Value} {rows : Value} :
    received statement reply = .ok rows ↔ reply = .ok rows ∧
    ∃ extent, rows.extent = .ok extent := by
  cases reply with
  | error refusal =>
    constructor
    · exact fun h => absurd h (refused_ne_ok _ _ _)
    · rintro ⟨hreply, _⟩
      cases hreply
  | ok answered =>
    rw [received]
    cases hextent : answered.extent with
    | error refusal =>
      constructor
      · exact fun h => absurd h (refused_ne_ok _ _ _)
      · rintro ⟨hrows, extent, h⟩
        rw [← Except.ok.inj hrows, hextent] at h
        cases h
    | ok extent =>
      constructor
      · intro h
        exact ⟨h, extent, by rw [← Except.ok.inj h, hextent]⟩
      · exact fun h => h.1

/-- A count is read exactly from rows whose first cell stands for that number. -/
theorem counted_eq_ok {statement : String} {reply : Attempt Value} {n : Number} :
    counted statement reply = .ok n ↔
      ∃ rows, received statement reply = .ok rows ∧ (firstCell rows).toNumber statement =
        .ok (some n) := by
  have hlast {count? : Option Number} : (match count? with
      | some n => .ok n
      | none => .error (.execution "COUNT query returned no rows" (some statement) none) :
          Attempt Number) = .ok n ↔
      count? = some n := by
    cases count? with
    | none => simp
    | some m => simp
  simp only [counted, Attempt.bind_eq_ok, hlast, exists_eq_right]

end Frame

/-! ## Dialogues with one statement -/

theorem Progress.ofOutcome_inj {α : Type} {a b : Attempt α}
    (h : Progress.ofOutcome a = .ofOutcome b) : a = b := by
  cases a with
  | ok x =>
    cases b with
    | ok y => rw [Progress.succeeded.inj h]
    | error f => cases h
  | error e =>
    cases b with
    | ok y => cases h
    | error f => rw [Progress.rejected.inj h]

namespace Fetch

variable {α β : Type}

theorem ofOutcome_ne_waiting {a : Attempt α} {request : Outside.Request}
    {next : Outside.Answer request → Dialogue Outside.interface (Attempt α)} :
    Progress.waiting request next ≠ .ofOutcome a := by
  intro h
  cases a with
  | ok value => cases h
  | error fault => cases h

/-- A dialogue that is followed to its end goes on with what comes after it. -/
theorem follow_bind_ended {d : Dialogue Outside.interface (Attempt α)} {a : Attempt α}
    (f : Attempt α → Attempt β) (h : follow d = ⟨[], .ofOutcome a⟩) :
    follow (d.bind fun outcome => .done (f outcome)) = ⟨[], .ofOutcome (f a)⟩ := by
  induction d with
  | done outcome =>
    rw [Progress.ofOutcome_inj (Fetch.mk.inj h).2]
    rfl
  | ask request next ih =>
    cases request with
    | log entry => exact ih () h
    | connect | listTables | listColumns | execute | ping | now =>
      exact absurd (Fetch.mk.inj h).2 ofOutcome_ne_waiting

/-- A dialogue that is followed to a statement waits there, too, when something comes after it. -/
theorem follow_bind_waiting {d : Dialogue Outside.interface (Attempt α)} {connection : Nat}
    {statement : String} {next : Attempt Value → Dialogue Outside.interface (Attempt α)}
    (f : Attempt α → Dialogue Outside.interface (Attempt β))
    (h : follow d = ⟨[statement], .waiting (.execute connection statement) next⟩) :
    follow (d.bind f) =
      ⟨[statement], .waiting (.execute connection statement) fun reply => (next reply).bind f⟩ := by
  induction d with
  | done outcome => cases h
  | ask request next ih =>
    cases request with
    | log entry => exact ih () h
    | execute connection' statement' =>
      cases h
      rfl
    | connect | listTables | listColumns | ping | now => cases h

/-- A dialogue that sends one statement and ends with what is made of the answer. -/
def AsksOnce (d : Dialogue Outside.interface (Attempt α)) (inquiry : Inquiry α) : Prop :=
  ∃ connection next, follow d =
    ⟨[inquiry.statement], .waiting (.execute connection inquiry.statement) next⟩ ∧
    ∀ reply, follow (next reply) = ⟨[], .ofOutcome (inquiry.read reply)⟩

/-- What is attempted after the answer is part of what is made of it. -/
theorem AsksOnce.bind {x : Job α} {inquiry : Inquiry α} (h : AsksOnce x.run inquiry)
    (f : α → Attempt β) :
    AsksOnce (x >>= fun a => Asking.ofAttempt (f a)).run
      ⟨inquiry.statement, fun reply => inquiry.read reply >>= f⟩ := by
  obtain ⟨connection, next, hwaiting, hended⟩ := h
  rw [Asking.run_bind_ofAttempt]
  exact ⟨connection, _, follow_bind_waiting _ hwaiting,
    fun reply => follow_bind_ended _ (hended reply)⟩

theorem asksOnce_fetch (connection : Nat) (statement : String) :
    AsksOnce (Frame.fetch connection statement).run ⟨statement, Frame.received statement⟩ := by
  have hrefused : ∀ refusal : Fault, follow (do
        let message ← Asking.ofAttempt refusal.spoken
        Job.log .warn "frame" "frame_fetch_failed"
          [("sql", .text statement), ("message", .text message)]
        throw (refusal.asExecution (some statement)) : Job Value).run =
      ⟨[], .ofOutcome (Frame.refused statement refusal)⟩ := by
    intro refusal
    rw [Frame.refused]
    cases refusal.spoken with
    | error fault => rfl
    | ok message => rfl
  refine ⟨connection, _, rfl, fun reply => ?_⟩
  cases reply with
  | error refusal => exact hrefused refusal
  | ok rows =>
    simp only [Frame.received, Dialogue.bind, ExceptT.bindCont, id_eq]
    cases rows.extent with
    | error refusal => exact hrefused refusal
    | ok extent => rfl

end Fetch

namespace Frame

variable {f : Frame} {statement : String}

/-! ## Rows and count -/

/-- The statement for the rows and what is made of the answer, if the statement can be written. -/
def rowsInquiry? (f : Frame) : Option (Inquiry Value) :=
  f.sql.toOption.map fun statement => ⟨statement, received statement⟩

/-- The statement for the count and what is made of the answer. -/
def countInquiry? (f : Frame) : Option (Inquiry Number) :=
  (f.sqlOf f.plan.count).toOption.map fun statement => ⟨statement, counted statement⟩

/-- The rows are fetched as they are by a frame that nobody else asks. -/
theorem rows_eq_startRows (f : Frame) : f.rows = Asking.ofAttempt f.startRows >>= id := by
  rw [rows, startRows]
  cases f.sql with
  | error fault => rfl
  | ok statement => rfl

/-- The count is a fetch of its statement, and the number is read from the rows. -/
theorem rowCount_eq (h : f.sqlOf f.plan.count = .ok statement) :
    f.rowCount = fetch f.connection statement >>= fun rows => Asking.ofAttempt (do
      let count? ← (firstCell rows).toNumber statement
      match count? with
      | some n => .ok n
      | none => .error (.execution "COUNT query returned no rows" (some statement) none)) := by
  rw [rowCount, h, Asking.ofAttempt_ok_bind]
  refine congrArg (fetch f.connection statement >>= ·) (funext fun rows => ?_)
  rw [← Asking.ofAttempt_bind_ofAttempt]
  refine congrArg (Asking.ofAttempt _ >>= ·) (funext fun count? => ?_)
  cases count? with
  | none => rfl
  | some n => rfl

theorem asksOnce_rowCount (h : f.sqlOf f.plan.count = .ok statement) :
    Fetch.AsksOnce f.rowCount.run ⟨statement, counted statement⟩ := by
  rw [rowCount_eq h]
  exact (Fetch.asksOnce_fetch f.connection statement).bind _

end Frame

end LazyFrame
