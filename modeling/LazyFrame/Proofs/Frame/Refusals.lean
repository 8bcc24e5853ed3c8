import LazyFrame.Proofs.Frame.Fetching
import LazyFrame.Proofs.Service.Preview
import LazyFrame.Proofs.Sql.Renders

/-!
# What a refused statement becomes

Rows, first rows, shape and the aggregates of a frame are each found by one statement
(`Frame.Retrieval`). Every such call is a fetch of its statement and something that is made of the
rows (`Retrieval.exists_made`), so what a refusal of the statement becomes is decided in the fetch
alone, and nothing is remembered of it.

The fault of the call is always a failed execution with the message of the refusal. It names the
statement that was run unless the refusal was a failed execution already: that one is passed on with
the statement it came with, if it came with one (`Retrieval.told_iff`).
-/

namespace LazyFrame

/-! ## Jobs with one statement -/

namespace Fetch

variable {α : Type} {d : Dialogue Outside.interface (Attempt α)}
    {transcript : List (Exchange Outside.interface)}
  {outcome : Attempt α}

/-- A dialogue that is followed to its end runs nothing on the way. -/
theorem goes_of_ended {a : Attempt α} (h : follow d = ⟨[], .ofOutcome a⟩)
    (hgoes : d.Goes transcript outcome) : (∀ e ∈ transcript, e.request.IsIdle) ∧ outcome = a := by
  induction hgoes with
  | done outcome => exact ⟨nofun, Progress.ofOutcome_inj (Fetch.mk.inj h).2⟩
  | @ask request next rest outcome answer hrest ih =>
    cases request with
    | log entry =>
      obtain ⟨hidle, hout⟩ := ih h
      exact ⟨List.forall_mem_cons.mpr ⟨rfl, hidle⟩, hout⟩
    | connect | listTables | listColumns | execute | ping | now =>
      exact absurd (Fetch.mk.inj h).2 ofOutcome_ne_waiting

/-- A dialogue that is followed to a statement runs that one, and goes on with the answer. -/
theorem goes_of_waiting {connection : Nat} {statement : String}
    {next : Attempt Value → Dialogue Outside.interface (Attempt α)}
    (h : follow d = ⟨[statement], .waiting (.execute connection statement) next⟩)
    (hgoes : d.Goes transcript outcome) :
    ∃ before answer behind, transcript =
      before ++ ⟨.execute connection statement, answer⟩ :: behind ∧
      (∀ e ∈ before, e.request.IsIdle) ∧ (next answer).Goes behind outcome := by
  induction hgoes with
  | done outcome => cases h
  | @ask request next rest outcome answer hrest ih =>
    cases request with
    | log entry =>
      obtain ⟨before, reply, behind, rfl, hidle, hnext⟩ := ih h
      exact ⟨_ :: before, reply, behind, rfl, List.forall_mem_cons.mpr ⟨rfl, hidle⟩, hnext⟩
    | execute connection' statement' =>
      cases h
      exact ⟨[], answer, rest, rfl, nofun, hrest⟩
    | connect | listTables | listColumns | ping | now => cases h

end Fetch

/-- A job that runs one statement, and ends with what is made of the answer. -/
def Job.Inquires {α : Type} (x : Job α) (connection : Nat) (inquiry : Inquiry α) : Prop :=
  ∀ transcript outcome, x.run.Goes transcript outcome →
    ∃ before answer behind, transcript =
      before ++ ⟨.execute connection inquiry.statement, answer⟩ :: behind ∧
      (∀ e ∈ before ++ behind, e.request.IsIdle) ∧ outcome = inquiry.read answer

namespace Job.Inquires

variable {α β : Type} {x : Job α} {connection : Nat} {inquiry : Inquiry α}

/-- What is attempted after the answer is part of what is made of it. -/
theorem bind (h : x.Inquires connection inquiry) (f : α → Attempt β) :
    Job.Inquires (x >>= fun a => Asking.ofAttempt (f a)) connection
      ⟨inquiry.statement, fun answer => inquiry.read answer >>= f⟩ := by
  intro transcript outcome hgoes
  rw [Asking.run_bind_ofAttempt] at hgoes
  obtain ⟨a, first, second, rfl, hfirst, hsecond⟩ := Dialogue.goes_bind_iff.mp hgoes
  obtain ⟨rfl, rfl⟩ := Dialogue.goes_done_iff.mp hsecond
  obtain ⟨before, answer, behind, rfl, hidle, rfl⟩ := h first a hfirst
  exact ⟨before, answer, behind, List.append_nil _, hidle, rfl⟩

/-- Nothing is run but the statement. -/
theorem executions (h : x.Inquires connection inquiry)
    {transcript : List (Exchange Outside.interface)} {outcome : Attempt α}
    (hgoes : x.run.Goes transcript outcome) :
    LazyFrame.executions transcript = [(connection, inquiry.statement)] := by
  obtain ⟨before, answer, behind, rfl, hidle, -⟩ := h transcript outcome hgoes
  obtain ⟨hbefore, hbehind⟩ := List.forall_mem_append.mp hidle
  rw [executions_append, executions_of_idle hbefore]
  exact congrArg (List.cons (connection, inquiry.statement)) (executions_of_idle hbehind)

/-- The answer to the statement decides the outcome. -/
theorem outcome_eq (h : x.Inquires connection inquiry)
    {transcript : List (Exchange Outside.interface)} {outcome : Attempt α}
    (hgoes : x.run.Goes transcript outcome) {answer : Attempt Value}
    (hanswer : ⟨.execute connection inquiry.statement, answer⟩ ∈ transcript) :
    outcome = inquiry.read answer := by
  obtain ⟨before, answer', behind, rfl, hidle, rfl⟩ := h transcript outcome hgoes
  obtain ⟨hbefore, hbehind⟩ := List.forall_mem_append.mp hidle
  rcases List.mem_append.mp hanswer with hmem | hmem
  · cases hbefore _ hmem
  · rcases List.mem_cons.mp hmem with heq | hmem
    · cases heq
      rfl
    · cases hbehind _ hmem

end Job.Inquires

theorem Frame.inquires_fetch (connection : Nat) (statement : String) :
    (Frame.fetch connection statement).Inquires connection
      ⟨statement, Frame.received statement⟩ := by
  intro transcript outcome hgoes
  obtain ⟨connection', next, hwaiting, hended⟩ := Fetch.asksOnce_fetch connection statement
  obtain ⟨before, answer, behind, rfl, hbefore, hnext⟩ := Fetch.goes_of_waiting hwaiting hgoes
  obtain ⟨hbehind, rfl⟩ := Fetch.goes_of_ended (hended answer) hnext
  cases hwaiting
  exact ⟨before, answer, behind, rfl, List.forall_mem_append.mpr ⟨hbefore, hbehind⟩, rfl⟩

/-! ## What is said about a refusal -/

namespace Fault

/-- The statement that a failed execution names. -/
def statement? : Fault → Option String
  | execution _ statement? _ => statement?
  | _ => none

/-- A refusal as a failed execution has the status and the message that it should have. It names the
statement that was run unless it was one before, of none or of another one. -/
theorem asExecution_tells {refusal : Fault} {message statement : String}
    (h : refusal.spoken = .ok message) :
    (refusal.asExecution (some statement)).kindName = "ExecutionError" ∧
      (refusal.asExecution (some statement)).statusCode = 502 ∧
      (refusal.asExecution (some statement)).message? = some (.text message) ∧
      ((refusal.asExecution (some statement)).statement? = some statement ↔
        ∀ m own cause, refusal = .execution m own cause → own = some statement) := by
  by_cases hown : ∃ m own cause, refusal = .execution m own cause
  · obtain ⟨m, own, cause, rfl⟩ := hown
    cases h
    refine ⟨rfl, rfl, rfl, ?_⟩
    constructor
    · rintro howns _ _ _ ⟨⟩
      exact howns
    · exact fun howns => howns _ own cause rfl
  · have hexecution : refusal.asExecution (some statement) =
        .execution message (some statement) (some refusal.asCause) := by
      unfold asExecution
      split
      · exact absurd ⟨_, _, _, rfl⟩ hown
      · rw [h]
    rw [hexecution]
    refine ⟨rfl, rfl, rfl, fun _ m own cause hexec =>
      absurd ⟨m, own, cause, hexec⟩ hown, fun _ => rfl⟩

end Fault

/-- What a fetch makes of a refusal that has a text. -/
theorem Frame.received_refused {refusal : Fault} {message statement : String}
    (h : refusal.spoken = .ok message) :
    received statement (.error refusal) = .error (refusal.asExecution (some statement)) := by
  rw [received, refused, h]
  rfl

/-! ## Calls that look into a frame -/

/-- The calls that find out something about what a frame holds. -/
inductive Frame.Retrieval where
  | rows
  | head (count : Value)
  | shape
  | sum (name : String)
  | mean (name : String)
  | least (name : String)
  | greatest (name : String)

namespace Frame.Retrieval

/-- What a call finds out. -/
abbrev Result : Retrieval → Type
  | rows => Value
  | head _ => Grid
  | shape => Number × Nat
  | sum _ | mean _ => Option Number
  | least _ | greatest _ => Value

/-- How a call finds it out when nothing is remembered. -/
def job (f : Frame) : (r : Retrieval) → Job r.Result
  | rows => f.rows
  | head count => f.head count
  | shape => do
    let n ← f.rowCount
    Asking.ofAttempt (.ok (n, f.columns.length))
  | sum name => f.numeric .sum name
  | mean name => f.numeric .avg name
  | least name => do
    let (_, value) ← f.scalar .min name
    Asking.ofAttempt (.ok value)
  | greatest name => do
    let (_, value) ← f.scalar .max name
    Asking.ofAttempt (.ok value)

/-- A call on a frame that remembers things, and the frame afterwards. -/
def call : (r : Retrieval) → LiveFrame → Job (Attempt r.Result × LiveFrame)
  | rows, f => do
    let (outcomes, f) ← f.rows 1
    pure (outcomes.headI, f)
  | shape, f => do
    let (outcomes, f) ← f.shape 1
    pure (outcomes.headI, f)
  | r, f => do
    let outcome ← Asking.outcome (r.job f.frame)
    pure (outcome, f)

/-- The query whose statement a call runs. -/
def query (f : Frame) : Retrieval → Attempt Query
  | rows => .ok f.plan.query
  | head count => headCount count >>= fun n => .ok (preview f.plan n)
  | shape => .ok f.plan.count
  | sum name => f.plan.aggregate .sum name
  | mean name => f.plan.aggregate .avg name
  | least name => f.plan.aggregate .min name
  | greatest name => f.plan.aggregate .max name

/-- The statement that a call runs. -/
def statement (f : Frame) (r : Retrieval) : Attempt String := r.query f >>= f.sqlOf

/-- A call asks for a number of rows that there can be, or for a column that there is. -/
def IsLegal (f : Frame) : Retrieval → Prop
  | rows | shape => True
  | head count => ∃ n, headCount count = .ok n
  | sum name | mean name | least name | greatest name => name ∈ f.columns

/-- Nothing is remembered of what a call would find out. -/
def IsFresh (f : LiveFrame) : Retrieval → Prop
  | rows => f.memo.rows = .idle
  | shape => f.memo.count = .idle
  | _ => True

/-! ## One fetch for each call -/

variable {f : Frame} {r : Retrieval} {s : String}

theorem exists_made_scalar {fn : AggregateFn} {name : String}
    (h : (f.plan.aggregate fn name >>= f.sqlOf) = .ok s) :
    ∃ g : Value → String × Value, f.scalar fn name = fetch f.connection s >>= fun rows =>
      Asking.ofAttempt (.ok (g rows)) := by
  obtain ⟨q, hq, hs⟩ := Attempt.bind_eq_ok.mp h
  refine ⟨fun rows => (s, if (firstCell rows).isAbsent then .null else firstCell rows), ?_⟩
  rw [scalar, hq, Asking.ofAttempt_ok_bind, hs, Asking.ofAttempt_ok_bind]
  rfl

/-- A call is a fetch of its statement, and something is made of the rows. -/
theorem exists_made (h : r.statement f = .ok s) :
    ∃ g : Value → Attempt r.Result, r.job f = fetch f.connection s >>= fun rows =>
      Asking.ofAttempt (g rows) := by
  -- the kinds of calls differ in their statement and in what they make of the rows
  cases r with
  | rows =>
    have hs : f.sql = .ok s := h
    refine ⟨.ok, ?_⟩
    rw [job, Frame.rows, hs, Asking.ofAttempt_ok_bind]
    exact (bind_pure _).symm
  | head count =>
    obtain ⟨_, hq, hs⟩ := Attempt.bind_eq_ok.mp h
    obtain ⟨n, hn, hq⟩ := Attempt.bind_eq_ok.mp hq
    cases hq
    refine ⟨fun rows => .ok ⟨(preview f.plan n).names, rows⟩, ?_⟩
    rw [job, Frame.head, hn, Asking.ofAttempt_ok_bind]
    dsimp only
    rw [hs, Asking.ofAttempt_ok_bind]
    rfl
  | shape =>
    obtain ⟨g, hg⟩ : ∃ g : Value → Attempt Number, f.rowCount = fetch f.connection s >>= fun rows =>
        Asking.ofAttempt (g rows) :=
      ⟨_, rowCount_eq h⟩
    refine ⟨fun rows => g rows >>= fun n => .ok (n, f.columns.length), ?_⟩
    rw [job, hg, bind_assoc]
    simp only [Asking.ofAttempt_bind_ofAttempt]
  | sum name | mean name =>
    obtain ⟨g, hg⟩ := exists_made_scalar h
    refine ⟨fun rows => (g rows).2.toNumber (g rows).1, ?_⟩
    rw [job, numeric, hg, bind_assoc]
    rfl
  | least name | greatest name =>
    obtain ⟨g, hg⟩ := exists_made_scalar h
    refine ⟨fun rows => .ok (g rows).2, ?_⟩
    rw [job, hg, bind_assoc]
    rfl

/-- What a call makes of a refusal is what its fetch makes of it. -/
theorem inquires (h : r.statement f = .ok s) :
    ∃ g : Value → Attempt r.Result,
      (r.job f).Inquires f.connection ⟨s, fun answer => received s answer >>= g⟩ := by
  obtain ⟨g, hg⟩ := exists_made h
  rw [hg]
  exact ⟨g, (inquires_fetch f.connection s).bind g⟩

/-- The outcome of a job with something put beside it. -/
theorem goes_outcome_pure {α β : Type} {x : Job α} {g : Attempt α → β}
    {transcript : List (Exchange Outside.interface)} {outcome : Attempt β}
    (h : (Asking.outcome x >>= fun a => pure (g a)).run.Goes transcript outcome) :
    ∃ a, x.run.Goes transcript a ∧ outcome = .ok (g a) := by
  obtain ⟨_, first, second, rfl, hfirst, hsecond⟩ := Asking.goes_bind_iff.mp h
  obtain ⟨a, hgoes, rfl⟩ := Asking.goes_outcome_iff.mp hfirst
  obtain ⟨rfl, rfl⟩ := Dialogue.goes_done_iff.mp hsecond
  exact ⟨a, by rwa [List.append_nil], rfl⟩

/-- The first call starts a fetch. -/
theorem ask_idle {α : Type} (fetch : Job α) :
    Slot.idle.ask 1 fetch =
      Asking.outcome fetch >>= fun outcome => pure ([outcome], (Slot.running 1).settle outcome) :=
  rfl

theorem call_rows {f : LiveFrame} (h : f.memo.rows = .idle) :
    call .rows f = Asking.outcome (job f.frame .rows) >>= fun outcome =>
      pure (outcome,
        { f with memo := { f.memo with rows := (Slot.running 1).settle outcome } }) := by
  rw [call, LiveFrame.rows, h, ask_idle, bind_assoc, bind_assoc]
  rfl

theorem call_shape {f : LiveFrame} (h : f.memo.count = .idle) :
    call .shape f = Asking.outcome f.frame.rowCount >>= fun outcome =>
      pure (outcome.map fun n => (n, f.frame.columns.length),
        { f with memo := { f.memo with count := (Slot.running 1).settle outcome } }) := by
  rw [call, LiveFrame.shape, h, ask_idle, bind_assoc, bind_assoc]
  rfl

/-- Where nothing is remembered a call does its job. A failure is not remembered either. -/
theorem goes_call {f : LiveFrame} (hfresh : r.IsFresh f)
    {transcript : List (Exchange Outside.interface)}
    {outcome : Attempt (Attempt r.Result × LiveFrame)}
    (h : (r.call f).run.Goes transcript outcome) :
    ∃ result f', outcome = .ok (result, f') ∧ (r.job f.frame).run.Goes transcript result ∧
      ((∃ fault, result = .error fault) → f' = f) := by
  cases r with
  | rows =>
    rw [call_rows hfresh] at h
    obtain ⟨a, hgoes, rfl⟩ := goes_outcome_pure h
    refine ⟨a, _, rfl, hgoes, ?_⟩
    rintro ⟨fault, rfl⟩
    have hidle : f.memo.rows = .idle := hfresh
    rw [Slot.settle, ← hidle]
  | shape =>
    rw [call_shape hfresh] at h
    obtain ⟨a, hgoes, rfl⟩ := goes_outcome_pure h
    refine ⟨_, _, rfl, ?_, ?_⟩
    · -- the number of columns is put beside the count, and that asks for nothing
      have hjob :
          (job f.frame .shape).run.Goes (transcript ++ [])
            (a >>= fun n => .ok (n, f.frame.columns.length)) := by
        rw [job, Asking.run_bind_ofAttempt]
        exact Dialogue.goes_bind_iff.mpr ⟨a, transcript, [], rfl, hgoes, .done _⟩
      rwa [List.append_nil] at hjob
    · rintro ⟨fault, hfault⟩
      have hidle : f.memo.count = .idle := hfresh
      cases a with
      | ok n => cases hfault
      | error _ => rw [Slot.settle, ← hidle]
  | head | sum | mean | least | greatest =>
    -- these remember nothing, so the frame is as it was in any case
    obtain ⟨a, hgoes, rfl⟩ := goes_outcome_pure h
    exact ⟨a, f, rfl, hgoes, fun _ => rfl⟩

/-! ## Statements that are there -/

theorem isWritable_preview {p : Plan} (h : p.query.IsWritable) (n : Number) :
    (preview p n).IsWritable := by
  obtain ⟨-, hq⟩ := Plan.slice?_eq_some.mp (slice?_eq_preview p n)
  rw [hq]
  have hunwindowed : p.unwindowed.IsWritable := by
    unfold Plan.unwindowed
    split
    · exact Plan.isWritable_opened h
    · exact h
  exact ⟨hunwindowed.source, hunwindowed.selection.outputs, hunwindowed.selection.filter⟩

/-- Every call on a frame of a session has a statement if the frame has one. -/
theorem exists_statement {c : Catalog} (hc : c.WellFormed) {plans : List Plan} {next : Nat}
    (h : Session c plans next) (hplan : f.plan ∈ plans) (hreported : f.reported = [])
    (hrenders : ∃ text, f.sql = .ok text) (hlegal : r.IsLegal f) : ∃ s, r.statement f = .ok s := by
  have hsql : ∀ q, f.sqlOf q = q.sql f.dialect := fun q => by
    rw [sqlOf, hreported]
    rfl
  have hwf : f.plan.query.WellFormed := ((h.wellFormed hc).2 f.plan hplan).1
  rw [sql, hsql, Plan.exists_sql_iff hwf] at hrenders
  -- the four aggregates differ in their function only
  have haggregate (fn : AggregateFn) {name : String} (hname : name ∈ f.columns) :
      ∃ s, (f.plan.aggregate fn name >>= f.sqlOf) = .ok s := by
    obtain ⟨q, hq⟩ := Plan.exists_aggregate fn hname
    obtain ⟨s, hs⟩ :=
      (Plan.exists_sql_aggregate_iff hwf hq f.dialect).mpr (Plan.isWritable_aggregate hrenders hq)
    exact ⟨s, Attempt.bind_eq_ok.mpr ⟨q, hq, (hsql q).trans hs⟩⟩
  cases r with
  | rows => exact ⟨_, (hsql _).trans ((Plan.exists_sql_iff hwf f.dialect).mpr hrenders).choose_spec⟩
  | head count =>
    obtain ⟨n, hn⟩ := hlegal
    have hq := slice?_eq_preview f.plan n
    obtain ⟨s, hs⟩ :=
      (Plan.exists_sql_iff (p := ⟨0, preview f.plan n⟩) (hwf.slice? hq) f.dialect).mpr
        (isWritable_preview hrenders n)
    exact ⟨s, Attempt.bind_eq_ok.mpr ⟨_, Attempt.bind_eq_ok.mpr ⟨n, hn, rfl⟩, (hsql _).trans hs⟩⟩
  | shape =>
    obtain ⟨s, hs⟩ := (Plan.exists_sql_count_iff hwf f.dialect).mpr hrenders
    exact ⟨s, (hsql _).trans hs⟩
  | sum name => exact haggregate .sum hlegal
  | mean name => exact haggregate .avg hlegal
  | least name => exact haggregate .min hlegal
  | greatest name => exact haggregate .max hlegal

/-! ## Faults that tell their statement -/

/-- A call runs its statement; a refusal that has a text is what it fails with, and it leaves the
frame as it was. -/
theorem goes_refused {f : LiveFrame} (hs : r.statement f.frame = .ok s) (hfresh : r.IsFresh f)
    {transcript : List (Exchange Outside.interface)}
    {outcome : Attempt (Attempt r.Result × LiveFrame)}
    (h : (r.call f).run.Goes transcript outcome) :
    executions transcript = [(f.frame.connection, s)] ∧
      ∀ refusal message, ⟨.execute f.frame.connection s, .error refusal⟩ ∈ transcript →
        refusal.spoken = .ok message →
        outcome = .ok (.error (refusal.asExecution (some s)), f) := by
  obtain ⟨g, hinquires⟩ := inquires hs
  obtain ⟨result, f', rfl, hjob, hkept⟩ := goes_call hfresh h
  refine ⟨hinquires.executions hjob, fun refusal message hrefused hspoken => ?_⟩
  have hresult : result = .error (refusal.asExecution (some s)) := by
    refine (hinquires.outcome_eq hjob hrefused).trans ?_
    dsimp only
    rw [received_refused hspoken]
    rfl
  rw [hkept ⟨_, hresult⟩, hresult]

/-- For every frame of a session that renders, every call runs its one statement. If that is refused
by something that has a text, the call fails as a failed execution with the message of the refusal,
and leaves the frame as it was, so that the next call runs the statement again. The fault names the
statement exactly if the refusal was no failed execution before or one of the same statement. -/
theorem told_iff {c : Catalog} (hc : c.WellFormed) {plans : List Plan} {next : Nat}
    (h : Session c plans next) {f : LiveFrame} (hplan : f.frame.plan ∈ plans)
    (hreported : f.frame.reported = []) (hrenders : ∃ text, f.frame.sql = .ok text)
    {r : Retrieval} (hlegal : r.IsLegal f.frame) (hfresh : r.IsFresh f) :
    ∃ s, r.statement f.frame = .ok s ∧
      ∀ transcript outcome, (r.call f).run.Goes transcript outcome →
      executions transcript = [(f.frame.connection, s)] ∧
      ∀ refusal message, ⟨.execute f.frame.connection s, .error refusal⟩ ∈ transcript →
        refusal.spoken = .ok message →
        ∃ fault, outcome = .ok (.error fault, f) ∧ fault.kindName = "ExecutionError" ∧
          fault.statusCode = 502 ∧ fault.message? = some (.text message) ∧
          (fault.statement? = some s ↔ ∀ m own cause, refusal = .execution m own cause →
            own = some s) := by
  obtain ⟨s, hs⟩ := exists_statement hc h hplan hreported hrenders hlegal
  refine ⟨s, hs, fun transcript outcome hgoes => ?_⟩
  obtain ⟨hexecutions, hrefused⟩ := goes_refused hs hfresh hgoes
  refine ⟨hexecutions, fun refusal message hmem hspoken => ?_⟩
  exact ⟨_, hrefused refusal message hmem hspoken, Fault.asExecution_tells hspoken⟩

/-- Surroundings in which every statement is refused. -/
def refusing (refusal : Fault) : (r : Outside.Request) → Unit → Outside.Answer r × Unit
  | .execute _ _, s => (.error refusal, s)
  | r, s => Service.oneTable 0 r s

/-- There every statement that is run is refused. -/
theorem mem_of_executions {α : Type} {d : Dialogue Outside.interface α} {refusal : Fault}
    {connection : Nat} {s : String}
    (h : executions (d.recorded (refusing refusal) ()) = [(connection, s)]) :
    ⟨.execute connection s, .error refusal⟩ ∈ d.recorded (refusing refusal) () := by
  have hmem : (connection, s) ∈ executions (d.recorded (refusing refusal) ()) :=
    h ▸ List.mem_singleton_self _
  obtain ⟨⟨request, answer⟩, he, hrequest⟩ := List.mem_filterMap.mp hmem
  cases request with
  | execute connection' s' =>
    cases hrequest
    obtain ⟨_, hanswer⟩ := Dialogue.exists_of_mem_recorded _ _ _ he
    have hrefused : answer = .error refusal := hanswer
    exact hrefused ▸ he
  | connect | listTables | listColumns | ping | log | now => cases hrequest

/-- The frame of all tracks, of which nothing is known yet. -/
def tracks : LiveFrame := .ofFrame ⟨0, .sqlite, Plan.tracks, []⟩

/-- A refused mean of a column of it: the fault names the statement. -/
theorem told_tracks :
    let t := ((mean "TrackId").call tracks).run
    Catalog.music.WellFormed ∧ Session Catalog.music [Plan.tracks] 3 ∧
    (∃ text, tracks.frame.sql = .ok text) ∧
      ∃ s fault, (mean "TrackId").statement tracks.frame = .ok s ∧
        executions (t.recorded (refusing (.plain "boom")) ()) = [(0, s)] ∧
        (t.run (refusing (.plain "boom")) ()).1 = .ok (.error fault, tracks) ∧
        fault.statement? = some s := by
  intro t
  have hrenders : ∃ text, tracks.frame.sql = .ok text := ⟨_, rfl⟩
  have hlegal : (mean "TrackId").IsLegal tracks.frame := List.mem_cons_self ..
  obtain ⟨s, hs, h⟩ :=
    told_iff Catalog.wellFormed_music Session.tracks (List.mem_cons_self ..) rfl hrenders
      hlegal trivial
  obtain ⟨hexecutions, htells⟩ := h _ _ (Dialogue.goes_recorded (refusing (.plain "boom")) _ ())
  obtain ⟨fault, houtcome, -, -, -, htold⟩ :=
    htells (.plain "boom") "boom" (mem_of_executions hexecutions) rfl
  exact ⟨Catalog.wellFormed_music, Session.tracks, hrenders, s, fault, hs, hexecutions, houtcome,
    htold.mpr nofun⟩

/-- A refusal that is a failed execution of no statement is passed on without one. -/
theorem untold_tracks :
    let refusal : Fault := .execution "boom" none none
    let t := (call rows tracks).run
    ∃ s fault, tracks.frame.sql = .ok s ∧ executions (t.recorded (refusing refusal) ()) = [(0, s)] ∧
      (t.run (refusing refusal) ()).1 = .ok (.error fault, tracks) ∧ fault.statement? ≠ some s := by
  intro refusal t
  obtain ⟨s, hs⟩ : ∃ s, tracks.frame.sql = .ok s := ⟨_, rfl⟩
  obtain ⟨hexecutions, hrefused⟩ :=
    goes_refused (r := rows) (f := tracks) hs rfl (Dialogue.goes_recorded (refusing refusal) _ ())
  exact ⟨s, refusal, hs, hexecutions,
    hrefused refusal "boom" (mem_of_executions hexecutions) rfl, nofun⟩

end Frame.Retrieval

end LazyFrame
