import LazyFrame.Proofs.Frame.Fetching

/-!
# One fetch at a time

A frame keeps for each of its results the fetch that calls are given. A late failure handler empties
that cell whatever is in it, so it could make the frame forget a newer fetch; and a fetch that has
failed could stay in the cell and be given again. Neither happens, in whatever order calls, answers
and handlers come: `Line.Sound` is the invariant, that the cell holds just the one fetch that has
not failed, and that this is the newest. It is preserved by everything that can happen
(`Line.Sound.step`) and so holds of every run (`Line.Sound.run`).

What callers can rely on follows from it (`Line.Coalesced`). It holds of the rows and of the count
of a frame alike, and neither of them depends on what happens to the other.
-/

namespace LazyFrame

variable {α : Type}

/-! ## How fetches of one kind begin -/

/-- How a call starts: it fails at once, or it starts a fetch that has failed for want of a
statement, or one that sends a statement. -/
inductive Line.Starts : Attempt (Job α) → Option (Inquiry α) → Prop where
  | fails (fault : Fault) : Starts (.error fault) none
  | rejects {job : Job α} {fault : Fault} (h : Fetch.follow job.run = ⟨[], .rejected fault⟩) :
    Starts (.ok job) none
  | asks {job : Job α} {inquiry : Inquiry α} (h : Fetch.AsksOnce job.run inquiry) :
    Starts (.ok job) (some inquiry)

/-- The rows of a frame are fetched with its own statement. -/
theorem Frame.starts_rows (f : Frame) : Line.Starts f.startRows f.rowsInquiry? := by
  unfold startRows rowsInquiry?
  cases f.sql with
  | error fault => exact .fails fault
  | ok statement => exact .asks (Fetch.asksOnce_fetch _ _)

/-- The count of a frame is fetched with the statement that counts. -/
theorem Frame.starts_count (f : Frame) : Line.Starts f.startCount f.countInquiry? := by
  unfold startCount countInquiry?
  cases h : f.sqlOf f.plan.count with
  | error fault =>
    have hfollow : Fetch.follow f.rowCount.run = ⟨[], .rejected fault⟩ := by
      rw [rowCount, h]
      rfl
    exact .rejects hfollow
  | ok statement => exact .asks (asksOnce_rowCount h)

/-! ## One fetch -/

/-- A fetch of one kind: it has sent the statement of its kind, if there is one, and if it waits
then for the answer to that. -/
structure Fetch.Of (inquiry? : Option (Inquiry α)) (x : Fetch α) : Prop where
  sent : x.sent = (inquiry?.map (·.statement)).toList
  hear : x.progress.isWaiting = true → ∃ inquiry ∈ inquiry?,
    ∀ reply, x.hear reply = ⟨[inquiry.statement], .ofOutcome (inquiry.read reply)⟩

/-- What an outcome makes of a fetch has that outcome. -/
theorem Progress.outcome?_ofOutcome (a : Attempt α) : (Progress.ofOutcome a).outcome? = some a := by
  cases a with
  | ok value => rfl
  | error fault => rfl

/-- A fetch whose outcome is a value has succeeded with it. -/
theorem Progress.eq_succeeded {progress : Progress α} {value : α}
    (h : progress.outcome? = some (.ok value)) : progress = .succeeded value := by
  cases progress with
  | succeeded => rw [Except.ok.inj (Option.some.inj h)]
  | waiting | rejected | failed => cases h

namespace Fetch

variable {inquiry? : Option (Inquiry α)} {x : Fetch α}

/-- A fetch that waits for nothing hears no reply. -/
theorem hear_of_not_isWaiting (h : x.progress.isWaiting = false) (reply : Attempt Value) :
    x.hear reply = x := by
  obtain ⟨sent, progress⟩ := x
  cases progress with
  | waiting request next => cases h
  | rejected | failed | succeeded => rfl

/-- A fetch with an outcome waits for nothing. -/
theorem not_isWaiting_ofOutcome (a : Attempt α) : (Progress.ofOutcome a).isWaiting = false := by
  cases a with
  | ok value => rfl
  | error fault => rfl

/-- A fetch with an outcome has not failed before its handler has run. -/
theorem not_isFailed_ofOutcome (a : Attempt α) : (Progress.ofOutcome a).isFailed = false := by
  cases a with
  | ok value => rfl
  | error fault => rfl

/-- A fetch that waits has not failed. -/
theorem not_isFailed_of_isWaiting {progress : Progress α} (h : progress.isWaiting = true) :
    progress.isFailed = false := by
  cases progress with
  | waiting request next => rfl
  | rejected | failed | succeeded => cases h

/-- A fetch in flight has not failed. -/
theorem not_isFailed_of_isInFlight {progress : Progress α} (h : progress.isInFlight = true) :
    progress.isFailed = false := by
  cases progress with
  | waiting | rejected => rfl
  | failed | succeeded => cases h

/-- A fetch that waits is in flight. -/
theorem isInFlight_of_isWaiting {progress : Progress α} (h : progress.isWaiting = true) :
    progress.isInFlight = true := by
  cases progress with
  | waiting request next => rfl
  | rejected | failed | succeeded => cases h

/-- A fetch that has failed has a fault for its outcome. -/
theorem isFailure_of_isFailed {progress : Progress α} (h : progress.isFailed = true) :
    progress.isFailure = true := by
  cases progress with
  | failed fault => rfl
  | waiting | rejected | succeeded => cases h

/-- A fetch that is not in flight waits for nothing. -/
theorem not_isWaiting_of_not_isInFlight {progress : Progress α} (h : progress.isInFlight = false) :
    progress.isWaiting = false := by
  cases progress with
  | waiting request next => cases h
  | rejected | failed | succeeded => rfl

/-- A fetch that has just been started. -/
theorem Of.follow {job : Job α} (h : Line.Starts (.ok job) inquiry?) :
    (Fetch.follow job.run).Of inquiry? ∧ (Fetch.follow job.run).progress.isFailed = false := by
  cases h with
  | rejects h =>
    rw [h]
    exact ⟨⟨rfl, fun hwaiting => absurd hwaiting Bool.false_ne_true⟩, rfl⟩
  | @asks _ inquiry h =>
    obtain ⟨connection, next, hwaiting, hended⟩ := h
    rw [hwaiting]
    refine ⟨⟨rfl, fun _ => ⟨inquiry, rfl, fun reply => ?_⟩⟩, rfl⟩
    show (⟨[inquiry.statement] ++ (Fetch.follow (next reply)).sent,
      (Fetch.follow (next reply)).progress⟩ : Fetch α) = _
    rw [hended]
    rfl

/-- A fetch that has just begun is in flight. -/
theorem Of.isInFlight_follow {job : Job α} (h : Line.Starts (.ok job) inquiry?) :
    (Fetch.follow job.run).progress.isInFlight = true := by
  cases h with
  | rejects h =>
    rw [h]
    rfl
  | asks h =>
    obtain ⟨connection, next, hwaiting, _⟩ := h
    rw [hwaiting]
    rfl

/-- An answer, in time or not. -/
theorem Of.answered (h : x.Of inquiry?) (reply : Attempt Value) :
    (x.hear reply).Of inquiry? ∧ (x.hear reply).progress.isFailed = x.progress.isFailed := by
  cases hwaiting : x.progress.isWaiting with
  | false =>
    rw [hear_of_not_isWaiting hwaiting]
    exact ⟨h, rfl⟩
  | true =>
    obtain ⟨inquiry, hinquiry, hear⟩ := h.hear hwaiting
    rw [hear, not_isFailed_of_isWaiting hwaiting, Option.mem_def.mp hinquiry]
    refine ⟨⟨rfl, fun hstill => ?_⟩, not_isFailed_ofOutcome _⟩
    rw [not_isWaiting_ofOutcome] at hstill
    cases hstill

end Fetch

/-! ## The invariant -/

/-- The cell holds just the one fetch that has not failed, which is the newest, and calls were given
fetches that were started. -/
structure Line.Sound (start : Attempt (Job α)) (inquiry? : Option (Inquiry α))
    (line : Line α) : Prop where
  started : ∀ fault, start = .error fault → line.fetches = []
  kind : ∀ (i : Nat) (x : Fetch α), line.fetches[i]? = some x → x.Of inquiry?
  cell : ∀ (i : Nat) (x : Fetch α), line.fetches[i]? = some x →
  (x.progress.isFailed = false ↔ line.cell = some i)
  newest : ∀ n, line.cell = some n → n + 1 = line.fetches.length
  tickets : ∀ n, .fetch n ∈ line.tickets → n < line.fetches.length

/-- Whether a call was given the fetch of a number. -/
def Ticket.isFor (number : Nat) : Ticket → Bool
  | .fetch other => other == number
  | .fault _ => false

namespace Line

variable {start : Attempt (Job α)} {inquiry? : Option (Inquiry α)} {line : Line α}

/-- A line without calls is sound. -/
theorem Sound.empty : (Line.empty : Line α).Sound start inquiry? where
  started _ _ := rfl
  kind _ _ h := by cases h
  cell _ _ h := by cases h
  newest _ h := by cases h
  tickets _ h := by cases h

/-- While a fetch is in the cell, a call gets that fetch and starts nothing. -/
theorem call_of_some {n : Nat} (h : line.cell = some n) :
    line.call start = { line with tickets := line.tickets ++ [.fetch n] } := by
  unfold call
  rw [h]

/-- With nothing in the cell, a call starts a fetch and puts it there. -/
theorem call_of_none {job : Job α} (h : line.cell = none) :
    line.call (.ok job) = ⟨some line.fetches.length, line.fetches ++ [Fetch.follow job.run],
      line.tickets ++ [.fetch line.fetches.length]⟩ := by
  unfold call
  rw [h]

/-- With nothing in the cell, a call that can start no fetch is told why. -/
theorem call_of_none_error {fault : Fault} (h : line.cell = none) :
    line.call (.error fault) = { line with tickets := line.tickets ++ [.fault fault] } := by
  unfold call
  rw [h]

/-- A call may be given any fetch that was started. -/
theorem Sound.tell (h : line.Sound start inquiry?) {ticket : Ticket}
    (hticket : ∀ n, ticket = .fetch n → n < line.fetches.length) :
    ({ line with tickets := line.tickets ++ [ticket] } : Line α).Sound start inquiry? := by
  refine ⟨h.started, h.kind, h.cell, h.newest, fun n hn => ?_⟩
  rcases List.mem_append.mp hn with hold | hnew
  · exact h.tickets n hold
  · exact hticket n (List.mem_singleton.mp hnew).symm

/-- A fetch that starts while the cell is empty stands at the end, and all before it have failed. -/
theorem Sound.begin {job : Job α} (hstart : Starts (.ok job) inquiry?)
    (h : line.Sound (.ok job) inquiry?) (hcell : line.cell = none) :
    (⟨some line.fetches.length, line.fetches ++ [Fetch.follow job.run], line.tickets⟩ :
      Line α).Sound (.ok job) inquiry? := by
  obtain ⟨hof, hfresh⟩ := Fetch.Of.follow hstart
  -- a fetch is one of the old ones or the one that starts
  have hat : ∀ i x, (line.fetches ++ [Fetch.follow job.run])[i]? = some x →
      (line.fetches[i]? = some x ∧ i < line.fetches.length) ∨
        (i = line.fetches.length ∧ x = Fetch.follow job.run) := by
    intro i x hx
    rcases Nat.lt_trichotomy i line.fetches.length with hlt | rfl | hgt
    · rw [List.getElem?_append_left hlt] at hx
      exact .inl ⟨hx, hlt⟩
    · rw [List.getElem?_concat_length] at hx
      exact .inr ⟨rfl, (Option.some.inj hx).symm⟩
    · rw [List.getElem?_eq_none (by simp; omega)] at hx
      cases hx
  refine ⟨fun fault hfault => ?_, fun i x hx => ?_, fun i x hx => ?_, fun n hn => ?_,
    fun n hn => ?_⟩
  · cases hfault
  · rcases hat i x hx with ⟨hold, _⟩ | ⟨_, rfl⟩
    · exact h.kind i x hold
    · exact hof
  · rcases hat i x hx with ⟨hold, hlt⟩ | ⟨rfl, rfl⟩
    · rw [h.cell i x hold, hcell]
      simp only [reduceCtorEq, Option.some.injEq, false_iff]
      omega
    · exact ⟨fun _ => rfl, fun _ => hfresh⟩
  · cases hn
    simp
  · rw [List.length_append]
    exact Nat.lt_succ_of_lt (h.tickets n hn)

/-- Where a fetch is in the cell, a call is given that one; else it starts the next one, unless it
fails at once. -/
theorem Sound.call (hstart : Starts start inquiry?) (h : line.Sound start inquiry?) :
    (line.call start).Sound start inquiry? := by
  cases hcell : line.cell with
  | some n =>
    rw [call_of_some hcell]
    refine h.tell fun m hm => ?_
    rw [← Ticket.fetch.inj hm]
    exact Nat.lt_of_succ_le (Nat.le_of_eq (h.newest n hcell))
  | none =>
    cases start with
    | error fault =>
      rw [call_of_none_error hcell]
      refine h.tell fun n hn => ?_
      cases hn
    | ok job =>
      rw [call_of_none hcell]
      refine (h.begin hstart hcell).tell fun n hn => ?_
      rw [← Ticket.fetch.inj hn, List.length_append]
      exact Nat.lt_succ_self _

/-- A reply changes no fetch but the one that it is for. -/
theorem exists_of_answer {number i : Nat} {reply : Attempt Value} {y : Fetch α}
    (h : (line.answer number reply).fetches[i]? = some y) :
    ∃ x, line.fetches[i]? = some x ∧ (y = x ∨ y = x.hear reply) := by
  rw [answer, List.getElem?_modify] at h
  obtain ⟨x, hx, rfl⟩ := Option.map_eq_some_iff.mp h
  refine ⟨x, hx, ?_⟩
  split
  · exact .inr rfl
  · exact .inl rfl

/-- An answer leaves open whether the handler of its fetch runs. -/
theorem Sound.answer (h : line.Sound start inquiry?) (number : Nat) (reply : Attempt Value) :
    (line.answer number reply).Sound start inquiry? := by
  have hlength : (line.answer number reply).fetches.length = line.fetches.length :=
    List.length_modify ..
  refine ⟨fun fault hfault => ?_, fun i y hy => ?_, fun i y hy => ?_, fun n hn => ?_,
    fun n hn => ?_⟩
  · exact List.eq_nil_of_length_eq_zero
      (hlength.trans (congrArg List.length (h.started fault hfault)))
  · obtain ⟨x, hx, rfl | rfl⟩ := exists_of_answer hy
    · exact h.kind i y hx
    · exact ((h.kind i x hx).answered reply).1
  · obtain ⟨x, hx, rfl | rfl⟩ := exists_of_answer hy
    · exact h.cell i y hx
    · rw [((h.kind i x hx).answered reply).2]
      exact h.cell i x hx
  · rw [hlength]
    exact h.newest n hn
  · rw [hlength]
    exact h.tickets n hn

/-- The handler of a rejected fetch finds that fetch in the cell, so it makes the frame forget no
other. -/
theorem Sound.handle (h : line.Sound start inquiry?) (number : Nat) :
    (line.handle number).Sound start inquiry? := by
  unfold Line.handle
  split
  next sent fault hx =>
    -- its handler has not run yet, so this fetch is still the one in the cell
    have hcell : line.cell = some number := (h.cell number _ hx).mp rfl
    -- only this fetch changes
    have hat : ∀ i y, (line.fetches.set number ⟨sent, .failed fault⟩)[i]? = some y →
        (i = number ∧ y = ⟨sent, .failed fault⟩) ∨ (i ≠ number ∧ line.fetches[i]? = some y) := by
      intro i y hy
      by_cases hi : number = i
      · subst hi
        rw [List.getElem?_set_self (List.getElem?_eq_some_iff.mp hx).1] at hy
        exact .inl ⟨rfl, (Option.some.inj hy).symm⟩
      · rw [List.getElem?_set_ne hi] at hy
        exact .inr ⟨Ne.symm hi, hy⟩
    refine ⟨fun fault hfault => ?_, fun i y hy => ?_, fun i y hy => ?_, fun n hn => ?_,
      fun n hn => ?_⟩
    · rw [h.started fault hfault] at hx
      cases hx
    · rcases hat i y hy with ⟨rfl, rfl⟩ | ⟨_, hold⟩
      · exact ⟨(h.kind i _ hx).sent, fun hwaiting => absurd hwaiting Bool.false_ne_true⟩
      · exact h.kind i y hold
    · rcases hat i y hy with ⟨rfl, rfl⟩ | ⟨hne, hold⟩
      · refine ⟨fun hfailed => ?_, fun hnone => ?_⟩
        · cases hfailed
        · cases hnone
      · rw [h.cell i y hold, hcell]
        simp [Ne.symm hne]
    · cases hn
    · rw [List.length_set]
      exact h.tickets n hn
  next => exact h

/-- Whatever happens next keeps a line sound. -/
theorem Sound.step (hstart : Starts start inquiry?) (h : line.Sound start inquiry?)
    (happening : Happening) : (line.step start happening).Sound start inquiry? := by
  cases happening with
  | call => exact h.call hstart
  | answer number reply => exact h.answer number reply
  | handle number => exact h.handle number

/-- Whatever happens keeps a line sound, by induction on what happens. -/
theorem Sound.run (hstart : Starts start inquiry?) (h : line.Sound start inquiry?)
    (happenings : List Happening) : (line.run start happenings).Sound start inquiry? := by
  induction happenings generalizing line with
  | nil => exact h
  | cons first rest ih => exact ih (h.step hstart first)

/-! ## What callers can rely on -/

/-- The failures of fetches that have sent a statement. -/
def failures (line : Line α) : Nat :=
  line.fetches.countP fun x => !x.sent.isEmpty && x.progress.isFailure

/-- What callers of one kind can rely on, whatever has happened so far. -/
structure Coalesced (start : Attempt (Job α)) (inquiry? : Option (Inquiry α))
    (line : Line α) : Prop where
  /-- At most one fetch is in flight. -/
  single : ∀ (m n : Nat) (x y : Fetch α), line.fetches[m]? = some x → line.fetches[n]? = some y →
    x.progress.isInFlight = true → y.progress.isInFlight = true → m = n
  /-- A call that comes meanwhile sends nothing and is given that fetch. -/
  joins : ∀ (n : Nat) (x : Fetch α), line.fetches[n]? = some x → x.progress.isInFlight = true →
    line.call start = { line with tickets := line.tickets ++ [.fetch n] }
  /-- An answer that is waited for is made into the outcome of its fetch. -/
  answers : ∀ (n : Nat) (x : Fetch α), line.fetches[n]? = some x → x.progress.isWaiting = true →
    ∃ inquiry ∈ inquiry?, ∀ reply, (line.answer n reply).outcome? (.fetch n) =
      some (inquiry.read reply)
  /-- After a success nothing is ever sent again: only calls change anything, and they are given
  that fetch. -/
  keeps : ∀ (n : Nat) (value : α), line.outcome? (.fetch n) = some (.ok value) → ∀ later,
    line.run start later =
      { line with
        tickets := line.tickets ++ List.replicate (later.countP Happening.isCall) (.fetch n) }
  /-- When the handler of a fetch that was rejected has run, the next call sends the statement
  again. -/
  retries : ∀ (n : Nat) (sent : List String) (fault : Fault), line.fetches[n]? =
    some ⟨sent, .rejected fault⟩ →
    ((line.handle n).call start).sent = line.sent ++ (inquiry?.map (·.statement)).toList ∧
      ((line.handle n).call start).tickets = line.tickets ++ [.fetch line.fetches.length]
  /-- So it does whenever the newest fetch has failed. -/
  starts : ∀ x, line.fetches.getLast? = some x → x.progress.isFailed = true →
    (line.call start).sent = line.sent ++ (inquiry?.map (·.statement)).toList ∧
      (line.call start).tickets = line.tickets ++ [.fetch line.fetches.length]
  /-- Every statement is the one of this kind. -/
  sent : ∀ s ∈ line.sent, ∃ inquiry ∈ inquiry?, s = inquiry.statement
  /-- There are as many statements as failures, and at most one more. -/
  sent_length : line.failures ≤ line.sent.length ∧ line.sent.length ≤ line.failures + 1
  /-- No failure is remembered: the fetch that the next call is given has not failed. -/
  forgets : ∀ n, line.cell = some n → ∃ x, line.fetches[n]? = some x ∧ x.progress.isFailed = false

/-- The fetches before the newest have failed. -/
theorem Sound.failed_of_append (h : line.Sound start inquiry?) {init : List (Fetch α)}
    {last : Fetch α} (hfetches : line.fetches = init ++ [last]) :
    ∀ x ∈ init, x.progress.isFailed = true := by
  intro x hx
  obtain ⟨i, hi⟩ := List.mem_iff_getElem?.mp hx
  have hlt := (List.getElem?_eq_some_iff.mp hi).1
  have hat : line.fetches[i]? = some x := by
    rw [hfetches, List.getElem?_append_left hlt, hi]
  by_contra hfailed
  have hnewest := h.newest i ((h.cell i x hat).mp (by simpa using hfailed))
  rw [hfetches, List.length_append, List.length_singleton] at hnewest
  omega

/-- A fetch in flight is the one in the cell. -/
theorem Sound.cell_of_isInFlight (h : line.Sound start inquiry?) {n : Nat} {x : Fetch α}
    (hx : line.fetches[n]? = some x) (hflight : x.progress.isInFlight = true) :
    line.cell = some n :=
  (h.cell n x hx).mp (Fetch.not_isFailed_of_isInFlight hflight)

/-- Nothing is in the cell when the last fetch has failed. -/
theorem Sound.cell_of_last_failed (h : line.Sound start inquiry?) {x : Fetch α}
    (hlast : line.fetches.getLast? = some x) (hfailed : x.progress.isFailed = true) :
    line.cell = none := by
  cases hcell : line.cell with
  | none => rfl
  | some n =>
    have hn : line.fetches[n]? = some x := by
      rw [← hlast, List.getLast?_eq_getElem?, ← h.newest n hcell, Nat.add_sub_cancel]
    rw [(h.cell n x hn).mpr hcell] at hfailed
    cases hfailed

/-- Where no fetch is in flight and one is in the cell, calls are all that ever changes anything. -/
theorem run_of_settled {n : Nat} (hcell : line.cell = some n)
    (hsettled : ∀ x ∈ line.fetches, x.progress.isInFlight = false) (later : List Happening) :
    line.run start later =
      { line with
        tickets := line.tickets ++
          List.replicate (later.countP Happening.isCall) (.fetch n) } := by
  induction later generalizing line with
  | nil => simp [run]
  | cons first rest ih =>
    show (line.step start first).run start rest = _
    cases first with
    | call =>
      rw [step, call_of_some hcell]
      refine (@ih { line with tickets := line.tickets ++ [.fetch n] } hcell hsettled).trans ?_
      rw [List.append_assoc, List.singleton_append, ← List.replicate_succ,
        List.countP_cons_of_pos rfl]
    | answer number reply =>
      -- nobody waits for an answer
      have hsame : line.answer number reply = line := by
        have hfetches : line.fetches.modify number (Fetch.hear reply) = line.fetches := by
          refine List.ext_getElem? fun i => ?_
          rw [List.getElem?_modify]
          cases hx : line.fetches[i]? with
          | none => rfl
          | some x =>
            have hidle :=
              Fetch.not_isWaiting_of_not_isInFlight (hsettled x (List.mem_of_getElem? hx))
            show some (if number = i then Fetch.hear reply x else x) = some x
            rw [Fetch.hear_of_not_isWaiting hidle, ite_self]
        rw [Line.answer, hfetches]
      rw [step, hsame, ih hcell hsettled, List.countP_cons_of_neg Bool.false_ne_true]
    | handle number =>
      have hsame : line.handle number = line := by
        unfold Line.handle
        split
        next sent fault hx => cases hsettled _ (List.mem_of_getElem? hx)
        next => rfl
      rw [step, hsame, ih hcell hsettled, List.countP_cons_of_neg Bool.false_ne_true]

/-- Of all fetches only the newest may have come to no failure. -/
theorem Sound.length_le (h : line.Sound start inquiry?) :
    line.fetches.length ≤ line.fetches.countP (fun x => x.progress.isFailure) + 1 := by
  rcases List.eq_nil_or_concat line.fetches with hnil | ⟨init, last, hconcat⟩
  · rw [hnil]
    exact Nat.zero_le _
  · rw [List.concat_eq_append] at hconcat
    have hinit : init.countP (fun x => x.progress.isFailure) = init.length :=
      List.countP_eq_length.mpr fun x hx =>
        Fetch.isFailure_of_isFailed (h.failed_of_append hconcat x hx)
    rw [hconcat, List.countP_append, hinit, List.length_append, List.length_singleton]
    omega

/-- There are as many statements as failures, and at most one more. -/
theorem Sound.sent_length (h : line.Sound start inquiry?) :
    line.failures ≤ line.sent.length ∧ line.sent.length ≤ line.failures + 1 := by
  have hsent : ∀ x ∈ line.fetches, x.sent = (inquiry?.map (·.statement)).toList := fun x hx => by
    obtain ⟨i, hi⟩ := List.mem_iff_getElem?.mp hx
    exact (h.kind i x hi).sent
  have hlength : line.sent.length =
      (line.fetches.map fun _ => (inquiry?.map (·.statement)).toList.length).sum := by
    rw [Line.sent, List.length_flatMap]
    exact congrArg List.sum (List.map_congr_left fun x hx => congrArg List.length (hsent x hx))
  cases inquiry? with
  | none =>
    have hnone : line.failures = 0 := List.countP_eq_zero.mpr fun x hx => by simp [hsent x hx]
    rw [hlength, hnone]
    simp
  | some inquiry =>
    have hfailures : line.failures = line.fetches.countP fun x => x.progress.isFailure :=
      List.countP_congr fun x hx => by simp [hsent x hx]
    have hone : line.sent.length = line.fetches.length := by
      rw [hlength]
      simp
    rw [hone, hfailures]
    exact ⟨List.countP_le_length, h.length_le⟩

/-- A handler sends nothing and answers nobody. -/
theorem handle_keeps (n : Nat) :
    (line.handle n).sent = line.sent ∧ (line.handle n).tickets = line.tickets ∧
    (line.handle n).fetches.length = line.fetches.length := by
  unfold Line.handle
  split
  next sent fault hx =>
    refine ⟨?_, rfl, List.length_set⟩
    obtain ⟨hlt, hat⟩ := List.getElem?_eq_some_iff.mp hx
    have hlt : n < (line.fetches.map (·.sent)).length := by simpa using hlt
    have hsame : sent = (line.fetches.map (·.sent))[n] := by simp [hat]
    rw [Line.sent, Line.sent, List.flatMap_def, List.flatMap_def, List.map_set]
    show ((line.fetches.map (·.sent)).set n sent).flatten = _
    rw [hsame, List.set_getElem_self]
  next => exact ⟨rfl, rfl, rfl⟩

/-- The handler of a fetch that was rejected empties the cell. -/
theorem cell_handle_of_rejected {n : Nat} {sent : List String} {fault : Fault}
    (h : line.fetches[n]? = some ⟨sent, .rejected fault⟩) : (line.handle n).cell = none := by
  unfold Line.handle
  rw [h]

/-- A call for which the frame has no fetch starts one and sends the statement. -/
theorem Sound.call_of_none (hstart : Starts start inquiry?) (h : line.Sound start inquiry?)
    (hne : line.fetches ≠ []) (hcell : line.cell = none) :
    (line.call start).sent = line.sent ++ (inquiry?.map (·.statement)).toList ∧
      (line.call start).tickets = line.tickets ++ [.fetch line.fetches.length] := by
  cases start with
  | error fault => exact absurd (h.started fault rfl) hne
  | ok job =>
    rw [Line.call_of_none hcell, Line.sent, List.flatMap_append, List.flatMap_singleton,
      (Fetch.Of.follow hstart).1.sent]
    exact ⟨rfl, rfl⟩

/-- Once the handler of a rejected fetch has run, the next call sends the statement again. -/
theorem Sound.retries (hstart : Starts start inquiry?) (h : line.Sound start inquiry?) {n : Nat}
    {sent : List String} {fault : Fault} (hx : line.fetches[n]? = some ⟨sent, .rejected fault⟩) :
    ((line.handle n).call start).sent = line.sent ++ (inquiry?.map (·.statement)).toList ∧
      ((line.handle n).call start).tickets = line.tickets ++ [.fetch line.fetches.length] := by
  obtain ⟨hsent, htickets, hlength⟩ := line.handle_keeps n
  have hne : (line.handle n).fetches ≠ [] := by
    intro hnil
    rw [hnil] at hlength
    rw [List.eq_nil_of_length_eq_zero hlength.symm] at hx
    cases hx
  have hcall := (h.handle n).call_of_none hstart hne (cell_handle_of_rejected hx)
  rwa [hsent, htickets, hlength] at hcall

/-- A sound line coalesces its calls. -/
theorem Sound.coalesced (hstart : Starts start inquiry?) (h : line.Sound start inquiry?) :
    line.Coalesced start inquiry? where
  single m n x y hx hy hflightx hflighty :=
    Option.some.inj
      ((h.cell_of_isInFlight hx hflightx).symm.trans (h.cell_of_isInFlight hy hflighty))
  joins n x hx hflight := call_of_some (h.cell_of_isInFlight hx hflight)
  answers n x hx hwaiting := by
    obtain ⟨inquiry, hinquiry, hhear⟩ := (h.kind n x hx).hear hwaiting
    refine ⟨inquiry, hinquiry, fun reply => ?_⟩
    rw [Line.outcome?, Line.answer, List.getElem?_modify_eq, hx]
    show (x.hear reply).progress.outcome? = _
    rw [hhear, Progress.outcome?_ofOutcome]
  keeps n value hvalue later := by
    obtain ⟨x, hx, hvalue⟩ := Option.bind_eq_some_iff.mp hvalue
    have hsucceeded := Progress.eq_succeeded hvalue
    have hcell : line.cell = some n := (h.cell n x hx).mp (by rw [hsucceeded]; rfl)
    refine run_of_settled hcell (fun y hy => ?_) later
    obtain ⟨i, hi⟩ := List.mem_iff_getElem?.mp hy
    by_contra hflight
    -- what is in flight is in the cell, where the one that succeeded is
    have hsame := h.cell_of_isInFlight hi (by simpa using hflight)
    obtain rfl : n = i := Option.some.inj (hcell.symm.trans hsame)
    obtain rfl := Option.some.inj (hx.symm.trans hi)
    rw [hsucceeded] at hflight
    exact hflight rfl
  retries n sent fault hx := h.retries hstart hx
  starts x hlast hfailed := by
    refine h.call_of_none hstart (fun hnil => ?_) (h.cell_of_last_failed hlast hfailed)
    rw [hnil] at hlast
    cases hlast
  sent s hs := by
    obtain ⟨x, hx, hs⟩ := List.mem_flatMap.mp hs
    obtain ⟨i, hi⟩ := List.mem_iff_getElem?.mp hx
    rw [(h.kind i x hi).sent, Option.mem_toList, Option.map_eq_some_iff] at hs
    obtain ⟨inquiry, hinquiry, rfl⟩ := hs
    exact ⟨inquiry, hinquiry, rfl⟩
  sent_length := h.sent_length
  forgets n hn := by
    have hlt : n < line.fetches.length := Nat.lt_of_succ_le (Nat.le_of_eq (h.newest n hn))
    have hx := List.getElem?_eq_getElem hlt
    exact ⟨_, hx, (h.cell n _ hx).mpr hn⟩

/-! ## Slots -/

/-- What a frame remembers of one of its results, as a slot. -/
def slot (line : Line α) : Slot α :=
  match line.cell with
  | none => .idle
  | some n =>
    match line.fetches[n]?.map Fetch.progress with
    | some (.succeeded value) => .held value
    | _ => .running (line.tickets.countP (Ticket.isFor n))

/-- Nothing in the cell is an idle slot. -/
theorem slot_of_none (h : line.cell = none) : line.slot = .idle := by
  unfold slot
  rw [h]

/-- A fetch in the cell that has succeeded is a held value. -/
theorem slot_of_succeeded {n : Nat} {x : Fetch α} {value : α} (h : line.cell = some n)
    (hx : line.fetches[n]? = some x) (hvalue : x.progress = .succeeded value) :
    line.slot = .held value := by
  unfold slot
  rw [h]
  simp only [hx, Option.map_some, hvalue]

/-- A fetch in flight in the cell is a running slot for all that have its ticket. -/
theorem slot_of_isInFlight {n : Nat} {x : Fetch α} (h : line.cell = some n)
    (hx : line.fetches[n]? = some x) (hflight : x.progress.isInFlight = true) :
    line.slot = .running (line.tickets.countP (Ticket.isFor n)) := by
  unfold slot
  rw [h]
  simp only [hx, Option.map_some]
  cases hprogress : x.progress with
  | waiting | rejected | failed => rfl
  | succeeded value =>
    rw [hprogress] at hflight
    cases hflight

/-- One more ticket for a fetch counts once. -/
theorem countP_isFor_append (n : Nat) (tickets : List Ticket) :
    (tickets ++ [Ticket.fetch n]).countP (Ticket.isFor n) =
      tickets.countP (Ticket.isFor n) + 1 := by
  simp [List.countP_append, Ticket.isFor]

/-- A call is a call on the slot. -/
theorem Sound.slot_call {job : Job α} (hstart : Starts (.ok job) inquiry?)
    (h : line.Sound (.ok job) inquiry?) : (line.call (.ok job)).slot = line.slot.call.1 := by
  cases hcell : line.cell with
  | some n =>
    rw [call_of_some hcell]
    obtain ⟨x, hx, hfailed⟩ := (h.coalesced hstart).forgets n hcell
    cases hprogress : x.progress with
    | succeeded value =>
      rw [slot_of_succeeded hcell hx hprogress]
      exact slot_of_succeeded hcell hx hprogress
    | waiting | rejected =>
      have hflight : x.progress.isInFlight = true := by
        rw [hprogress]
        rfl
      rw [slot_of_isInFlight hcell hx hflight]
      refine (@slot_of_isInFlight _ { line with tickets := line.tickets ++ [.fetch n] } n x hcell hx
        hflight).trans ?_
      exact congrArg Slot.running (countP_isFor_append n _)
    | failed fault =>
      rw [hprogress] at hfailed
      cases hfailed
  | none =>
    rw [Line.call_of_none hcell, slot_of_none hcell]
    -- no ticket is for a fetch that has not been started
    have hold : line.tickets.countP (Ticket.isFor line.fetches.length) = 0 := by
      refine List.countP_eq_zero.mpr fun ticket hticket => ?_
      cases ticket with
      | fault fault => exact Bool.false_ne_true
      | fetch n =>
        have hlt := h.tickets n hticket
        simpa [Ticket.isFor] using Nat.ne_of_lt hlt
    refine (slot_of_isInFlight rfl List.getElem?_concat_length
      (Fetch.Of.isInFlight_follow hstart)).trans ?_
    rw [countP_isFor_append, hold]
    rfl

/-- An answer that is waited for settles the slot once the handler has run. -/
theorem Sound.slot_answer (h : line.Sound start inquiry?) {n : Nat} {x : Fetch α}
    (hx : line.fetches[n]? = some x) (hwaiting : x.progress.isWaiting = true) :
    ∃ inquiry ∈ inquiry?, ∀ reply, ((line.answer n reply).handle n).slot =
      line.slot.settle (inquiry.read reply) := by
  have hflight := Fetch.isInFlight_of_isWaiting hwaiting
  have hcell := h.cell_of_isInFlight hx hflight
  obtain ⟨inquiry, hinquiry, hhear⟩ := (h.kind n x hx).hear hwaiting
  refine ⟨inquiry, hinquiry, fun reply => ?_⟩
  have hanswered : (line.answer n reply).fetches[n]? =
      some ⟨[inquiry.statement], .ofOutcome (inquiry.read reply)⟩ := by
    rw [Line.answer, List.getElem?_modify_eq, hx, ← hhear]
    rfl
  rw [slot_of_isInFlight hcell hx hflight]
  -- a success stays in the cell; a failure is taken out of it by the handler
  cases houtcome : inquiry.read reply with
  | ok value =>
    rw [houtcome] at hanswered
    have hsame : (line.answer n reply).handle n = line.answer n reply := by
      unfold Line.handle
      rw [hanswered]
      rfl
    rw [hsame]
    exact slot_of_succeeded hcell hanswered rfl
  | error fault =>
    rw [houtcome] at hanswered
    exact slot_of_none (cell_handle_of_rejected hanswered)

end Line

/-! ## Rows and count of a frame -/

namespace Traffic

/-- What happens to one result makes no difference for the other. -/
theorem foldl_step (f : Frame) (t : Traffic) (events : List Event) :
    events.foldl (step f) t = ⟨t.rows.run f.startRows (events.filterMap Event.rows?),
      t.count.run f.startCount (events.filterMap Event.count?)⟩ := by
  induction events generalizing t with
  | nil => rfl
  | cons event rest ih =>
    rw [List.foldl_cons, ih]
    cases event with
    | rows happening => rfl
    | count happening => rfl

/-- Whatever happens to a frame, in whatever order, its rows depend only on what happens to them,
and so does its count; and callers of both can rely on what `Line.Coalesced` says. Rows are fetched
unless the database refuses them or answers with nothing at all, and a count unless that happens to
the rows it is read from or their first cell is missing or no number. -/
theorem run_coalesced (f : Frame) (events : List Event) :
    run f events = ⟨Line.empty.run f.startRows (events.filterMap Event.rows?),
      Line.empty.run f.startCount (events.filterMap Event.count?)⟩ ∧
    (run f events).rows.Coalesced f.startRows f.rowsInquiry? ∧
    (run f events).count.Coalesced f.startCount f.countInquiry? ∧
    (∀ inquiry ∈ f.rowsInquiry?, ∀ reply rows,
      inquiry.read reply = .ok rows ↔ reply = .ok rows ∧ ∃ extent, rows.extent = .ok extent) ∧
    ∀ inquiry ∈ f.countInquiry?, ∀ reply n,
      inquiry.read reply = .ok n ↔ ∃ rows, (reply = .ok rows ∧ ∃ extent, rows.extent = .ok extent) ∧
        (Frame.firstCell rows).toNumber inquiry.statement = .ok (some n) := by
  have hrun := foldl_step f empty events
  refine ⟨hrun, ?_, ?_, fun inquiry hinquiry reply rows => ?_, fun inquiry hinquiry reply n => ?_⟩
  · rw [run, hrun]
    exact (Line.Sound.empty.run f.starts_rows _).coalesced f.starts_rows
  · rw [run, hrun]
    exact (Line.Sound.empty.run f.starts_count _).coalesced f.starts_count
  · obtain ⟨statement, _, rfl⟩ := Option.map_eq_some_iff.mp hinquiry
    exact Frame.received_eq_ok
  · obtain ⟨statement, _, rfl⟩ := Option.map_eq_some_iff.mp hinquiry
    simp only [Frame.counted_eq_ok, Frame.received_eq_ok]

/-- The first fetch of the rows is refused after a second call for them, while the count is fetched;
the call after that sends the statement again, and its rows stay. -/
example :
    let f : Frame := ⟨0, .sqlite, ⟨1, Query.ofTable 0 "tracks" ["TrackId"]⟩, []⟩
    let t := run f [.rows .call, .count .call, .rows .call,
      .rows (.answer 0 (.error (.thrown .null))), .rows (.handle 0), .rows .call,
      .count (.answer 0 (.ok (.list [.list [.integer 2]]))), .rows (.answer 1 (.ok (.list []))),
      .rows .call]
    t.rows.sent = ["SELECT a.TrackId FROM tracks AS a;", "SELECT a.TrackId FROM tracks AS a;"] ∧
      t.rows.tickets = [.fetch 0, .fetch 0, .fetch 1, .fetch 1] ∧
      t.rows.outcome? (.fetch 1) = some (.ok (.list [])) ∧ t.count.outcome? (.fetch 0) =
        some (.ok (Number.ofInt 2)) :=
  ⟨by decide +kernel, rfl, rfl, rfl⟩

end Traffic

end LazyFrame
