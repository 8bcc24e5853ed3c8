import LazyFrame.Proofs.Service.Verdicts

/-!
# What the log tells about frame requests

A frame request that succeeds should write the line `frame_ok` and nothing else about its outcome,
and one that fails `request_error` with its status (`Service.Posting.IsTold`). A request goes in one
of three ways (`Posting.Course`): it succeeds, it fails on the way to an answer, or its answer was
composed and logged as a success but cannot be turned into JSON, as there is an exact integer in it.
Over any number of requests, it is the third way and the status of a refused connection on which the
truth of the log depends (`Service.Postings.logged_truly_iff`).
-/

namespace LazyFrame.Service

/-! ## Requests and their lines -/

/-- A frame request as it was answered: its body, the catalogs that were kept when it came, what was
exchanged over it, and the result. -/
structure Posting where
  body : Value
  before : Catalogs
  transcript : List (Exchange Outside.interface)
  result : Attempt Reply

namespace Posting

/-- The way a request goes, and the catalogs that are kept afterwards. -/
def Goes (settings : Settings) (p : Posting) (after : Catalogs) : Prop :=
  (answer settings (Call.ofBody p.body)).Goes p.before p.transcript p.result after

/-- An answer was composed, and it was this one. -/
def Composes (settings : Settings) (p : Posting) (v : Value) : Prop :=
  ∃ first rest between, p.transcript = first ++ rest ∧
    (composeFrame settings p.body).Goes p.before first (.ok v) between

/-- The lines with an outcome that are written. -/
def lines (settings : Settings) (p : Posting) : List LogEntry :=
  (verdicts p.transcript).filter (LogEntry.isWritten settings.threshold)

/-- One line is written, and it tells the truth about a status. -/
def IsTold (settings : Settings) (p : Posting) (status : Number) : Prop :=
  ∃ line, p.lines settings = [line] ∧ line.Tells status

end Posting

/-- The log is kept at a level at which successes are written, as it is unless the environment says
otherwise. -/
def LogsSuccesses (settings : Settings) : Prop := settings.threshold.rank ≤ Level.info.rank

namespace Posting

variable {settings : Settings} {p : Posting} {line : LogEntry} {status : Number} {after : Catalogs}

/-- A line that tells success is written at some levels of the log. -/
theorem isWritten_of_info (h : line.level = .info) :
    line.isWritten settings.threshold = true ↔ LogsSuccesses settings := by
  rw [LogEntry.isWritten, h, decide_eq_true_iff, LogsSuccesses]

/-- A line that tells failure is written at every level. -/
theorem isWritten_of_error (h : line.level = .error) :
    line.isWritten settings.threshold = true := by
  rw [LogEntry.isWritten, h, decide_eq_true_iff]
  cases settings.threshold with
  | debug | info | warn | error => decide

theorem isTold_of_line (h : p.lines settings = [line]) :
    p.IsTold settings status ↔ line.Tells status := by
  constructor
  · rintro ⟨line', hline', htells⟩
    obtain rfl := (List.cons.inj (h.symm.trans hline')).1
    exact htells
  · exact fun htells => ⟨line, h, htells⟩

theorem not_isTold (h : (p.lines settings).length ≠ 1) : ¬p.IsTold settings status := by
  rintro ⟨line, hline, _⟩
  rw [hline] at h
  exact h rfl

/-- How a request can be answered, with what is logged about it. -/
inductive Course (settings : Settings) (p : Posting) (reply : Reply) : Prop where
  | succeeded {v : Value} {line : LogEntry} (hcomposes : ∀ v', p.Composes settings v' ↔ v' = v)
    (hplain : v.hasExactInteger = false) (hnone : refusals p.transcript = [])
    (hstatus : reply.status = 200)
    (hlines : verdicts p.transcript = [line]) (hlevel : line.level = .info)
    (htells : line.Tells 200) : Course settings p reply
  | contradicted {v : Value} {line line' : LogEntry}
    (hcomposes : ∀ v', p.Composes settings v' ↔ v' = v) (hinteger : v.hasExactInteger = true)
    (hstatus : reply.status = 500) (hlines : verdicts p.transcript = [line, line'])
    (hlevel : line.level = .info) (hlevel' : line'.level = .error) (htells : line'.Tells 500) :
    Course settings p reply
  | failed {line : LogEntry} (hcomposes : ∀ v, ¬p.Composes settings v)
    (hrefusals : (∀ fault ∈ refusals p.transcript, fault.statusCode ≠ 200) ↔ reply.status ≠ 200)
    (hlines : verdicts p.transcript = [line]) (hlevel : line.level = .error)
    (htells : line.Tells reply.status ↔ reply.status ≠ 200) : Course settings p reply

/-- A dialogue leaves no choice, so it is only this answer that was composed. -/
theorem composes_iff {first rest : List (Exchange Outside.interface)} {outcome : Attempt Value}
    {between : Catalogs} (h : (composeFrame settings p.body).Goes p.before first outcome between)
    (heq : p.transcript = first ++ rest) {v : Value} : p.Composes settings v ↔ outcome = .ok v := by
  constructor
  · rintro ⟨first', rest', between', heq', h'⟩
    exact (Prod.mk.inj (h.unique h' (heq.symm.trans heq')).2).1
  · rintro rfl
    exact ⟨first, rest, between, heq, h⟩

/-- A reply says what has become of the answer, and a fault is logged with its status. -/
theorem goes_settled {outcome result : Attempt Reply}
    {transcript : List (Exchange Outside.interface)}
    (h : (settled outcome).run.Goes transcript result) :
    (∃ reply, outcome = .ok reply ∧ result = .ok reply ∧ transcript = []) ∨
      ∃ fault line, outcome = .error fault ∧ result = .ok (Reply.ofFault fault) ∧
        refusals transcript = [] ∧ verdicts transcript = [line] ∧ line.level = .error ∧
        (line.Tells fault.statusCode ↔ fault.statusCode ≠ 200) := by
  cases outcome with
  | ok reply =>
    obtain ⟨rfl, rfl⟩ := Asking.goes_ofAttempt_iff.mp h
    exact .inl ⟨reply, rfl, rfl, rfl⟩
  | error fault =>
    obtain ⟨_, first, second, rfl, hlog, hrest⟩ := Asking.goes_bind_iff.mp h
    obtain ⟨_, rfl, rfl⟩ := Asking.goes_request_iff.mp hlog
    obtain ⟨rfl, rfl⟩ := Asking.goes_ofAttempt_iff.mp hrest
    refine .inr ⟨fault, _, rfl, rfl, rfl, rfl, rfl, ?_, fun hfails => .inr ⟨hfails, rfl, rfl⟩⟩
    rintro (⟨_, hmessage⟩ | ⟨hfails, _⟩)
    · have hne : ("request_error" : String) ≠ "frame_ok" := by decide
      exact absurd hmessage hne
    · exact hfails

/-- The answer is composed or there is a fault, and then that is settled. -/
theorem goes_composed (h : p.Goes settings after) :
    ∃ outcome first rest, p.transcript = first ++ rest ∧
      (composeFrame settings p.body).Goes p.before first outcome after ∧
      (settled (outcome >>= Reply.ofValue)).run.Goes rest p.result := by
  obtain ⟨result, handled, rest, htranscript, hhandle, hsettled⟩ := goes_answered h
  rw [handle_ofBody] at hhandle
  obtain ⟨outcome, between, first, last, rfl, hcompose, hreply⟩ := Serving.goes_bind_iff.mp hhandle
  have hattempt :
      (Serving.ofAttempt (outcome >>= Reply.ofValue)).Goes between last result after := by
    cases outcome with
    | ok v => exact hreply
    | error fault => exact hreply
  obtain ⟨rfl, rfl, rfl⟩ := Serving.goes_ofAttempt_iff.mp hattempt
  exact ⟨outcome, first, rest, by rw [htranscript, List.append_nil], hcompose, hsettled⟩

/-- Every request is answered, in one of these ways. -/
theorem course_of_goes (h : p.Goes settings after) :
    ∃ reply, p.result = .ok reply ∧ Course settings p reply := by
  obtain ⟨outcome, first, rest, heq, hcompose, hsettled⟩ := goes_composed h
  have hcandid := isCandid_composeFrame settings p.body _ _ _ _ hcompose
  have hverdicts : verdicts p.transcript = verdicts first ++ verdicts rest := by
    rw [heq, verdicts_append]
  have hrefusals : refusals p.transcript = refusals first ++ refusals rest := by
    rw [heq, refusals_append]
  have hcomposes (v : Value) : p.Composes settings v ↔ outcome = .ok v := composes_iff hcompose heq
  obtain ⟨reply, hreply, hresult, rfl⟩ | ⟨fault, line', hfault, hresult, hquiet, hline',
      hlevel', htells'⟩ :=
    goes_settled hsettled
  · -- only an answer that was composed becomes a reply
    obtain ⟨v, rfl, hvalue⟩ := Attempt.bind_eq_ok.mp hreply
    obtain ⟨hstatus, hplain⟩ := (Reply.ofValue_ends v).of_ok hvalue
    cases hcandid with
    | composed hline hlevel hmessage hnone =>
      rw [hline] at hverdicts
      rw [hnone] at hrefusals
      refine ⟨_, hresult,
        .succeeded (fun v' => ?_) hplain hrefusals hstatus hverdicts hlevel (.inl ⟨rfl, hmessage⟩)⟩
      rw [hcomposes, Except.ok.injEq, eq_comm]
  · -- a fault is of the composing itself, or of the reply to what was composed
    rw [hline'] at hverdicts
    rw [hquiet, List.append_nil] at hrefusals
    cases hcandid with
    | @composed v line hline hlevel hmessage hnone =>
      obtain ⟨rfl, hinteger⟩ := (Reply.ofValue_ends v).of_error hfault
      rw [hline] at hverdicts
      refine ⟨_, hresult,
        .contradicted (fun v' => ?_) hinteger rfl hverdicts hlevel hlevel'
        (htells'.mpr (by decide +kernel))⟩
      rw [hcomposes, Except.ok.injEq, eq_comm]
    | @failed fault' hnone hrefused hfails =>
      obtain rfl : fault' = fault := Except.error.inj hfault
      rw [hnone] at hverdicts
      rw [hrefused] at hrefusals
      refine ⟨_, hresult,
        .failed (fun v hv => nomatch (hcomposes v).mp hv) ?_ hverdicts hlevel' htells'⟩
      rw [hrefusals]
      exact ⟨fun _ => hfails, fun _ => nofun⟩
    | @refused fault' hnone hrefused =>
      obtain rfl : fault' = fault := Except.error.inj hfault
      rw [hnone] at hverdicts
      rw [hrefused] at hrefusals
      refine ⟨_, hresult,
        .failed (fun v hv => nomatch (hcomposes v).mp hv) ?_ hverdicts hlevel' htells'⟩
      rw [hrefusals, List.forall_mem_singleton]
      rfl

/-- Where successes are logged, a request is told of by one true line unless there is an exact
integer in its answer or a connection was refused with the status of a success. -/
theorem Course.isTold_iff_plain {reply : Reply} (h : Course settings p reply)
    (hlogs : LogsSuccesses settings) :
    p.IsTold settings reply.status ↔ (∀ v, p.Composes settings v → v.hasExactInteger = false) ∧
      ∀ fault ∈ refusals p.transcript, fault.statusCode ≠ 200 := by
  cases h with
  | succeeded hcomposes hplain hnone hstatus hlines hlevel htells =>
    have hwritten := (isWritten_of_info hlevel).mpr hlogs
    have hline : p.lines settings = _ :=
      (congrArg (List.filter _) hlines).trans (List.filter_cons_of_pos hwritten)
    rw [isTold_of_line hline, hstatus, hnone]
    refine ⟨fun _ => ⟨fun v hv => ?_, nofun⟩, fun _ => htells⟩
    rw [(hcomposes v).mp hv]
    exact hplain
  | @contradicted v line line' hcomposes hinteger _ hlines hlevel hlevel' =>
    have hwritten := (isWritten_of_info hlevel).mpr hlogs
    have htwo : p.lines settings = [line, line'] := by
      rw [lines, hlines, List.filter_cons_of_pos hwritten,
        List.filter_cons_of_pos (isWritten_of_error hlevel')]
      rfl
    have hnot : ¬p.IsTold settings reply.status := not_isTold (by simp [htwo])
    refine ⟨fun htold => absurd htold hnot, fun hplain => ?_⟩
    rw [hplain.1 v ((hcomposes v).mpr rfl)] at hinteger
    cases hinteger
  | failed hcomposes hrefusals hlines hlevel htells =>
    have hline : p.lines settings = _ :=
      (congrArg (List.filter _) hlines).trans (List.filter_cons_of_pos (isWritten_of_error hlevel))
    rw [isTold_of_line hline, htells, hrefusals]
    exact ⟨fun hstatus => ⟨fun v hv => absurd hv (hcomposes v), hstatus⟩, fun h => h.2⟩

/-- There is no exact integer in an answer that was sent with success. -/
theorem Course.not_hasExactInteger {reply : Reply} (h : Course settings p reply)
    (hstatus : reply.status = 200) {v : Value} (hv : p.Composes settings v) :
    v.hasExactInteger = false := by
  cases h with
  | succeeded hcomposes hplain =>
    rw [(hcomposes v).mp hv]
    exact hplain
  | contradicted _ _ hinternal =>
    have hne : (500 : Number) ≠ 200 := by decide +kernel
    exact absurd (hinternal.symm.trans hstatus) hne
  | failed hcomposes => exact absurd hv (hcomposes v)

/-- Where they are not, a request is told of exactly if it fails. -/
theorem Course.isTold_iff_fails {reply : Reply} (h : Course settings p reply)
    (hlogs : ¬LogsSuccesses settings) : p.IsTold settings reply.status ↔ reply.status ≠ 200 := by
  cases h with
  | succeeded _ _ _ hstatus hlines hlevel =>
    have hwritten := mt (isWritten_of_info hlevel).mp hlogs
    have hnone : p.lines settings = [] :=
      (congrArg (List.filter _) hlines).trans (List.filter_cons_of_neg hwritten)
    exact ⟨fun htold => absurd htold (not_isTold (by simp [hnone])), fun hne => absurd hstatus hne⟩
  | contradicted _ _ hstatus hlines hlevel hlevel' htells =>
    have hwritten := mt (isWritten_of_info hlevel).mp hlogs
    have hline : p.lines settings = _ := (congrArg (List.filter _) hlines).trans
      ((List.filter_cons_of_neg hwritten).trans
        (List.filter_cons_of_pos (isWritten_of_error hlevel')))
    rw [isTold_of_line hline, hstatus]
    exact ⟨fun _ => by decide +kernel, fun _ => htells⟩
  | failed _ _ hlines hlevel htells =>
    have hline : p.lines settings = _ :=
      (congrArg (List.filter _) hlines).trans (List.filter_cons_of_pos (isWritten_of_error hlevel))
    rw [isTold_of_line hline, htells]

end Posting

/-! ## One request after the other -/

/-- Frame requests one after the other, from a service that keeps nothing yet, and the catalogs that
are kept after them. -/
inductive Postings (settings : Settings) : List Posting → Catalogs → Prop where
  | start : Postings settings [] (.empty settings.cachedConnections)
  | next {postings : List Posting} {p : Posting} {after : Catalogs}
    (h : Postings settings postings p.before) (hgoes : p.Goes settings after) :
    Postings settings (postings ++ [p]) after

namespace Postings

variable {settings : Settings} {postings : List Posting} {catalogs : Catalogs} {p : Posting}

theorem course (h : Postings settings postings catalogs) (hp : p ∈ postings) :
    ∃ reply, p.result = .ok reply ∧ p.Course settings reply := by
  induction h with
  | start => cases hp
  | next _ hgoes ih =>
    rcases List.mem_append.mp hp with hp | hp
    · exact ih hp
    · rw [List.mem_singleton.mp hp]
      exact Posting.course_of_goes hgoes

/-- Every one of any number of frame requests is answered, whatever the surroundings do. Where
successes are logged, one line and a true one is written about it if and only if there is no exact
integer in the answer that was composed for it and no connection was refused with the status of a
success. At the other levels of the log there is such a line if and only if the request fails. -/
theorem logged_truly_iff (h : Postings settings postings catalogs) (hp : p ∈ postings) :
    ∃ reply, p.result = .ok reply ∧
      (LogsSuccesses settings → (p.IsTold settings reply.status ↔
        (∀ v, p.Composes settings v → v.hasExactInteger = false) ∧
          ∀ fault ∈ refusals p.transcript, fault.statusCode ≠ 200)) ∧
      (¬LogsSuccesses settings → (p.IsTold settings reply.status ↔ reply.status ≠ 200)) := by
  obtain ⟨reply, hreply, hcourse⟩ := h.course hp
  exact ⟨reply, hreply, hcourse.isTold_iff_plain, hcourse.isTold_iff_fails⟩

end Postings

/-- The request that a body makes with these surroundings, and the catalogs afterwards. -/
def posted {σ : Type} (settings : Settings)
    (serve : (r : Outside.Request) → σ → Outside.Answer r × σ) (s : σ) (body : Value)
    (before : Catalogs) : Posting × Catalogs :=
  let dialogue := (answer settings (Call.ofBody body)).run.run before
  let result := (dialogue.run serve s).1
  (⟨body, before, dialogue.recorded serve s, result.1⟩, result.2)

theorem goes_posted {σ : Type} (settings : Settings)
    (serve : (r : Outside.Request) → σ → Outside.Answer r × σ) (s : σ) (body : Value)
    (before : Catalogs) :
    (posted settings serve s body before).1.Goes settings (posted settings serve s body before).2 :=
  Dialogue.goes_recorded (I := Outside.interface) serve _ s

/-- The surroundings of a database with one table, in which every statement has these rows. -/
def holding (rows : Value) : (r : Outside.Request) → Unit → Outside.Answer r × Unit
  | .execute _ _, s => (.ok rows, s)
  | r, s => oneTable 0 r s

/-- A request for the first rows of the table. -/
def headOfTracks : Value :=
  .record [("frame", .record [("table", .text "tracks")]), ("action", .text "head")]

/-- About two requests, which find a number and nothing, one line each is written. -/
theorem logged_truly_tracks :
    let settings := Settings.ofEnvironment [("PG_URL", "music")]
    let first :=
      posted settings (holding (.list [.list [.number 1]])) () headOfTracks
        (.empty settings.cachedConnections)
    let second := posted settings (holding (.list [.list [.null]])) () headOfTracks first.2
    Postings settings [first.1, second.1] second.2 ∧ LogsSuccesses settings ∧
      first.1.IsTold settings 200 ∧ second.1.IsTold settings 200 := by
  intro settings first second
  have hpostings : Postings settings [first.1, second.1] second.2 :=
    .next (.next .start (goes_posted ..)) (goes_posted ..)
  have hlogs : LogsSuccesses settings := by
    unfold LogsSuccesses
    decide +kernel
  have htold : ∀ p ∈ [first.1, second.1], p.result.toOption.map (·.status) = some 200 →
      refusals p.transcript = [] → p.IsTold settings 200 := by
    intro p hp hsuccess hnone
    obtain ⟨reply, hreply, htold, -⟩ := hpostings.logged_truly_iff hp
    obtain ⟨reply', hreply', hcourse⟩ := hpostings.course hp
    obtain rfl := Except.ok.inj (hreply.symm.trans hreply')
    have hstatus : reply.status = 200 := by
      rw [hreply] at hsuccess
      exact Option.some.inj hsuccess
    rw [hstatus] at htold
    refine (htold hlogs).mpr ⟨fun v hv => hcourse.not_hasExactInteger hstatus hv, ?_⟩
    rw [hnone]
    exact nofun
  exact ⟨hpostings, hlogs,
    htold first.1 (List.mem_cons_self ..) (by decide +kernel) (by decide +kernel),
    htold second.1 (List.mem_cons_of_mem _ (List.mem_singleton_self _)) (by decide +kernel)
      (by decide +kernel)⟩

/-- A request that finds an exact integer fails, but two lines are written about it, and the first
one tells success. -/
theorem logged_twice_exact_integer :
    let settings := Settings.ofEnvironment [("PG_URL", "music")]
    let made :=
      posted settings (holding (.list [.list [.integer 10]])) () headOfTracks
        (.empty settings.cachedConnections)
    Postings settings [made.1] made.2 ∧ made.1.result.toOption.map (·.status) = some 500 ∧
      (made.1.lines settings).map (·.message) = ["frame_ok", "request_error"] ∧
      ¬made.1.IsTold settings 500 := by
  intro settings made
  have htwo : (made.1.lines settings).map (·.message) = ["frame_ok", "request_error"] := by
    decide +kernel
  have hlength : (made.1.lines settings).length = 2 := by
    rw [← List.length_map, htwo]
    rfl
  exact ⟨.next .start (goes_posted ..), by
    decide +kernel, htwo, Posting.not_isTold (by rw [hlength]; decide)⟩

end LazyFrame.Service
