import LazyFrame.Proofs.Faults.Status
import LazyFrame.Proofs.Service.Preview
import LazyFrame.Service.Target

/-!
# Lines that tell an outcome

Two lines of the log tell the outcome of a frame request, `frame_ok` and `request_error`. Nearly
everything that a frame request does writes neither of them, and ends in no fault that could pass
for a success (`Job.Ends`). The success is written when the answer has been composed
(`Service.compose`), and then nothing but turning it into JSON is left to do. On the way to it only
a connection can be refused with the status of a success, so what was told fits what comes of
composing an answer, whatever the surroundings do (`Service.isCandid_composeFrame`).
-/

namespace LazyFrame

/-! ## Lines that tell an outcome -/

/-- Whether a line tells the outcome of a request. -/
def LogEntry.isVerdict (e : LogEntry) : Bool :=
  e.message == "frame_ok" || e.message == "request_error"

/-- A line tells the truth about a request that was answered with a status. -/
def LogEntry.Tells (line : LogEntry) (status : Number) : Prop :=
  (status = 200 ∧ line.message = "frame_ok") ∨
    (status ≠ 200 ∧ line.message = "request_error" ∧ line.extra.field "status" = .number status)

/-- The line that a request writes, if it tells an outcome. -/
def Outside.Request.verdict? : Outside.Request → Option LogEntry
  | .log entry => if entry.isVerdict then some entry else none
  | _ => none

/-- What a connection was refused with. -/
def Exchange.refusal? : Exchange Outside.interface → Option Fault
  | ⟨.connect _, .error fault⟩ => some fault
  | _ => none

/-- The lines that tell outcomes. -/
def verdicts (transcript : List (Exchange Outside.interface)) : List LogEntry :=
  transcript.filterMap fun e => e.request.verdict?

/-- What connections were refused with. -/
def refusals (transcript : List (Exchange Outside.interface)) : List Fault :=
  transcript.filterMap Exchange.refusal?

/-- The verdicts along two transcripts are those of the one and then those of the other. -/
theorem verdicts_append (first second : List (Exchange Outside.interface)) :
    verdicts (first ++ second) = verdicts first ++ verdicts second :=
  List.filterMap_append

/-- So are the refusals. -/
theorem refusals_append (first second : List (Exchange Outside.interface)) :
    refusals (first ++ second) = refusals first ++ refusals second :=
  List.filterMap_append

/-- Where no connection is made none is refused. -/
theorem refusals_of_quiet {transcript : List (Exchange Outside.interface)}
    (h : ∀ e ∈ transcript, e.request.IsQuiet) : refusals transcript = [] := by
  refine List.filterMap_eq_nil_iff.mpr fun e he => ?_
  obtain ⟨request, answer⟩ := e
  cases request with
  | connect url => cases h _ he
  | listTables | listColumns | execute | ping | log | now => rfl

/-! ## Jobs that tell no outcome -/

/-- However it goes, the job tells no outcome, and ends in such a result or in such a fault. -/
def Job.Ends {α : Type} (F : Fault → Prop) (Q : α → Prop) (x : Job α) : Prop :=
  ∀ transcript outcome, x.run.Goes transcript outcome → verdicts transcript = [] ∧
    Attempt.Ends F Q outcome

namespace Job.Ends

variable {α β : Type} {F G : Fault → Prop} {Q : α → Prop} {R : β → Prop}

/-- An attempt that is there tells nothing and ends as it does. -/
theorem ofAttempt {a : Attempt α} (h : Attempt.Ends F Q a) : Job.Ends F Q (Asking.ofAttempt a) := by
  intro transcript outcome hgoes
  obtain ⟨rfl, rfl⟩ := Asking.goes_ofAttempt_iff.mp hgoes
  exact ⟨rfl, h⟩

/-- A job that goes on from another ends as it does behind such values. -/
theorem bind {x : Job α} (h : x.Ends F Q) {f : α → Job β} (hf : ∀ a, Q a → (f a).Ends F R) :
    Job.Ends F R (x >>= f) := by
  intro transcript outcome hgoes
  obtain ⟨a, first, second, rfl, hfirst, hsecond⟩ := Asking.goes_bind_iff.mp hgoes
  obtain ⟨hnone, hends⟩ := h first a hfirst
  rw [verdicts_append, hnone, List.nil_append]
  cases hends with
  | ok hQ => exact hf _ hQ second outcome hsecond
  | error hF => exact ofAttempt (.error hF) second outcome hsecond

/-- Looking at the outcome of a job fails no more. -/
theorem outcome {x : Job α} (h : x.Ends F Q) :
    Job.Ends G (Attempt.Ends F Q) (Asking.outcome x) := by
  intro transcript result hgoes
  obtain ⟨a, ha, rfl⟩ := Asking.goes_outcome_iff.mp hgoes
  obtain ⟨hnone, hends⟩ := h transcript a ha
  exact ⟨hnone, .ok hends⟩

/-- A question that tells no verdict ends as what is read from its answers. -/
theorem request {r : Outside.Request} {read : Outside.Answer r → Attempt α} (hr : r.verdict? = none)
    (h : ∀ answer, Attempt.Ends F Q (read answer)) : Job.Ends F Q (Asking.request r read) := by
  intro transcript outcome hgoes
  obtain ⟨answer, rfl, rfl⟩ := Asking.goes_request_iff.mp hgoes
  exact ⟨List.filterMap_cons_none hr, h answer⟩

/-- What is asked may be refused by anything. -/
theorem asked {r : Outside.Request} {read : Outside.Answer r → Attempt α} (hr : r.verdict? = none) :
    Job.Ends (fun _ => True) (fun _ => True) (Asking.request r read) :=
  request hr fun answer => .any (read answer)

/-- The clock tells nothing. -/
theorem now : Job.now.Ends F (fun _ => True) := request rfl fun _ => .ok trivial

/-- A line that is no verdict tells nothing. -/
theorem log {level : Level} {scope message : String} {extra : List (String × Value)}
    (h : LogEntry.isVerdict ⟨level, scope, message, .record extra⟩ = false) :
    (Job.log level scope message extra).Ends F (fun _ => True) :=
  request (by rw [Outside.Request.verdict?, h]; rfl) fun _ => .ok trivial

end Job.Ends

/-- The job ends in what counts as a failure, if it fails. -/
abbrev Job.EndsPlainly {α : Type} (x : Job α) : Prop := x.Ends Fault.Fails fun _ => True

open Job (Ends EndsPlainly)

namespace Frame

/-- A statement may be refused by anything; the fetch makes a failure of that. -/
theorem fetch_ends (connection : Nat) (statement : String) :
    (fetch connection statement).EndsPlainly := by
  have hrows : Ends (fun _ => True) (fun _ => True) (do
      let rows ← Job.execute connection statement
      let count ← Asking.ofAttempt rows.extent
      Job.log .debug "frame" "frame_fetched" [("sql", .text statement), ("rowCount", count)]
      pure rows) :=
    (Ends.asked rfl).bind fun rows _ => (Ends.ofAttempt (.any rows.extent)).bind fun _ _ =>
      (Ends.log rfl).bind fun _ _ => .ofAttempt (.ok trivial)
  refine (Ends.log rfl).bind fun _ _ => hrows.outcome.bind fun outcome _ => ?_
  cases outcome with
  | ok rows => exact .ofAttempt (.ok trivial)
  | error refusal =>
    exact (Ends.ofAttempt refusal.spoken_fails).bind fun _ _ => (Ends.log rfl).bind fun _ _ =>
      .ofAttempt (.error (refusal.asExecution_fails _))

variable {f : Frame}

/-- The first rows of a proper frame come without a verdict, or fail plainly. -/
theorem head_ends (h : f.plan.query.IsProper) (count : Value) : (f.head count).EndsPlainly :=
  (Ends.ofAttempt (headCount_fails count)).bind fun n _ =>
    (Ends.ofAttempt (f.sqlOf_fails (isProper_preview h n))).bind fun _ _ =>
      (fetch_ends _ _).bind fun _ _ => .ofAttempt (.ok trivial)

/-- So does their count. -/
theorem rowCount_ends (h : f.plan.query.IsProper) : f.rowCount.EndsPlainly := by
  refine (Ends.ofAttempt (f.sqlOf_fails (Plan.isProper_count h))).bind fun statement _ => ?_
  refine (fetch_ends _ _).bind fun rows _ => (Ends.ofAttempt (Value.toNumber_fails _ _)).bind
    fun count? _ => ?_
  cases count? with
  | some n => exact .ofAttempt (.ok trivial)
  | none => exact .ofAttempt (.error (Fault.fails_execution _ _ _))

end Frame

/-- A catalog that cannot be loaded is a failed execution. -/
theorem Catalog.load_ends (connection : Connection) (wanted? : Option Dialect) (next : Nat) :
    (load connection wanted? next).EndsPlainly := by
  have htables (known : List TableInfo) (names : List String) (next : Nat) :
      Ends (fun _ => True) (fun _ => True) (loadTables connection.id known names next) := by
    induction names generalizing known next with
    | nil => exact .ofAttempt (.ok trivial)
    | cons name rest ih =>
      unfold loadTables
      split
      · exact ih _ _
      · exact (Ends.asked rfl).bind fun _ _ => ih _ _
  have hlisting :
      Ends (fun _ => True) (fun _ => True) (Job.listTables connection.id >>= fun names =>
      loadTables connection.id [] names next) :=
    (Ends.asked rfl).bind fun names _ => htables [] names next
  refine Ends.now.bind fun _ _ => hlisting.outcome.bind fun listing _ => ?_
  cases listing with
  | error refusal => exact .ofAttempt (.error (refusal.asExecution_fails _))
  | ok tables =>
    exact Ends.now.bind fun _ _ => (Ends.log rfl).bind fun _ _ => .ofAttempt (.ok trivial)

/-! ## Composing an answer -/

/-- The job ends with the line that tells success, or it fails without having told anything. -/
def Job.Announces {α : Type} (x : Job α) : Prop :=
  ∀ transcript outcome, x.run.Goes transcript outcome →
    (∃ a line, outcome = .ok a ∧ verdicts transcript = [line] ∧ line.level = .info ∧
      line.message = "frame_ok") ∨
      ∃ fault, outcome = .error fault ∧ verdicts transcript = [] ∧ fault.Fails

/-- What tells nothing may come before it. -/
theorem Job.Ends.announces {α β : Type} {Q : α → Prop} {x : Job α} (h : x.Ends Fault.Fails Q)
    {f : α → Job β} (hf : ∀ a, Q a → (f a).Announces) : Job.Announces (x >>= f) := by
  intro transcript outcome hgoes
  obtain ⟨a, first, second, rfl, hfirst, hsecond⟩ := Asking.goes_bind_iff.mp hgoes
  obtain ⟨hnone, hends⟩ := h first a hfirst
  rw [verdicts_append, hnone, List.nil_append]
  cases hends with
  | ok hQ => exact hf _ hQ second outcome hsecond
  | error hF =>
    obtain ⟨rfl, rfl⟩ := Asking.goes_ofAttempt_iff.mp hsecond
    exact .inr ⟨_, rfl, rfl, hF⟩

namespace Service

variable {settings : Settings} {before after : Catalogs}
    {transcript : List (Exchange Outside.interface)}

/-- So do the details of a proper frame. -/
theorem details_ends (settings : Settings) (request : FrameRequest) {f : Frame}
    (h : f.plan.query.IsProper) : (details settings request f).EndsPlainly := by
  unfold details
  cases request.action with
  | sql => exact .ofAttempt (.ok trivial)
  | head =>
    exact (Frame.head_ends h _).bind fun g _ =>
      (Ends.ofAttempt (g.rows.elements_fails _)).bind fun _ _ =>
      .ofAttempt (.ok trivial)
  | shape => exact (Frame.rowCount_ends h).bind fun _ _ => .ofAttempt (.ok trivial)

/-- The answer to a frame request over a catalog. That there is one is logged as soon as it is
composed. -/
def compose (settings : Settings) (request : FrameRequest) (started : Number) (c : Catalog) :
    Job Value := do
  let (f, _) ← Asking.ofAttempt ((request.frame.build c).run c.tables.length)
  let sql ← Asking.ofAttempt f.sql
  let more ← details settings request f
  let finished ← Job.now
  Job.log .info "" "frame_ok"
    [("table", .text request.frame.table), ("action", .text request.action.name),
      ("sql", .text sql), ("durationMs", .number (finished.sub started))]
  pure (.record ([("sql", .text sql), ("columns", .list f.labels)] ++ more))

/-- A response to a simple request announces its success, or fails plainly before. -/
theorem announces_compose {request : FrameRequest} (h : request.frame.IsSimple) (started : Number)
    (c : Catalog) : (compose settings request started c).Announces := by
  have hbuild : Ends Fault.Fails (fun made => Frame.IsProper c made.1)
      (Asking.ofAttempt ((request.frame.build c).run c.tables.length)) :=
    .ofAttempt (FrameSpec.build_ends request.frame h _).plainly
  refine hbuild.announces fun made hmade =>
    (Ends.ofAttempt (made.1.sqlOf_fails hmade.query)).announces fun sql _ => ?_
  refine (details_ends settings request hmade.query).announces fun more _ =>
    Ends.now.announces fun finished _ => ?_
  intro transcript outcome hgoes
  obtain ⟨_, first, second, rfl, hlog, hrest⟩ := Asking.goes_bind_iff.mp hgoes
  obtain ⟨_, rfl, rfl⟩ := Asking.goes_request_iff.mp hlog
  obtain ⟨rfl, rfl⟩ := Asking.goes_ofAttempt_iff.mp hrest
  exact .inl ⟨_, _, rfl, rfl, rfl, rfl⟩

/-- The answer to a body, on the way to which a catalog is come by. -/
def composeFrame (settings : Settings) (body : Value) : Serving Value := do
  let _ ← Serving.ofAttempt (Call.ofBody body)
  let started ← Serving.ofJob Job.now
  let request ← Serving.ofAttempt (FrameRequest.parse settings.maxLimit body)
  let c ← catalog settings request.databaseUrl?
  Serving.ofJob (compose settings request started c)

/-- To handle a body is to compose an answer and to turn it into JSON. -/
theorem handle_ofBody (settings : Settings) (body : Value) :
    Serving.ofAttempt (Call.ofBody body) >>= handle settings =
      composeFrame settings body >>= fun v => Serving.ofAttempt (Reply.ofValue v) := by
  have hframe : handleFrame settings body = (do
      let started ← Serving.ofJob Job.now
      let request ← Serving.ofAttempt (FrameRequest.parse settings.maxLimit body)
      let c ← catalog settings request.databaseUrl?
      Serving.ofJob (compose settings request started c)) >>= fun v =>
        Serving.ofAttempt (Reply.ofValue v) := by
    simp only [handleFrame, compose, Serving.ofJob_bind, bind_assoc]
    rfl
  cases body with
  | list | record => exact hframe
  | missing | null | bool | number | integer | text | half | instant => rfl

/-! ## What composing an answer has told -/

/-- What was told on the way to a composed answer, or to a fault for want of one. -/
inductive Candid (transcript : List (Exchange Outside.interface)) : Attempt Value → Prop where
  | composed {v : Value} {line : LogEntry} (hline : verdicts transcript = [line])
    (hlevel : line.level = .info) (hmessage : line.message = "frame_ok")
    (hnone : refusals transcript = []) : Candid transcript (.ok v)
  | failed {fault : Fault} (hnone : verdicts transcript = []) (hrefusals : refusals transcript = [])
    (hfails : fault.Fails) : Candid transcript (.error fault)
  | refused {fault : Fault} (hnone : verdicts transcript = [])
    (hrefusals : refusals transcript = [fault]) :
    Candid transcript (.error fault)

/-- Exchanges without verdicts and refusals in front leave an outcome candid. -/
theorem Candid.behind {front : List (Exchange Outside.interface)} {outcome : Attempt Value}
    (h : Candid transcript outcome) (hlines : verdicts front = [])
    (hrefusals : refusals front = []) : Candid (front ++ transcript) outcome := by
  have hverdicts : verdicts (front ++ transcript) = verdicts transcript := by
    rw [verdicts_append, hlines, List.nil_append]
  have hsame : refusals (front ++ transcript) = refusals transcript := by
    rw [refusals_append, hrefusals, List.nil_append]
  cases h with
  | composed hline hlevel hmessage hnone =>
    exact .composed (hverdicts.trans hline) hlevel hmessage (hsame.trans hnone)
  | failed hnone hrefusals hfails =>
    exact .failed (hverdicts.trans hnone) (hsame.trans hrefusals) hfails
  | refused hnone hrefusals => exact .refused (hverdicts.trans hnone) (hsame.trans hrefusals)

end Service

open Service (Candid)

/-- However it goes, what was told on the way fits what comes of it. -/
def Serving.IsCandid (t : Serving Value) : Prop :=
  ∀ before transcript outcome after, t.Goes before transcript outcome after →
    Candid transcript outcome

namespace Serving.IsCandid

variable {α : Type} {Q : α → Prop}

/-- A quiet job that announces its success is candid. -/
theorem ofJob {x : Job Value} (h : x.Announces) (hquiet : x.IsQuiet) :
    Serving.IsCandid (Serving.ofJob x) := by
  intro before transcript outcome after hgoes
  obtain ⟨hjob, rfl⟩ := Serving.goes_ofJob_iff.mp hgoes
  have hnone := refusals_of_quiet (hquiet.goes hjob)
  obtain ⟨v, line, rfl, hline, hlevel, hmessage⟩ | ⟨fault, rfl, hlines, hfails⟩ := h _ _ hjob
  · exact .composed hline hlevel hmessage hnone
  · exact .failed hlines hnone hfails

/-- Behind a quiet job without verdicts, what is candid for its values is candid. -/
theorem behind_job {x : Job α} (h : x.Ends Fault.Fails Q) (hquiet : x.IsQuiet)
    {f : α → Serving Value} (hf : ∀ a, Q a → (f a).IsCandid) :
    Serving.IsCandid (Serving.ofJob x >>= f) := by
  intro before transcript outcome after hgoes
  obtain ⟨a, first, second, rfl, hfirst, hsecond⟩ := Serving.goes_ofJob_bind_iff.mp hgoes
  obtain ⟨hlines, hends⟩ := h first a hfirst
  refine Candid.behind ?_ hlines (refusals_of_quiet (hquiet.goes hfirst))
  cases hends with
  | ok hQ => exact hf _ hQ _ _ _ _ hsecond
  | error hF =>
    obtain ⟨rfl, rfl, rfl⟩ := Serving.goes_ofAttempt_iff.mp hsecond
    exact .failed rfl rfl hF

/-- Behind an attempt, what is candid for its values is candid. -/
theorem behind_attempt {a : Attempt α} (h : Attempt.Ends Fault.Fails Q a) {f : α → Serving Value}
    (hf : ∀ a, Q a → (f a).IsCandid) : Serving.IsCandid (Serving.ofAttempt a >>= f) :=
  behind_job (.ofAttempt h) (Asking.only_ofAttempt a) hf

/-- A connection that is refused may be refused with any status; what else keeps from a catalog is a
failure. -/
theorem behind_catalogOf {settings : Settings} {url : String} {f : Catalog → Serving Value}
    (hf : ∀ c, (f c).IsCandid) : Serving.IsCandid (Service.catalogOf settings url >>= f) := by
  intro before transcript outcome after hgoes
  obtain ⟨found, between, first, second, rfl, hfirst, hsecond⟩ := Serving.goes_bind_iff.mp hgoes
  obtain ⟨now, rest, rfl, hobtains⟩ := Service.obtains_of_goes hfirst
  cases hobtains with
  | kept => exact (hf _ _ _ _ _ hsecond).behind rfl rfl
  | refused =>
    obtain ⟨rfl, rfl, rfl⟩ := Serving.goes_ofAttempt_iff.mp hsecond
    exact .refused rfl rfl
  | failed hnone hload =>
    obtain ⟨hlines, hends⟩ := Catalog.load_ends _ none 0 _ _ hload
    have hrefusals := refusals_of_quiet ((Catalog.isQuiet_load _ none 0).goes hload)
    obtain ⟨rfl, rfl, rfl⟩ := Serving.goes_ofAttempt_iff.mp hsecond
    exact Candid.behind (.failed rfl rfl (hends.of_error rfl)) hlines hrefusals
  | loaded hnone hload =>
    obtain ⟨hlines, _⟩ := Catalog.load_ends _ none 0 _ _ hload
    have hrefusals := refusals_of_quiet ((Catalog.isQuiet_load _ none 0).goes hload)
    exact (hf _ _ _ _ _ hsecond).behind hlines hrefusals

/-- Behind the loading of a catalog, what is candid for every catalog is candid. -/
theorem behind_catalog {settings : Settings} {url? : Option String} {f : Catalog → Serving Value}
    (hf : ∀ c, (f c).IsCandid) : Serving.IsCandid (Service.catalog settings url? >>= f) := by
  have hurl : Attempt.EndsPlainly (fun _ => True) (Service.urlOf settings url?) := by
    unfold Service.urlOf
    exact .ite (fun _ => .error (Fault.IsClient.fails (.inl rfl))) fun _ => .ok trivial
  rw [Service.catalog_eq, bind_assoc]
  exact behind_attempt hurl fun url _ => behind_catalogOf hf

end Serving.IsCandid

namespace Service

/-- Composing a response makes no connection. -/
theorem isQuiet_compose (settings : Settings) (request : FrameRequest) (started : Number)
    (c : Catalog) : (compose settings request started c).IsQuiet :=
  open Asking in
  only_bind (only_ofAttempt _) fun _ => only_bind (only_ofAttempt _) fun _ =>
    only_bind (isQuiet_details ..) fun _ =>
    only_bind Job.isQuiet_now fun _ => only_bind (Job.isQuiet_log ..) fun _ => trivial

/-- Answering a request for a frame is candid. -/
theorem isCandid_composeFrame (settings : Settings) (body : Value) :
    (composeFrame settings body).IsCandid := by
  have hbody : Attempt.EndsPlainly (fun _ => True) (Call.ofBody body) := by
    cases body with
    | list | record => exact .ok trivial
    | missing | null | bool | number | integer | text | half | instant =>
      exact .error (Fault.IsClient.fails (.inl rfl))
  have hparse :
      Attempt.EndsPlainly (fun request => request.frame.IsSimple)
        (FrameRequest.parse settings.maxLimit body) := by
    refine (FrameRequest.parse_ends settings.maxLimit body).mono (fun fault h => ?_) fun _ h => h
    rcases h with h | ⟨rfl, _⟩
    · exact h.fails
    · exact Fault.fails_of_status? rfl
  refine .behind_attempt hbody fun _ _ => .behind_job .now Job.isQuiet_now fun started _ => ?_
  refine .behind_attempt hparse fun request hsimple => .behind_catalog fun c => ?_
  exact .ofJob (announces_compose hsimple started c) (isQuiet_compose settings request started c)

end Service

end LazyFrame
