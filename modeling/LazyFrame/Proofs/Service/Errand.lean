import LazyFrame.Proofs.Service.Transcript

/-!
# What calls do with a database

Every call for a database goes the same way. It looks at the clock, comes by the catalog of its URL
and makes its reply of that catalog, whatever the reply may be. `Call.errand?` takes a call apart
into the URL and what is made of the catalog, and `Service.handle_of_errand` puts it together again,
so what follows is about one kind of call. Only how it comes by the catalog (`Service.Obtains`) has
to do with the catalogs that are kept, and only there a connection is made.
-/

namespace LazyFrame

/-! ## Connections and the clock -/

/-- The URL that a request connects to. -/
def Outside.Request.url? : Outside.Request → Option String
  | .connect url => some url
  | _ => none

/-- A request that makes no connection. -/
def Outside.Request.IsQuiet (r : Outside.Request) : Prop := r.url? = none

/-- The URLs that were connected to. -/
def connects (transcript : List (Exchange Outside.interface)) : List String :=
  transcript.filterMap fun e => e.request.url?

/-- To look at the clock is not to connect. -/
theorem quiet_of_clock {clock : List (Exchange Outside.interface)}
    (h : ∀ e ∈ clock, e.request = .now) : ∀ e ∈ clock, e.request.IsQuiet := by
  intro e he
  rw [h e he]
  rfl

/-- Connections are made along one transcript and then along the next. -/
theorem connects_append (first second : List (Exchange Outside.interface)) :
    connects (first ++ second) = connects first ++ connects second :=
  List.filterMap_append

/-- Quiet exchanges make no connection. -/
theorem connects_of_quiet {transcript : List (Exchange Outside.interface)}
    (h : ∀ e ∈ transcript, e.request.IsQuiet) : connects transcript = [] :=
  List.filterMap_eq_nil_iff.mpr h

/-- Two quiet transcripts in a row are quiet. -/
theorem quiet_append {first second : List (Exchange Outside.interface)}
    (h : ∀ e ∈ first, e.request.IsQuiet) (h' : ∀ e ∈ second, e.request.IsQuiet) :
    ∀ e ∈ first ++ second, e.request.IsQuiet :=
  fun e he => (List.mem_append.mp he).elim (h e) (h' e)

/-- One connection among quiet requests. -/
theorem connects_of_one {front tail : List (Exchange Outside.interface)} {url : String}
    {connected : Attempt Connection} (hfront : ∀ e ∈ front, e.request.IsQuiet)
    (htail : ∀ e ∈ tail, e.request.IsQuiet) :
    connects (front ++ ⟨.connect url, connected⟩ :: tail) = [url] := by
  rw [connects_append, connects_of_quiet hfront, List.nil_append]
  exact congrArg (url :: ·) (connects_of_quiet htail)

/-- Whenever the time was asked for, it was this one. -/
def StandsAt (now : Number) (transcript : List (Exchange Outside.interface)) : Prop :=
  ∀ answer : Number, ⟨.now, answer⟩ ∈ transcript → answer = now

namespace Asking

variable {I : Interface} {α β : Type} {P : I.Request → Prop}

/-- A job that goes on asks nothing but what both parts of it ask. -/
theorem only_bind {x : Asking I α} {f : α → Asking I β} (h : x.run.Only P)
    (hf : ∀ a, (f a).run.Only P) : (x >>= f).run.Only P := by
  refine Dialogue.Only.bind h fun outcome => ?_
  cases outcome with
  | ok a => exact hf a
  | error e => exact trivial

/-- An outcome that is there asks nothing. -/
theorem only_ofAttempt (a : Attempt α) : (ofAttempt a : Asking I α).run.Only P := trivial

/-- Looking at an outcome asks nothing more. -/
theorem only_outcome {x : Asking I α} (h : x.run.Only P) : (outcome x).run.Only P :=
  h.bind fun _ => trivial

/-- A single question is all that is asked. -/
theorem only_request {r : I.Request} {read : I.Answer r → Attempt α} (h : P r) :
    (request r read).run.Only P :=
  ⟨h, fun _ => trivial⟩

end Asking

/-! ## Loading -/

namespace Catalog

open Asking

variable {P : Outside.Request → Prop}

/-- Loading tables asks nothing but for their columns. -/
theorem only_loadTables (hcolumns : ∀ connection table, P (.listColumns connection table))
    (connection : Nat) (names : List String) (known : List TableInfo) (next : Nat) :
    (loadTables connection known names next).run.Only P := by
  induction names generalizing known next with
  | nil => exact trivial
  | cons name rest ih =>
    unfold loadTables
    split
    · exact ih _ _
    · exact only_bind (only_request (hcolumns _ _)) fun columns => ih _ _

/-- To load a catalog is to list tables and columns, to look at the clock and to write to the
log. -/
theorem only_load (htables : ∀ connection, P (.listTables connection))
    (hcolumns : ∀ connection table, P (.listColumns connection table))
    (hlog : ∀ entry, P (.log entry)) (hnow : P .now)
    (connection : Connection) (wanted? : Option Dialect) (next : Nat) :
    (load connection wanted? next).run.Only P := by
  refine only_bind (only_request hnow) fun _ => only_bind (only_outcome ?_) fun listing => ?_
  · exact only_bind (only_request (htables _)) fun names => only_loadTables hcolumns ..
  · cases listing with
    | error refusal => exact trivial
    | ok tables =>
      exact only_bind (only_request hnow) fun _ =>
      only_bind (only_request (hlog _)) fun _ => trivial

end Catalog

/-! ## Jobs that make no connection -/

section Quiet

open Asking

/-- A job that makes no connection. -/
def Job.IsQuiet {α : Type} (t : Job α) : Prop := t.run.Only Outside.Request.IsQuiet

/-- Reading the clock makes no connection. -/
theorem Job.isQuiet_now : Job.now.IsQuiet := only_request rfl

/-- A line in the log makes no connection. -/
theorem Job.isQuiet_log (level : Level) (scope message : String) (extra : List (String × Value)) :
    (Job.log level scope message extra).IsQuiet :=
  only_request rfl

/-- Fetching rows makes no connection. -/
theorem Frame.isQuiet_fetch (connection : Nat) (statement : String) :
    (fetch connection statement).IsQuiet := by
  refine only_bind (Job.isQuiet_log ..) fun _ => only_bind (only_outcome ?_) fun outcome => ?_
  · exact only_bind (only_request rfl) fun rows => only_bind (only_ofAttempt _) fun count =>
      only_bind (Job.isQuiet_log ..) fun _ => trivial
  · cases outcome with
    | ok rows => exact trivial
    | error refusal =>
      exact only_bind (only_ofAttempt _) fun message =>
      only_bind (Job.isQuiet_log ..) fun _ => trivial

/-- Fetching the first rows makes no connection. -/
theorem Frame.isQuiet_head (f : Frame) (count : Value) : (f.head count).IsQuiet :=
  only_bind (only_ofAttempt _) fun _ => only_bind (only_ofAttempt _) fun _ =>
    only_bind (isQuiet_fetch _ _) fun _ => trivial

/-- Counting rows makes no connection. -/
theorem Frame.isQuiet_rowCount (f : Frame) : f.rowCount.IsQuiet := by
  refine only_bind (only_ofAttempt _) fun _ => only_bind (isQuiet_fetch _ _) fun rows =>
    only_bind (only_ofAttempt _) fun count? => ?_
  cases count? with
  | some n => exact trivial
  | none => exact trivial

/-- Loading a catalog makes no connection of its own. -/
theorem Catalog.isQuiet_load (connection : Connection) (wanted? : Option Dialect) (next : Nat) :
    (load connection wanted? next).IsQuiet :=
  only_load (P := Outside.Request.IsQuiet) (fun _ => rfl) (fun _ _ => rfl)
    (fun _ => rfl) rfl connection wanted? next

/-- Composing the details makes no connection. -/
theorem Service.isQuiet_details (settings : Settings) (request : FrameRequest) (f : Frame) :
    (details settings request f).IsQuiet := by
  unfold details
  cases request.action with
  | sql => exact trivial
  | head =>
    exact only_bind (f.isQuiet_head _) fun _ => only_bind (only_ofAttempt _) fun _ => trivial
  | shape => exact only_bind f.isQuiet_rowCount fun _ => trivial

end Quiet

/-! ## Errands -/

/-- What a call wants of a database: its URL, and the reply that is made of its catalog. A call that
takes the time is given when it started. -/
structure Errand where
  url : String
  respond : Number → Catalog → Job Reply

namespace Service

/-- The reply to a frame call, made of a catalog. -/
def respondFrame (settings : Settings) (request : FrameRequest) (started : Number) (c : Catalog) :
    Job Reply := do
  let (f, _) ← Asking.ofAttempt ((request.frame.build c).run c.tables.length)
  let sql ← Asking.ofAttempt f.sql
  let more ← details settings request f
  let finished ← Job.now
  Job.log .info "" "frame_ok"
    [("table", .text request.frame.table), ("action", .text request.action.name),
      ("sql", .text sql), ("durationMs", .number (finished.sub started))]
  Asking.ofAttempt
    (Reply.ofValue (.record ([("sql", .text sql), ("columns", .list f.labels)] ++ more)))

end Service

namespace Call

/-- The URL that a call gives and the reply it makes of a catalog, if it wants one and its body can
be read. -/
def wanted? (settings : Settings) : Call → Option (Option String × (Number → Catalog → Job Reply))
  | .health _ => none
  | .tables url? =>
    some (url?,
      fun _ c => Asking.ofAttempt (Reply.ofValue (.record [("tables", .list (c.names.map .text))])))
  | .table url? name => some (url?, fun _ c => do
      let t ← Asking.ofAttempt (c.table name)
      Asking.ofAttempt
        (Reply.ofValue
        (.record [("name", .text name), ("columns", Service.columnsValue t.columns)])))
  | .overview url? => some (url?, fun _ c => do
      let text ← Asking.ofAttempt c.overview.text
      pure ⟨200, .plain text⟩)
  | .frame body => (FrameRequest.parse settings.maxLimit body).toOption.map fun request =>
      (request.databaseUrl?, Service.respondFrame settings request)

/-- What a call wants of a database, if it wants anything and the database is given. -/
def errand? (settings : Settings) (call : Call) : Option Errand := do
  let (url?, respond) ← call.wanted? settings
  let url ← (Service.urlOf settings url?).toOption
  some ⟨url, respond⟩

/-- The time at which a call starts, if it takes the time. -/
def started : Call → Job Number
  | .frame _ => Job.now
  | _ => pure 0

/-- A call reads the clock once and starts then. -/
theorem goes_started {call : Call} {transcript : List (Exchange Outside.interface)}
    {outcome : Attempt Number} (h : call.started.run.Goes transcript outcome) :
    (∃ started, outcome = .ok started) ∧ ∀ e ∈ transcript, e.request = .now := by
  cases call with
  | health | tables | table | overview =>
    obtain ⟨rfl, rfl⟩ := Dialogue.goes_done_iff.mp h
    exact ⟨⟨_, rfl⟩, fun e he => by cases he⟩
  | frame =>
    obtain ⟨time, rfl, rfl⟩ := Asking.goes_request_iff.mp h
    exact ⟨⟨_, rfl⟩, fun e he => by rw [List.mem_singleton.mp he]⟩

end Call

namespace Service

variable {settings : Settings}

/-- The catalog of a URL, loaded if none is kept that is still good. -/
def catalogOf (settings : Settings) (url : String) : Serving Catalog := do
  let now ← Serving.ofJob Job.now
  let kept ← Serving.find url
  match kept.filter (isGood settings now) with
  | some s => pure s.catalog
  | none => do
    let connection ← Serving.ofJob (Job.connect url)
    let loaded ← Serving.ofJob (Catalog.load connection none 0)
    Serving.keep url ⟨now, loaded⟩
    pure loaded

/-- A catalog is that of the URL, if there is one. -/
theorem catalog_eq (url? : Option String) :
    catalog settings url? = Serving.ofAttempt (urlOf settings url?) >>= catalogOf settings := rfl

/-- A call for a database comes by its catalog and makes the reply of it. -/
theorem handle_of_wanted {call : Call} {url? : Option String}
    {respond : Number → Catalog → Job Reply} (h : call.wanted? settings = some (url?, respond)) :
    handle settings call = (Serving.ofJob call.started >>= fun started =>
      catalog settings url? >>= fun c => Serving.ofJob (respond started c)) := by
  cases call with
  | health => cases h
  | tables =>
    cases h
    rfl
  | table | overview =>
    cases h
    rw [handle]
    simp only [Serving.ofJob_bind]
    rfl
  | frame body =>
    obtain ⟨request, hrequest, h⟩ := Option.map_eq_some_iff.mp h
    cases h
    rw [handle, handleFrame, Attempt.toOption_eq_some.mp hrequest]
    simp only [Serving.ofAttempt_ok_bind, respondFrame, Serving.ofJob_bind]
    rfl

/-- A call with an errand starts, gets the catalog, and responds with it. -/
theorem handle_of_errand {call : Call} {errand : Errand} (h : call.errand? settings = some errand) :
    handle settings call = (Serving.ofJob call.started >>= fun started =>
      catalogOf settings errand.url >>= fun c => Serving.ofJob (errand.respond started c)) := by
  obtain ⟨⟨url?, respond⟩, hwanted, h⟩ := Option.bind_eq_some_iff.mp h
  obtain ⟨url, hurl, h⟩ := Option.bind_eq_some_iff.mp h
  cases h
  rw [handle_of_wanted hwanted, catalog_eq, Attempt.toOption_eq_some.mp hurl]
  rfl

/-- The time matters for a frame call only, which takes it. -/
theorem respond_started {call : Call} {errand : Errand} (h : call.errand? settings = some errand)
    {now started : Number} {transcript : List (Exchange Outside.interface)}
    (hgoes : call.started.run.Goes transcript (.ok started)) (hnow : StandsAt now transcript) :
    errand.respond started = errand.respond now := by
  obtain ⟨⟨url?, respond⟩, hwanted, h⟩ := Option.bind_eq_some_iff.mp h
  obtain ⟨url, hurl, h⟩ := Option.bind_eq_some_iff.mp h
  cases h
  cases call with
  | health => cases hwanted
  | tables | table | overview =>
    cases hwanted
    rfl
  | frame body =>
    obtain ⟨answer, rfl, hstarted⟩ := Asking.goes_request_iff.mp hgoes
    cases hstarted
    rw [hnow _ (List.mem_singleton_self _)]

/-- Responding makes no connection. -/
theorem isQuiet_respond {call : Call} {errand : Errand} (h : call.errand? settings = some errand)
    (now : Number) (c : Catalog) : (errand.respond now c).IsQuiet := by
  obtain ⟨⟨url?, respond⟩, hwanted, h⟩ := Option.bind_eq_some_iff.mp h
  obtain ⟨url, hurl, h⟩ := Option.bind_eq_some_iff.mp h
  cases h
  open Asking in
  cases call with
  | health => cases hwanted
  | tables =>
    cases hwanted
    exact only_ofAttempt _
  | table =>
    cases hwanted
    exact only_bind (only_ofAttempt _) fun _ => only_ofAttempt _
  | overview =>
    cases hwanted
    exact only_bind (only_ofAttempt _) fun _ => trivial
  | frame body =>
    obtain ⟨request, _, hwanted⟩ := Option.map_eq_some_iff.mp hwanted
    cases hwanted
    exact only_bind (only_ofAttempt _) fun _ => only_bind (only_ofAttempt _) fun _ =>
      only_bind (isQuiet_details ..) fun _ => only_bind Job.isQuiet_now fun _ =>
        only_bind (Job.isQuiet_log ..) fun _ => only_ofAttempt _

/-! ## Calls without an errand -/

/-- A sign of life takes one connection. -/
theorem length_connects_health {url? : Option String}
    {transcript : List (Exchange Outside.interface)} {outcome : Attempt Unit}
    (h : (health url?).run.Goes transcript outcome) : (connects transcript).length ≤ 1 := by
  have hnone : ∀ {a : Attempt Unit}, (Asking.ofAttempt a : Job Unit).run.Goes transcript outcome →
      (connects transcript).length ≤ 1 := by
    intro a h
    obtain ⟨rfl, _⟩ := Asking.goes_ofAttempt_iff.mp h
    exact Nat.zero_le 1
  cases url? with
  | none => exact hnone (a := .ok ()) h
  | some url =>
    by_cases hurl : url = ""
    · rw [health, if_pos hurl] at h
      exact hnone (a := .ok ()) h
    · rw [health, if_neg hurl] at h
      obtain ⟨connected, first, second, rfl, hconnect, hping⟩ := Asking.goes_bind_iff.mp h
      obtain ⟨_, rfl, rfl⟩ := Asking.goes_request_iff.mp hconnect
      -- what follows the connection takes no other one
      have hquiet : Job.IsQuiet (Asking.ofAttempt connected >>= fun connection =>
          if connection.answersPing then Job.ping connection.id else pure ()) := by
        refine Asking.only_bind (Asking.only_ofAttempt _) fun connection => ?_
        split
        · exact Asking.only_request rfl
        · exact trivial
      rw [connects_append, connects_of_quiet (hquiet.goes hping)]
      exact Nat.le_refl 1

/-- A call without an errand is a sign of life, or it fails once it has started. -/
theorem health_or_fault {call : Call} (h : call.errand? settings = none) :
    (∃ url?, call = .health url?) ∨
      ∃ fault, handle settings call = Serving.ofJob call.started >>= fun _ =>
        Serving.ofAttempt (.error fault) := by
  cases hwanted : call.wanted? settings with
  | some wanted =>
    obtain ⟨url?, respond⟩ := wanted
    -- what is missing is the URL
    cases hurl : urlOf settings url? with
    | ok url =>
      simp only [Call.errand?, hwanted, hurl, Option.bind_eq_bind, Option.bind_some] at h
      cases h
    | error fault =>
      refine .inr ⟨fault, ?_⟩
      rw [handle_of_wanted hwanted, catalog_eq, hurl]
      rfl
  | none =>
    cases call with
    | health url? => exact .inl ⟨url?, rfl⟩
    | tables | table | overview => cases hwanted
    | frame body =>
      cases hparse : FrameRequest.parse settings.maxLimit body with
      | ok request =>
        rw [Call.wanted?, hparse] at hwanted
        cases hwanted
      | error fault =>
        refine .inr ⟨fault, ?_⟩
        rw [handle, handleFrame, hparse]
        rfl

/-- A call without an errand leaves the catalogs alone and connects at most once. -/
theorem handle_without_errand {call : Call} (h : call.errand? settings = none)
    {before after : Catalogs} {transcript : List (Exchange Outside.interface)}
    {outcome : Attempt Reply}
    (hgoes : (handle settings call).Goes before transcript outcome after) :
    after = before ∧ (connects transcript).length ≤ 1 := by
  obtain ⟨url?, rfl⟩ | ⟨fault, heq⟩ := health_or_fault h
  · obtain ⟨result, first, second, rfl, hfirst, hsecond⟩ := Serving.goes_ofJob_bind_iff.mp hgoes
    obtain ⟨outcome', hhealth, rfl⟩ := Asking.goes_outcome_iff.mp hfirst
    obtain ⟨reply, hreply⟩ :
        ∃ reply : Attempt Reply, (Serving.ofAttempt reply).Goes before second outcome after := by
      cases outcome' with
      | ok _ => exact ⟨_, hsecond⟩
      | error refusal => exact ⟨.error (refusal.asExecution none), hsecond⟩
    obtain ⟨rfl, _, hafter⟩ := Serving.goes_ofAttempt_iff.mp hreply
    rw [List.append_nil]
    exact ⟨hafter, length_connects_health hhealth⟩
  · rw [heq] at hgoes
    obtain ⟨_, first, second, rfl, hfirst, hsecond⟩ := Serving.goes_ofJob_bind_iff.mp hgoes
    obtain ⟨⟨started, rfl⟩, hnow⟩ := Call.goes_started hfirst
    rw [Serving.ofAttempt_ok_bind] at hsecond
    obtain ⟨rfl, _, hafter⟩ := Serving.goes_ofAttempt_iff.mp hsecond
    rw [List.append_nil, connects_of_quiet (quiet_of_clock hnow)]
    exact ⟨hafter, Nat.zero_le 1⟩

end Service

end LazyFrame
