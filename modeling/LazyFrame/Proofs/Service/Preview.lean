import LazyFrame.Proofs.Service.Caching
import LazyFrame.Proofs.Sql.Windows

/-!
# What a preview asks for

A frame call for the first rows runs at most one statement, the slice of the frame's plan to the
number of rows that the call names, or to the number of the settings if it names none. The number
that is named is checked against the greatest one of the settings when the call is read; the number
of the settings is not. So the number that is asked for is within the limit if and only if it was
named or the settings keep to their own limit (`Service.preview_bounded_iff`).

Everything but a fetch runs no statement (`Outside.Request.IsIdle`), so the statements of a call are
found by following it to its one fetch.
-/

namespace LazyFrame

/-! ## Statements that are run -/

/-- The connection and the statement of a request that runs one. -/
def Outside.Request.execution? : Outside.Request → Option (Nat × String)
  | .execute connection statement => some (connection, statement)
  | _ => none

/-- A request that runs no statement. -/
def Outside.Request.IsIdle (r : Outside.Request) : Prop := r.execution? = none

/-- The statements that were run, each over its connection. -/
def executions (transcript : List (Exchange Outside.interface)) : List (Nat × String) :=
  transcript.filterMap fun e => e.request.execution?

theorem executions_append (first second : List (Exchange Outside.interface)) :
    executions (first ++ second) = executions first ++ executions second :=
  List.filterMap_append

theorem executions_of_idle {transcript : List (Exchange Outside.interface)}
    (h : ∀ e ∈ transcript, e.request.IsIdle) : executions transcript = [] :=
  List.filterMap_eq_nil_iff.mpr h

theorem executions_clock {clock : List (Exchange Outside.interface)}
    (h : ∀ e ∈ clock, e.request = .now) : executions clock = [] := by
  refine executions_of_idle fun e he => ?_
  rw [h e he]
  rfl

/-- A job that runs no statement. -/
def Job.IsIdle {α : Type} (t : Job α) : Prop := t.run.Only Outside.Request.IsIdle

section Idle

variable {α β : Type} {transcript : List (Exchange Outside.interface)}

theorem Job.IsIdle.executions {t : Job α} (h : t.IsIdle) {outcome : Attempt α}
    (hgoes : t.run.Goes transcript outcome) : LazyFrame.executions transcript = [] :=
  executions_of_idle (h.goes hgoes)

/-- What a check lets through to run a statement goes on. -/
theorem executions_of_attempt {a : Attempt α} {f : α → Job β} {outcome : Attempt β}
    (h : (Asking.ofAttempt a >>= f).run.Goes transcript outcome)
    (hruns : executions transcript ≠ []) : ∃ x, a = .ok x ∧ (f x).run.Goes transcript outcome := by
  cases a with
  | ok x => exact ⟨x, rfl, h⟩
  | error fault =>
    obtain ⟨rfl, _⟩ := Asking.goes_ofAttempt_iff.mp h
    exact absurd rfl hruns

/-- The statements of a job are those of its first part if nothing is run behind it. -/
theorem executions_of_idle_behind {x : Job α} {f : α → Job β} {outcome : Attempt β}
    (h : (x >>= f).run.Goes transcript outcome) (hf : ∀ a, (f a).IsIdle) :
    ∃ result first, x.run.Goes first result ∧ executions transcript = executions first := by
  obtain ⟨result, first, second, rfl, hfirst, hsecond⟩ := Asking.goes_bind_iff.mp h
  have hidle : Job.IsIdle (Asking.ofAttempt result >>= f) :=
    Asking.only_bind (Asking.only_ofAttempt _) hf
  refine ⟨result, first, hfirst, ?_⟩
  rw [executions_append, hidle.executions hsecond, List.append_nil]

open Asking

theorem Catalog.isIdle_load (connection : Connection) (wanted? : Option Dialect) (next : Nat) :
    (load connection wanted? next).IsIdle :=
  only_load (P := Outside.Request.IsIdle) (fun _ => rfl) (fun _ _ => rfl)
    (fun _ => rfl) rfl connection wanted? next

theorem Service.isIdle_settled (outcome : Attempt Reply) : (settled outcome).IsIdle := by
  cases outcome with
  | ok reply => exact trivial
  | error fault => exact only_bind (only_request rfl) fun _ => trivial

end Idle

/-! ## A fetch -/

namespace Frame

variable {transcript : List (Exchange Outside.interface)}

/-- A fetch runs its statement, whatever comes of it. -/
theorem executions_fetch {connection : Nat} {statement : String} {outcome : Attempt Value}
    (h : (fetch connection statement).run.Goes transcript outcome) : executions transcript =
      [(connection, statement)] := by
  obtain ⟨_, first, rest, rfl, hfirst, hrest⟩ := Asking.goes_bind_iff.mp h
  obtain ⟨_, rfl, rfl⟩ := Asking.goes_request_iff.mp hfirst
  rw [Asking.ofAttempt_ok_bind] at hrest
  -- behind the rows there are only lines for the log
  obtain ⟨_, run, hrun, heq⟩ := executions_of_idle_behind hrest fun reply => by
    cases reply with
    | ok rows => exact trivial
    | error refusal =>
      exact Asking.only_bind (Asking.only_ofAttempt _) fun _ =>
        Asking.only_bind (Asking.only_request rfl) fun _ => trivial
  obtain ⟨_, hreply, _⟩ := Asking.goes_outcome_iff.mp hrun
  obtain ⟨_, execute, hexecute, heq'⟩ := executions_of_idle_behind hreply fun rows =>
    Asking.only_bind (Asking.only_ofAttempt _) fun _ => Asking.only_bind (Asking.only_request rfl)
      fun _ => trivial
  obtain ⟨_, rfl, _⟩ := Asking.goes_request_iff.mp hexecute
  rw [executions_append, heq, heq']
  rfl

theorem headCount_eq_ok {n m : Number} :
    headCount (.number n) = .ok m ↔ Window.isStart n = true ∧ m = n := by
  unfold headCount
  by_cases hstart : Window.isStart n = true
  · simp only [hstart, if_true, Except.ok.injEq, true_and, eq_comm]
  · simp only [hstart, if_false, reduceCtorEq, false_and]

/-- The first rows of a plan are a slice of it, for a window with an end leaves something out. -/
theorem slice?_eq_preview (p : Plan) (n : Number) : p.slice? ⟨0, some n⟩ = some (preview p n) := by
  cases hq : p.slice? ⟨0, some n⟩ with
  | none =>
    have hwhole := Plan.slice?_eq_none.mp hq
    simp [Window.isWhole] at hwhole
  | some q => rw [preview, hq, Option.getD_some]

/-- What runs a statement to show the first rows of a frame runs that of the slice of its plan. -/
theorem executions_head {f : Frame} {n : Number} {outcome : Attempt Grid}
    (h : (f.head (.number n)).run.Goes transcript outcome) (hruns : executions transcript ≠ []) :
    Window.isStart n = true ∧ ∃ q statement, f.plan.slice? ⟨0, some n⟩ = some q ∧
    f.sqlOf q = .ok statement ∧
      executions transcript = [(f.connection, statement)] := by
  obtain ⟨m, hcount, hwritten⟩ := executions_of_attempt h hruns
  obtain ⟨hstart, rfl⟩ := headCount_eq_ok.mp hcount
  obtain ⟨statement, hstatement, hfetched⟩ := executions_of_attempt hwritten hruns
  obtain ⟨_, run, hrun, heq⟩ := executions_of_idle_behind hfetched fun _ => trivial
  exact ⟨hstart, _, statement, slice?_eq_preview f.plan m, hstatement,
    heq.trans (executions_fetch hrun)⟩

end Frame

/-! ## The number of rows -/

/-- The text of a query over the columns of a frame is that of a statement with its bounds. -/
theorem Frame.sqlOf_eq_ok {f : Frame} {q : Query} {text : String} (h : f.sqlOf q = .ok text) :
    ∃ s : Statement, q.Bounds s.clauses ∧ text = s.text f.dialect := by
  unfold sqlOf at h
  split at h
  · obtain ⟨s, hs, h⟩ := Attempt.bind_eq_ok.mp h
    cases h
    exact ⟨s, (List.forall₂_cons.mp (Query.selects_statement hs)).1, rfl⟩
  · obtain ⟨s, hs, h⟩ := Attempt.bind_eq_ok.mp h
    obtain ⟨written, hwritten, h⟩ := Attempt.bind_eq_ok.mp h
    cases h
    obtain ⟨⟨_, _⟩, hclauses, hwritten⟩ := Attempt.bind_eq_ok.mp hwritten
    cases hwritten
    -- reported names stand in terms only
    obtain ⟨_, _, hclauses⟩ := Attempt.bind_eq_ok.mp hclauses
    obtain ⟨_, _, hclauses⟩ := Attempt.bind_eq_ok.mp hclauses
    obtain ⟨_, _, hclauses⟩ := Attempt.bind_eq_ok.mp hclauses
    cases hclauses
    refine ⟨_, ?_, rfl⟩
    exact (List.forall₂_cons.mp (Query.selects_statement hs)).1

namespace FrameRequest

variable {body : Value} {request : FrameRequest} {most : Number}

/-- A number of rows that has passed its check, or none at all. -/
theorem countOf_eq_ok {v : Value} {count? : Option Number} (h : countOf most v = .ok count?) :
    (v = .missing ∧ count? = none) ∨ ∃ n, v = .number n ∧ count? = some n ∧ n.isInteger = true ∧
    most.lt n = false := by
  unfold countOf at h
  split at h
  · cases h
    exact .inl ⟨rfl, rfl⟩
  · rename_i n
    split at h
    · rename_i hn
      cases h
      simp only [Bool.and_eq_true, Bool.not_eq_true'] at hn
      exact .inr ⟨n, rfl, rfl, hn.1.1, hn.2⟩
    · cases h
  · cases h

/-- What is read of a request: its action and its number of rows. -/
theorem parse_eq_ok (h : parse most body = .ok request) :
    Action.ofValue (body.field "action") = .ok request.action ∧ countOf most (body.field "n") =
      .ok request.count? := by
  unfold parse at h
  split at h
  · obtain ⟨_, _, h⟩ := Attempt.bind_eq_ok.mp h
    obtain ⟨_, haction, h⟩ := Attempt.bind_eq_ok.mp h
    obtain ⟨_, hcount, h⟩ := Attempt.bind_eq_ok.mp h
    obtain ⟨_, _, h⟩ := Attempt.bind_eq_ok.mp h
    cases h
    exact ⟨haction, hcount⟩
  · cases h

end FrameRequest

theorem Settings.isWhole_maxLimit (environment : List (String × String)) :
    (ofEnvironment environment).maxLimit.IsWhole :=
  isWhole_numberFrom _ (Number.isWhole_ofNat (by decide))

/-- A whole number that is not beyond another one is at most that. -/
theorem Number.le_of_not_lt {n most : Number} (hn : n.isInteger = true) (hmost : most.IsWhole)
    (h : most.lt n = false) : n.le most = true := by
  obtain ⟨z, hz⟩ := exists_intCast hn
  obtain ⟨w, hw⟩ := hmost
  rw [lt_of_toRat? hw hz, decide_eq_false_iff_not, not_lt] at h
  rw [le_of_toRat? hz hw, decide_eq_true_iff]
  exact h

/-! ## A call for the first rows -/

namespace Service

/-- A call comes by a catalog of a URL on its way. -/
def ComesBy (settings : Settings) (url : String) (c : Catalog) (before after : Catalogs)
    (transcript : List (Exchange Outside.interface)) : Prop :=
  ∃ front search rest, transcript = front ++ (search ++ rest) ∧
    (catalogOf settings url).Goes before search (.ok c) after

/-- What was run is one statement, that of the first `m` rows of the frame that is described over a
catalog. -/
def Shows (spec : FrameSpec) (c : Catalog) (m : Number) (run : List (Nat × String)) : Prop :=
  ∃ f next q statement, spec.build c c.tables.length = .ok (f, next) ∧
    f.plan.slice? ⟨0, some m⟩ = some q ∧
    f.sqlOf q = .ok statement ∧ run = [(f.connection, statement)]

variable {settings : Settings} {body : Value} {before after : Catalogs}
    {transcript : List (Exchange Outside.interface)}

/-- Nothing is run to come by a catalog. -/
theorem executions_catalogOf {url : String} {found : Attempt Catalog}
    (h : (catalogOf settings url).Goes before transcript found after) :
    executions transcript = [] := by
  obtain ⟨now, rest, rfl, hobtains⟩ := obtains_of_goes h
  cases hobtains with
  | kept | refused => rfl
  | failed _ hload | loaded _ hload =>
    have hidle := (Catalog.isIdle_load _ none 0).executions hload
    exact hidle

/-- A reply with the first rows of a frame runs the statement of these rows, if it runs any. -/
theorem shows_of_respondFrame {request : FrameRequest} (haction : request.action = .head)
    {started : Number} {c : Catalog} {outcome : Attempt Reply}
    (h : (respondFrame settings request started c).run.Goes transcript outcome)
    (hruns : executions transcript ≠ []) :
    Window.isStart (request.count?.getD settings.headRows) = true ∧
      Shows request.frame c (request.count?.getD settings.headRows) (executions transcript) := by
  obtain ⟨⟨f, next⟩, hbuild, hwritten⟩ := executions_of_attempt h hruns
  obtain ⟨_, _, hmore⟩ := executions_of_attempt hwritten hruns
  obtain ⟨_, shown, hdetails, heq⟩ :=
    executions_of_idle_behind hmore fun _ => Asking.only_bind (Asking.only_request rfl)
    fun _ => Asking.only_bind (Asking.only_request rfl) fun _ => Asking.only_ofAttempt _
  rw [details, haction] at hdetails
  obtain ⟨_, run, hhead, heq'⟩ :=
    executions_of_idle_behind hdetails fun _ => Asking.only_bind (Asking.only_ofAttempt _)
    fun _ => trivial
  rw [heq.trans heq'] at hruns
  obtain ⟨hstart, q, statement, hslice, hstatement, hone⟩ := Frame.executions_head hhead hruns
  exact ⟨hstart, f, next, q, statement, hbuild, hslice, hstatement, (heq.trans heq').trans hone⟩

/-- A call that fails once it has started runs nothing. -/
theorem executions_of_fault {call : Call} {fault : Fault} {outcome : Attempt Reply}
    (hfault : handle settings call = Serving.ofJob call.started >>=
      fun _ => Serving.ofAttempt (.error fault))
    (h : (handle settings call).Goes before transcript outcome after) :
    executions transcript = [] := by
  rw [hfault] at h
  obtain ⟨_, start, rest, rfl, hstart, hrest⟩ := Serving.goes_ofJob_bind_iff.mp h
  obtain ⟨⟨started, rfl⟩, hnow⟩ := Call.goes_started hstart
  rw [Serving.ofAttempt_ok_bind] at hrest
  obtain ⟨rfl, _⟩ := Serving.goes_ofAttempt_iff.mp hrest
  rw [List.append_nil, executions_clock hnow]

/-- A frame call that runs a statement has been read, has come by a catalog and has made its reply
of it; nothing else of it runs a statement. -/
theorem goes_answer_frame {result : Attempt Reply}
    (h : (answer settings (.ok (.frame body))).Goes before transcript result after)
    (hruns : executions transcript ≠ []) :
    ∃ request url c started reply outcome, FrameRequest.parse settings.maxLimit body = .ok request ∧
      urlOf settings request.databaseUrl? = .ok url ∧
      ComesBy settings url c before after transcript ∧
      (respondFrame settings request started c).run.Goes reply outcome ∧ executions transcript =
        executions reply := by
  obtain ⟨outcome, handled, last, rfl, hhandle, hlast⟩ := goes_answer h
  have heq : executions (handled ++ last) = executions handled := by
    rw [executions_append, (isIdle_settled outcome).executions hlast, List.append_nil]
  -- settling the reply runs nothing, so the statement was run by the handler
  rw [heq] at hruns
  cases herrand : (Call.frame body).errand? settings with
  | none =>
    obtain ⟨url?, hcall⟩ | ⟨fault, hfault⟩ := health_or_fault herrand
    · cases hcall
    · exact absurd (executions_of_fault hfault hhandle) hruns
  | some errand =>
    rw [handle_of_errand herrand] at hhandle
    obtain ⟨⟨url?, respond⟩, hwanted, hgiven⟩ := Option.bind_eq_some_iff.mp herrand
    obtain ⟨url, hurl, heqs⟩ := Option.bind_eq_some_iff.mp hgiven
    cases heqs
    obtain ⟨request, hrequest, heqs⟩ := Option.map_eq_some_iff.mp hwanted
    cases heqs
    -- the clock and the search for a catalog run nothing either
    obtain ⟨_, start, rest, rfl, hstart, hrest⟩ := Serving.goes_ofJob_bind_iff.mp hhandle
    obtain ⟨⟨started, rfl⟩, hnow⟩ := Call.goes_started hstart
    rw [Serving.ofAttempt_ok_bind] at hrest
    obtain ⟨found, between, search, reply, rfl, hsearch, hreply⟩ := Serving.goes_bind_iff.mp hrest
    have hbehind : executions (start ++ (search ++ reply)) = executions reply := by
      rw [executions_append, executions_append, executions_clock hnow, executions_catalogOf hsearch,
        List.nil_append, List.nil_append]
    cases found with
    | error fault =>
      obtain ⟨rfl, _⟩ := Serving.goes_ofAttempt_iff.mp hreply
      exact absurd hbehind hruns
    | ok c =>
      rw [Serving.ofAttempt_ok_bind] at hreply
      obtain ⟨hresponse, rfl⟩ := Serving.goes_ofJob_iff.mp hreply
      refine ⟨request, url, c, started, reply, outcome, Attempt.toOption_eq_some.mp hrequest,
        Attempt.toOption_eq_some.mp hurl, ⟨start, search, reply ++ last, ?_, hsearch⟩, hresponse,
          heq.trans hbehind⟩
      simp only [List.append_assoc]

/-- Under every environment, a frame call for the first rows that runs a statement runs that of one
slice, from the first row on, to the number that the call names or else to that of the settings.
This number is within the limit if and only if the call names it or the settings keep to their own
limit. -/
theorem preview_bounded_iff (environment : List (String × String))
    (hhead : body.field "action" = .text "head") {result : Attempt Reply}
    (hgoes : (answer (.ofEnvironment environment) (.ok (.frame body))).Goes before
      transcript result after)
    (hruns : executions transcript ≠ []) :
    let settings := Settings.ofEnvironment environment
    ∃ request url c m, FrameRequest.parse settings.maxLimit body = .ok request ∧
      urlOf settings request.databaseUrl? = .ok url ∧
      ComesBy settings url c before after transcript ∧
      Shows request.frame c m (executions transcript) ∧
      (body.field "n" = .missing ∧ m = settings.headRows ∨ body.field "n" = .number m) ∧
      (0 : Number).le m = true ∧
      (m.le settings.maxLimit = true ↔ body.field "n" ≠ .missing ∨
        settings.headRows.le settings.maxLimit = true) := by
  intro settings
  obtain ⟨request, url, c, started, reply, outcome, hrequest, hurl, hcomes, hresponse, heq⟩ :=
    goes_answer_frame hgoes hruns
  obtain ⟨haction, hcount⟩ := FrameRequest.parse_eq_ok hrequest
  rw [hhead] at haction
  have hhead' : request.action = .head := (Except.ok.inj haction).symm
  rw [heq] at hruns ⊢
  obtain ⟨hstart, hshows⟩ := shows_of_respondFrame hhead' hresponse hruns
  obtain ⟨k, hk⟩ := Number.exists_natCast hstart
  have hnonneg : (0 : Number).le (request.count?.getD settings.headRows) = true := by
    rw [Number.le_of_toRat? rfl hk, decide_eq_true_iff]
    exact Nat.cast_nonneg k
  refine ⟨request, url, c, _, hrequest, hurl, hcomes, hshows, ?_⟩
  -- only a number that the call names is compared with the limit
  obtain ⟨hmissing, hnone⟩ | ⟨n, hn, hsome, hinteger, hmost⟩ := FrameRequest.countOf_eq_ok hcount
  · rw [hnone, Option.getD_none] at hnonneg ⊢
    exact ⟨.inl ⟨hmissing, rfl⟩, hnonneg, .inr, fun h => h.resolve_left fun hne => hne hmissing⟩
  · rw [hsome, Option.getD_some] at hnonneg ⊢
    have hle := Number.le_of_not_lt hinteger (Settings.isWhole_maxLimit environment) hmost
    refine ⟨.inr hn, hnonneg, fun _ => .inl fun hmissing => ?_, fun _ => hle⟩
    rw [hn] at hmissing
    cases hmissing

/-- Five rows are asked for if nothing is said about their number. -/
theorem preview_bounded_tracks :
    let settings := Settings.ofEnvironment [("PG_URL", "music")]
    let body : Value :=
      .record [("frame", .record [("table", .text "tracks")]), ("action", .text "head")]
    let v := visited settings (oneTable 0) () (.frame body) 0 (.empty settings.cachedConnections)
    executions v.1.transcript = [(0, "SELECT a.id FROM tracks AS a LIMIT 5;")] ∧
      ∃ spec c m, Shows spec c m (executions v.1.transcript) ∧ m.le settings.maxLimit = true := by
  intro settings body v
  have hone : executions v.1.transcript = [(0, "SELECT a.id FROM tracks AS a LIMIT 5;")] := by
    decide +kernel
  have hruns : executions v.1.transcript ≠ [] := by
    rw [hone]
    exact List.cons_ne_nil _ _
  obtain ⟨request, _, c, m, _, _, _, hshows, _, _, hbounded⟩ :=
    preview_bounded_iff [("PG_URL", "music")] rfl
    (goes_visited settings (fun _ => rfl) () (.frame body) _).2 hruns
  exact ⟨hone, request.frame, c, m, hshows, hbounded.mpr (.inr (by decide +kernel))⟩

/-! ## Settings beyond their own limit -/

/-- The statement of first rows ends with their number. -/
theorem Shows.limit {spec : FrameSpec} {c : Catalog} {m : Number} {run : List (Nat × String)}
    (h : Shows spec c m run) :
    ∃ connection front, run = [(connection, front ++ (" LIMIT " ++ (m.sub 0).text ++ ";"))] := by
  obtain ⟨f, _, q, statement, _, hslice, hstatement, rfl⟩ := h
  obtain ⟨_, rfl⟩ := Plan.slice?_eq_some.mp hslice
  obtain ⟨s, ⟨hlimit, hoffset⟩, rfl⟩ := Frame.sqlOf_eq_ok hstatement
  have hnone : Window.offset? ⟨0, some m⟩ = none := rfl
  have hwindow : f.dialect.window s.clauses.limit? s.clauses.offset? =
      " LIMIT " ++ (m.sub 0).text := by
    rw [hlimit, hoffset, hnone]
    exact (Dialect.window_rows ..).trans String.append_empty
  obtain ⟨front, hfront⟩ : ∃ front, s.text f.dialect =
      front ++ (" LIMIT " ++ (m.sub 0).text ++ ";") := by
    rw [Statement.text, Clauses.text, hwindow, String.append_assoc]
    exact ⟨_, rfl⟩
  exact ⟨f.connection, front, by rw [hfront]⟩

/-- The last word of a statement that ends with a number of rows. -/
theorem lastWord_limit (front : String) {count : String} (h : ' ' ∉ count.toList) :
    (front ++ (" LIMIT " ++ count ++ ";")).toList.reverse.takeWhile (· != ' ') =
      ';' :: count.toList.reverse := by
  have hword : ' ' ∉ ';' :: count.toList.reverse := by simpa using h
  have heq : (front ++ (" LIMIT " ++ count ++ ";")).toList.reverse =
      (';' :: count.toList.reverse) ++
        (' ' :: ("LIMIT".toList.reverse ++ ' ' :: front.toList.reverse)) := by
    simp [String.toList_append]
  rw [heq, Window.takeWhile_word hword]

/-- More rows are asked for than the limit allows if the settings say so. -/
theorem preview_beyond_limit :
    let settings :=
      Settings.ofEnvironment [("PG_URL", "music"), ("HEAD_ROWS", "50"), ("MAX_LIMIT", "10")]
    let body : Value :=
      .record [("frame", .record [("table", .text "tracks")]), ("action", .text "head")]
    let v := visited settings (oneTable 0) () (.frame body) 0 (.empty settings.cachedConnections)
    body.field "action" = .text "head" ∧
      v.1.Goes settings (.empty settings.cachedConnections) v.2 ∧
      executions v.1.transcript = [(0, "SELECT a.id FROM tracks AS a LIMIT 50;")] ∧
      ¬∃ spec c m, Shows spec c m (executions v.1.transcript) ∧ Window.isStart m = true ∧
        m.le settings.maxLimit = true := by
  intro settings body v
  have hone : executions v.1.transcript = [(0, "SELECT a.id FROM tracks AS a LIMIT 50;")] := by
    decide +kernel
  refine ⟨rfl, goes_visited settings (fun _ => rfl) () (.frame body) _, hone, ?_⟩
  rintro ⟨spec, c, m, hshows, hstart, hle⟩
  obtain ⟨_, front, hrun⟩ := hshows.limit
  obtain ⟨k, hk⟩ := Number.exists_natCast hstart
  have hten : settings.maxLimit.toRat? = some 10 := by decide +kernel
  have hsmall : k ≤ 10 := by
    rw [Number.le_of_toRat? hk hten, decide_eq_true_iff] at hle
    exact_mod_cast hle
  -- the number at the end would have to be written as `50`
  have htext : (m.sub 0).text = toString k := by
    have hplain : Number.IsPlain k := Number.isPlain_of_le (by omega)
    rw [Number.text_sub hk (y := 0) rfl (Nat.zero_le k), Nat.sub_zero]
    exact Number.text_round_eq_iff.mpr hplain
  rw [hone, htext] at hrun
  have hfifty := (Prod.mk.inj (List.cons.inj hrun).1).2
  have hword := lastWord_limit front (Number.isNumeral_nat k).blank_not_mem
  rw [← hfifty] at hword
  have hother :
      ∀ k ≤ 10, "SELECT a.id FROM tracks AS a LIMIT 50;".toList.reverse.takeWhile (· != ' ') ≠
      ';' :: (toString k).toList.reverse := by decide +kernel
  exact hother k hsmall hword

end Service

end LazyFrame
