import LazyFrame.Recency
import LazyFrame.Service.Request
import LazyFrame.Settings
import LazyFrame.Spec.Build

/-!
# The service

The service answers calls about databases known by their URLs. It keeps the catalogs it has loaded:
a catalog is good for as long as the settings say, counted from the time at which its loading began,
and of too many the one that was used the longest ago goes. A catalog whose loading fails is not
kept.

A call that fails is answered with the status and the message of its fault; the kind of the fault is
added if it is one of the library's own. Every such answer is logged.
-/

namespace LazyFrame

/-! ## Calls and replies -/

/-- A call. The body of a frame call is checked when the call is handled. -/
inductive Call where
  | health (url? : Option String)
  | tables (url? : Option String)
  | table (url? : Option String) (name : String)
  | overview (url? : Option String)
  | frame (body : Value)

/-- What a reply carries. -/
inductive Content where
  | json (value : Value)
  | plain (text : String)

/-- A reply: its status and what it carries. -/
structure Reply where
  status : Number
  content : Content

namespace Reply

/-- A successful reply with the JSON of a value, if it has one. -/
def ofValue (v : Value) : Attempt Reply := do
  let image ← Json.image .refused v
  .ok ⟨200, .json image⟩

/-- The message of a fault for a reply; one that has nothing to say is an internal error. -/
def messageOf (f : Fault) : Value :=
  let message := f.message?.getD .missing
  if message.isFilled then message else .text "Internal error"

/-- The reply to a call that failed. -/
def ofFault (f : Fault) : Reply :=
  let code := if f.isFrameFault then [("code", f.name)] else []
  ⟨f.statusCode, .json (.record ([("error", messageOf f)] ++ code))⟩

end Reply

/-! ## Catalogs in use -/

/-- A catalog and the time at which its loading began. -/
structure Stamped where
  loaded : Number
  catalog : Catalog
  deriving Inhabited

/-- The catalogs that the service keeps, by URL. -/
abbrev Catalogs := Recency String Stamped

/-- A computation that keeps catalogs, asks its surroundings and can fail. Catalogs stay what they
became when it fails. -/
abbrev Serving := ExceptT Fault (StateT Catalogs (Dialogue Outside.interface))

namespace Serving

variable {α : Type}

/-- A job that does not touch the catalogs. -/
def ofJob (t : Job α) : Serving α :=
  ExceptT.mk fun catalogs => t.run.bind fun a => .done (a, catalogs)

/-- Nothing is asked. -/
def ofAttempt (a : Attempt α) : Serving α := ofJob (Asking.ofAttempt a)

/-- Looks a catalog up. -/
def find (url : String) : Serving (Option Stamped) := do
  let catalogs ← get
  let (found, catalogs) := catalogs.get (some url)
  set catalogs
  pure found

/-- Keeps a catalog. -/
def keep (url : String) (s : Stamped) : Serving Unit :=
  modify fun catalogs => catalogs.set (some url) (some s)

/-- Goes on with the outcome, whatever it is. -/
def outcome (t : Serving α) : Serving (Attempt α) :=
  ExceptT.mk fun catalogs => (t.run catalogs).bind fun result => .done (.ok result.1, result.2)

end Serving

namespace Service

/-- Whether a catalog is still good. -/
def isGood (settings : Settings) (now : Number) (s : Stamped) : Bool :=
  (now.sub s.loaded).le (settings.schemaTtlSeconds.scaleBy 1000)

/-- The URL to use: the one given, else the one of the settings. -/
def urlOf (settings : Settings) (url? : Option String) : Attempt String :=
  let url := match url? with
    | some url => if url = "" then settings.databaseUrl else url
    | none => settings.databaseUrl
  if url = "" then .error (.badRequest .noDatabase) else .ok url

/-- The catalog of a database, loaded if none is kept that is still good. -/
def catalog (settings : Settings) (url? : Option String) : Serving Catalog := do
  let url ← Serving.ofAttempt (urlOf settings url?)
  let now ← Serving.ofJob Job.now
  let kept ← Serving.find url
  match kept.filter (isGood settings now) with
  | some s => pure s.catalog
  | none => do
    let connection ← Serving.ofJob (Job.connect url)
    let loaded ← Serving.ofJob (Catalog.load connection none 0)
    Serving.keep url ⟨now, loaded⟩
    pure loaded

/-! ## Answers -/

/-- A sign of life of the database, if one is given and can give it. -/
def health (url? : Option String) : Job Unit := do
  match url? with
  | none => pure ()
  | some url =>
    if url = "" then pure ()
    else do
      let connection ← Job.connect url
      if connection.answersPing then Job.ping connection.id

/-- The columns of a table as the service lists them. -/
def columnsValue (columns : List Column) : Value :=
  .list (columns.map fun c => .record [("name", c.label), ("type", .text c.type)])

/-- The first rows of a frame if they are asked for, or its shape if that is. -/
def details (settings : Settings) (request : FrameRequest) (f : Frame) :
    Job (List (String × Value)) := do
  match request.action with
  | .sql => pure []
  | .head => do
    let g ← f.head (.number (request.count?.getD settings.headRows))
    let rows ← Asking.ofAttempt (g.rows.elements "table.rows")
    pure [("rows", .list rows)]
  | .shape => do
    let count ← f.rowCount
    pure [("shape", .list [.number count, .number (Number.ofNat f.columns.length)])]

/-- Handles a frame call. -/
def handleFrame (settings : Settings) (body : Value) : Serving Reply := do
  let started ← Serving.ofJob Job.now
  let request ← Serving.ofAttempt (FrameRequest.parse settings.maxLimit body)
  let c ← catalog settings request.databaseUrl?
  let (f, _) ← Serving.ofAttempt ((request.frame.build c).run c.tables.length)
  let sql ← Serving.ofAttempt f.sql
  let more ← Serving.ofJob (details settings request f)
  let finished ← Serving.ofJob Job.now
  Serving.ofJob (Job.log .info "" "frame_ok"
    [("table", .text request.frame.table), ("action", .text request.action.name),
      ("sql", .text sql), ("durationMs", .number (finished.sub started))])
  Serving.ofAttempt (Reply.ofValue
    (.record ([("sql", .text sql), ("columns", .list f.labels)] ++ more)))

/-- Handles a call. -/
def handle (settings : Settings) : Call → Serving Reply
  | .health url? => do
    let outcome ← Serving.ofJob (Asking.outcome (health url?))
    match outcome with
    | .ok _ => Serving.ofAttempt (Reply.ofValue (.record [("ok", .bool true)]))
    | .error refusal => throw (refusal.asExecution none)
  | .tables url? => do
    let c ← catalog settings url?
    Serving.ofAttempt (Reply.ofValue (.record [("tables", .list (c.names.map .text))]))
  | .table url? name => do
    let c ← catalog settings url?
    let t ← Serving.ofAttempt (c.table name)
    Serving.ofAttempt
      (Reply.ofValue (.record [("name", .text name), ("columns", columnsValue t.columns)]))
  | .overview url? => do
    let c ← catalog settings url?
    let text ← Serving.ofAttempt c.overview.text
    pure ⟨200, .plain text⟩
  | .frame body => handleFrame settings body

/-- What is logged about a call that failed. -/
def logFault (f : Fault) : Job Unit :=
  Job.log .error "" "request_error" [("status", .number f.statusCode),
    ("message", Reply.messageOf f)]

/-- The reply to a fault, which is logged. -/
def replyTo (f : Fault) : Job Reply := do
  logFault f
  pure (Reply.ofFault f)

/-- Answers a call, or what is wrong with one, whatever happens. -/
def answer (settings : Settings) (call : Attempt Call) : Serving Reply := do
  let outcome ← Serving.outcome (Serving.ofAttempt call >>= handle settings)
  match outcome with
  | .ok reply => pure reply
  | .error f => Serving.ofJob (replyTo f)

end Service

end LazyFrame
