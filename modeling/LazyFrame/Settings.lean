import LazyFrame.Log.Entry
import LazyFrame.Number.Reader
import LazyFrame.Text.LowerCase

/-!
# Settings

Settings come from named texts in the environment. A setting that is a number is read from the
digits at the front of its text; without a text, without digits and beyond all finite numbers the
default holds. The level of the log is compared in lower case, and one that does not exist means
`info`.
-/

namespace LazyFrame

/-- What can be set. Sizes are counts, times are in the unit of their name. -/
structure Settings where
  databaseUrl : String
  tcpPort : Number
  logLevel : String
  statementTimeoutMs : Number
  poolMax : Number
  cachedConnections : Number
  schemaTtlSeconds : Number
  maxLimit : Number
  headRows : Number
  deriving Inhabited

namespace Settings

/-- A number from a text of the environment. -/
def numberFrom (text? : Option String) (default : Number) : Number :=
  match text? with
  | none => default
  | some text =>
    match Number.ofLeadingDigits? text with
    | some n => if n.isFinite then n else default
    | none => default

/-- A text of the environment; an empty one counts as none. -/
def textFrom (text? : Option String) (default : String) : String :=
  match text? with
  | none => default
  | some text => if text = "" then default else text

/-- The settings under an environment. -/
def ofEnvironment (environment : List (String × String)) : Settings :=
  let number (name : String) (default : Number) := numberFrom (environment.lookup name) default
  { databaseUrl := textFrom (environment.lookup "PG_URL") ""
    tcpPort := number "PORT" 8080
    logLevel := Text.lower (textFrom (environment.lookup "LOG_LEVEL") "info")
    statementTimeoutMs := number "STATEMENT_TIMEOUT_MS" 3000
    poolMax := number "POOL_MAX" 10
    cachedConnections := number "CACHE_POOL_SIZE" 8
    schemaTtlSeconds := number "SCHEMA_TTL_SECONDS" 900
    maxLimit := number "MAX_LIMIT" 1000
    headRows := number "HEAD_ROWS" 5 }

/-- The least level of a line that is written. -/
def threshold (s : Settings) : Level := (Level.ofName? s.logLevel).getD .info

end Settings

end LazyFrame
