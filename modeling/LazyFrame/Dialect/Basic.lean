import LazyFrame.Bound
import LazyFrame.Dialect.Keywords

/-!
# Dialects

The two dialects agree on literals and differ in three ways. A bare identifier of SQLite may have
letters of both cases and is compared with the keywords regardless of case; PostgreSQL folds bare
identifiers to lower case, so only lower case stays bare. A table name of PostgreSQL is qualified:
each of its dot-separated parts is an identifier of its own. And SQLite takes an offset only behind
a limit, where `-1` stands for no limit.

An identifier that does not stay bare is quoted, and a quote inside is written twice; the same holds
for text literals.
-/

namespace LazyFrame

/-- A dialect of SQL. -/
inductive Dialect where
  | sqlite
  | postgres
  deriving DecidableEq, Inhabited

namespace Dialect

/-- The name of a dialect. -/
def name : Dialect → String
  | sqlite => "sqlite"
  | postgres => "postgres"

/-! ## Quoting -/

/-- Characters between two quotes, each quote among them written twice. -/
def enclose (quote : Char) (cs : List Char) : List Char :=
  quote :: (cs.flatMap (fun c => if c = quote then [quote, quote] else [c]) ++ [quote])

/-- A lower-case letter without accent, or an underscore. -/
def isLowerStart (c : Char) : Bool := c.isLower || c = '_'

/-- A letter without accent, or an underscore. -/
def isStart (c : Char) : Bool := c.isLower || c.isUpper || c = '_'

/-- Whether a name is a word: a start, then starts and digits. -/
def isWord (start : Char → Bool) : List Char → Bool
  | [] => false
  | c :: rest => start c && rest.all fun d => start d || d.isDigit

/-! ## Identifiers -/

/-- The words that stay bare as identifiers. -/
def isBare : Dialect → List Char → Bool
  | sqlite, cs =>
    isWord isStart cs && !Keywords.sqlite.contains (String.ofList (cs.map Char.toLower))
  | postgres, cs => isWord isLowerStart cs && !Keywords.postgres.contains (String.ofList cs)

/-- The characters of an identifier. -/
def identifierChars (d : Dialect) (cs : List Char) : List Char :=
  if d.isBare cs then cs else enclose '"' cs

/-- A name as an identifier. -/
def identifier (d : Dialect) (name : String) : String :=
  String.ofList (d.identifierChars name.toList)

/-- The parts of a name between its dots; there is always one. -/
def parts : List Char → List (List Char)
  | [] => [[]]
  | '.' :: rest => [] :: parts rest
  | c :: rest =>
    match parts rest with
    | [] => [[c]]
    | first :: others => (c :: first) :: others

/-- Lists of characters with a dot between them. -/
def joinDots : List (List Char) → List Char
  | [] => []
  | [cs] => cs
  | cs :: rest => cs ++ '.' :: joinDots rest

/-- A name as a table. -/
def table (d : Dialect) (name : String) : String :=
  match d with
  | sqlite => sqlite.identifier name
  | postgres => String.ofList (joinDots ((parts name.toList).map postgres.identifierChars))

/-! ## Literals -/

/-- The text of a literal, the same in both dialects. A value that is no literal fails as a number
that is not finite does. -/
def literal (v : Value) : Attempt String :=
  match v with
  | .null => .ok "NULL"
  | .text s => .ok (String.ofList (enclose '\'' s.toList))
  | .bool b => .ok (if b then "TRUE" else "FALSE")
  | .integer n => .ok (toString n)
  | .number (.finite q) => .ok (Number.finite q).text
  | .number .negZero => .ok Number.negZero.text
  | other => do
    let shown ← other.asText
    .error (.invalidExpression (.nonFinite shown))

/-! ## Row windows -/

/-- The clause that skips rows, empty unless the offset is effective. -/
def offsetText (offset : Option Bound) : String :=
  match offset with
  | some b => if b.isEffective then " OFFSET " ++ b.text else ""
  | none => ""

/-- The clause that keeps `limit` rows from row `offset` on, empty when neither is given. -/
def window (d : Dialect) (limit offset : Option Bound) : String :=
  match d, limit, offset with
  | sqlite, none, none => ""
  | sqlite, none, offset => " LIMIT -1" ++ offsetText offset
  | sqlite, some .nothing, offset => " LIMIT -1" ++ offsetText offset
  | sqlite, some b, offset => " LIMIT " ++ b.text ++ offsetText offset
  | postgres, none, offset => offsetText offset
  | postgres, some b, offset => " LIMIT " ++ b.text ++ offsetText offset

end Dialect

end LazyFrame
