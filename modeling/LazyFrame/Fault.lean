import LazyFrame.Relation
import LazyFrame.Value.Basic

/-!
# Faults

Everything that can go wrong, by cause. `Fault.sentence?` is the one place where a cause becomes a
sentence, `Fault.kindName` gives the kind of fault that answers report, and `Fault.status?` the
status a server answers with: 404 for a table that is not there, 502 for a statement that the
database refused, 400 for the other mistakes of a caller, and none for what is nobody's mistake.
-/

namespace LazyFrame

/-! ## Causes -/

/-- Why a column is asked for when it turns out not to exist. -/
inductive ColumnContext where
  | lookup (available : List String)
  | toRename
  | toDrop
  | mergeKey
  | note (text : String)
  deriving DecidableEq

/-- What is wrong with an expression. -/
inductive ExpressionFlaw where
  | nonFinite (value : String)
  | notInQuery (origin : Origin)
  | noColumn (column : String) (origin : Origin)
  | foreignColumn (column : String) (origin : Origin)
  | aggregateAssigned (column : String)
  | aggregateFilter
  | noOutputs
  | note (text : String)
  deriving DecidableEq

/-- What is wrong with an operation on a frame. -/
inductive OperationFlaw where
  | duplicateOutput (column : String)
  | emptySelection
  | everythingDropped
  | sliceStart (start : String)
  | sliceBounds (start stop : String)
  | rowCount (count : String)
  | noKeys
  | twoKeyStyles
  | oneSidedKeys
  | keyCounts
  | nothingShared
  | ambiguousKey (shared : List String)
  | otherConnection
  | note (text : String)
  deriving DecidableEq

/-- What is wrong with a request. -/
inductive RequestFlaw where
  | expressionShape
  | columnName
  | literalKind
  | unknownOperator (operator : String)
  | arity (operator : String) (expected : Nat)
  | expressionForm
  | stepShape
  | assignedName
  | renameMapping
  | joinKindText
  | unknownStep (step : String)
  | columnList (what : String)
  | integerField (what : String)
  | frameShape
  | tableName
  | stepList
  | bodyShape
  | databaseUrl
  | action (known : List String)
  | rowLimit (limit : String)
  | noDatabase
  | note (text : String)
  deriving DecidableEq

/-- What a failed execution was caused by: another fault, known by its message, or a bare value. -/
inductive Cause where
  | fault (message : Value)
  | value (value : Value)

/-- A fault. Those from `foreign` on are not the library's own: a fault that comes from outside with
a name and a message, which need not be texts, and perhaps a status; the ways in which a value fails
to be a text, a number, a list, a record or anything at all where one is needed; and a value that is
thrown without being a fault. A `masked` one had been a fault before it lost that nature: it still
has a status and perhaps a text, which its fields do not tell. -/
inductive Fault where
  | unknownTable (table : String)
  | unknownColumn (column : String) (context : Option ColumnContext)
  | invalidExpression (flaw : ExpressionFlaw)
  | unsupportedJoin (kind : String)
  | invalidOperation (flaw : OperationFlaw)
  | unclassified (message : String)
  | execution (message : String) (statement : Option String) (cause : Option Cause)
  | badRequest (flaw : RequestFlaw)
  | noGridColumn (column : String)
  | foreign (name message : Value) (status : Option Number)
  | exactIntegerInJson
  | exactIntegerAsNumber
  | noText
  | noInstant
  | fieldOfNothing (holder field : String)
  | notCallable (what : String)
  | notIterable (what : String)
  | notListed (what : String)
  | notSearchable (name holder : String)
  | thrown (value : Value)
  | masked (value : Value) (status : Option Number) (text : Option String)
  deriving Inhabited

/-! ## Sentences -/

/-- The note in parentheses after an unknown column. -/
def ColumnContext.text : ColumnContext → String
  | lookup available => "available: " ++ ", ".intercalate available
  | toRename => "cannot rename"
  | toDrop => "cannot drop"
  | mergeKey => "not in both frames"
  | note text => text

/-- The sentence for a flaw of an expression. -/
def ExpressionFlaw.message : ExpressionFlaw → String
  | nonFinite value => "cannot render non-finite number " ++ value
  | notInQuery origin => "expression references " ++ origin.describe ++
      ", which is not part of this query"
  | noColumn column origin => "column \"" ++ column ++ "\" does not exist in " ++ origin.describe
  | foreignColumn column origin =>
    "column \"" ++ column ++ "\" comes from " ++ origin.describe ++
      ", which this frame does not read from"
  | aggregateAssigned column => "aggregate expression cannot be assigned to column \"" ++
      column ++ "\""
  | aggregateFilter => "aggregates are not allowed in a filter"
  | noOutputs => "cannot render a query without output columns"
  | note text => text

/-- The sentence for a flaw of an operation. -/
def OperationFlaw.message : OperationFlaw → String
  | duplicateOutput column => "duplicate output column: \"" ++ column ++ "\""
  | emptySelection => "cannot select an empty list of columns"
  | everythingDropped => "cannot drop every column"
  | sliceStart start => "invalid slice start: " ++ start
  | sliceBounds start stop => "invalid slice: [" ++ start ++ ", " ++ stop ++ ")"
  | rowCount count => "invalid row count: " ++ count
  | noKeys => "merge needs at least one key column"
  | twoKeyStyles => "merge takes either \"on\" or \"leftOn\"/\"rightOn\", not both"
  | oneSidedKeys => "\"leftOn\" and \"rightOn\" must be given together"
  | keyCounts => "\"leftOn\" and \"rightOn\" must have the same length"
  | nothingShared => "frames share no column to merge on"
  | ambiguousKey shared => "cannot infer merge key from shared columns: " ++ ", ".intercalate shared
  | otherConnection => "cannot merge frames from different connections"
  | note text => text

/-- The sentence for a flaw of a request. -/
def RequestFlaw.message : RequestFlaw → String
  | expressionShape => "expression must be an object"
  | columnName => "col must be a column name"
  | literalKind => "lit must be a string, number, boolean or null"
  | unknownOperator operator => "unknown operator: " ++ operator
  | arity operator expected => operator ++ " takes " ++ toString expected ++ " argument(s)"
  | expressionForm => "expression must have col, lit or op/args"
  | stepShape => "step must be an object"
  | assignedName => "assign.name must be a column name"
  | renameMapping => "rename.mapping must map column names to new names"
  | joinKindText => "merge.how must be a string"
  | unknownStep step => "unknown step: " ++ step
  | columnList what => what ++ " must be a column name or a list of column names"
  | integerField what => what ++ " must be an integer"
  | frameShape => "frame must be an object"
  | tableName => "frame.table must be a table name"
  | stepList => "frame.steps must be a list"
  | bodyShape => "Invalid body"
  | databaseUrl => "Invalid dbUrl"
  | action known => "Invalid action, expected one of: " ++ ", ".intercalate known
  | rowLimit limit => "Invalid n, expected an integer between 0 and " ++ limit
  | noDatabase => "Missing dbUrl"
  | note text => text

namespace Fault

/-- An unknown column with the context that messages show; an empty note is no context. -/
def unknownColumnNote (column : String) (note : Option String) : Fault :=
  match note with
  | some text => .unknownColumn column (if text = "" then none else some (.note text))
  | none => .unknownColumn column none

/-- A fault from outside that has a message and nothing else to say. -/
def plain (message : String) : Fault := .foreign (.text "Error") (.text message) none

/-- The sentence for a fault. One from outside brings its own message and a thrown value has
none. -/
def sentence? : Fault → Option String
  | unknownTable table => some ("unknown table: \"" ++ table ++ "\"")
  | unknownColumn column none => some ("unknown column: \"" ++ column ++ "\"")
  | unknownColumn column (some context) =>
    some ("unknown column: \"" ++ column ++ "\" (" ++ context.text ++ ")")
  | invalidExpression flaw => some flaw.message
  | unsupportedJoin kind =>
    some ("unsupported join kind: \"" ++ kind ++ "\" (expected \"inner\" or \"left\")")
  | invalidOperation flaw => some flaw.message
  | unclassified message => some message
  | execution message _ _ => some message
  | badRequest flaw => some flaw.message
  | noGridColumn column => some ("unknown table column: \"" ++ column ++ "\"")
  | exactIntegerInJson => some "Do not know how to serialize a BigInt"
  | exactIntegerAsNumber => some "Cannot convert a BigInt value to a number"
  | noText => some "Cannot convert object to primitive value"
  | noInstant => some "Invalid time value"
  | fieldOfNothing holder field =>
    some ("Cannot read properties of " ++ holder ++ " (reading '" ++ field ++ "')")
  | notCallable what => some (what ++ " is not a function")
  | notIterable what => some (what ++ " is not iterable")
  | notListed what => some (what ++ " is not a function or its return value is not iterable")
  | notSearchable name holder =>
    some ("Cannot use 'in' operator to search for '" ++ name ++ "' in " ++ holder)
  | foreign _ _ _ | thrown _ | masked _ _ _ => none

/-- The message of a fault: its sentence, or what it brings along from outside. A thrown value has
none. -/
def message? : Fault → Option Value
  | foreign _ message _ => some message
  | f => f.sentence?.map .text

/-- The kind of a fault. -/
def kindName : Fault → String
  | unknownTable _ => "UnknownTableError"
  | unknownColumn _ _ => "UnknownColumnError"
  | invalidExpression _ => "InvalidExpressionError"
  | unsupportedJoin _ => "UnsupportedJoinKindError"
  | invalidOperation _ => "InvalidOperationError"
  | unclassified _ => "QueryFrameError"
  | execution _ _ _ => "ExecutionError"
  | badRequest _ | noGridColumn _ | foreign _ _ _ => "Error"
  | exactIntegerInJson | exactIntegerAsNumber | noText | fieldOfNothing _ _ | notCallable _
  | notIterable _ | notListed _ | notSearchable _ _ => "TypeError"
  | noInstant => "RangeError"
  | thrown _ | masked _ _ _ => "thrown"

/-- The name of a fault: its kind, unless it brings a name along from outside. -/
def name : Fault → Value
  | foreign name _ _ => name
  | f => .text f.kindName

/-- Whether a fault is one of the frame library's own kinds. -/
def isFrameFault : Fault → Bool
  | unknownTable _ | unknownColumn _ _ | invalidExpression _ | unsupportedJoin _
  | invalidOperation _ | unclassified _ | execution _ _ _ => true
  | _ => false

/-- The status a fault carries, if it carries one. -/
def status? : Fault → Option Number
  | unknownTable _ => some 404
  | execution _ _ _ => some 502
  | unknownColumn _ _ | invalidExpression _ | unsupportedJoin _ | invalidOperation _
  | unclassified _ | badRequest _ => some 400
  | foreign _ _ status => status
  | thrown value => (value.field "status").number?
  | masked _ status _ => status
  | noGridColumn _ | exactIntegerInJson | exactIntegerAsNumber | noText | noInstant
  | fieldOfNothing _ _ | notCallable _ | notIterable _ | notListed _ | notSearchable _ _ => none

/-- The status a server answers with: the fault's own, else 500. -/
def statusCode (fault : Fault) : Number := fault.status?.getD 500

end Fault

/-- A computation that can fail. -/
abbrev Attempt (α : Type) := Except Fault α

end LazyFrame
