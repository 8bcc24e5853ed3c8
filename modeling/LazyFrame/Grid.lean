import LazyFrame.Json.Writer
import LazyFrame.Text.Blank
import LazyFrame.Text.Units
import LazyFrame.Value.Parts
import LazyFrame.Value.Text

/-!
# Text tables

A `Grid` is a small table with a text of fixed columns:

     TrackId | Name
     ------- | -----
     1       | Intro
     ======= | =====

Every column is as wide as its widest text in 16-bit units, header included. Each line has a blank
on both sides of a cell and a bar between cells; blanks at the end of a line are cut off. A row is
normally a list, which may be shorter or longer than the header: what is not there counts as an
absent cell, and what has no header is not shown. The rows come from outside as one value. Only a
list has a text and columns; anything else is kept as it is.
-/

namespace LazyFrame

/-- The text of a cell: absent cells are `NULL`, an instant is in the notation of dates, and lists
and records are JSON. -/
def cellText (v : Value) : Attempt String :=
  match v with
  | .missing | .null => .ok "NULL"
  | .instant (some ms) => .ok (Instant.isoText ms)
  | .instant none => .error .noInstant
  | .list _ | .record _ => Json.encode .refused v
  | other => other.asText

/-- A table of cells under headers. The rows are normally a list. -/
structure Grid where
  columns : List String
  rows : Value
  deriving Inhabited

namespace Grid

/-- The rows of a table that can be gone through. -/
def rowList (g : Grid) : Attempt (List Value) := g.rows.listOf "this.rows"

/-! ## Columns side by side -/

/-- How many cells a column has, as a number: what it says about its extent, whatever that is. -/
def height (content : Value) : Attempt Number := do
  let own ← content.extent
  match own with
  | .integer _ => .error .exactIntegerAsNumber
  | other => other.asNumber

/-- The greater of two heights; what is no number is greater than any number. -/
def taller (a b : Number) : Number :=
  match a, b with
  | .nan, _ => .nan
  | _, .nan => .nan
  | a, b => if a.lt b then b else a

/-- The greatest height of columns, at least zero. -/
def greatestHeight : List Value → Number → Attempt Number
  | [], most => .ok most
  | content :: rest, most => do
    let own ← height content
    greatestHeight rest (taller most own)

/-- The number of whole positions in front of a height. -/
def positions (height : Number) : Nat := ((height.toRat?.getD 0).ceil).toNat

/-- The cell of a column at a position, an empty text behind its end. -/
def cellAt (i : Nat) (content : Value) : Attempt Value := do
  let own ← height content
  if (Number.ofNat i).lt own then content.item i else .ok (.text "")

/-- Columns side by side under their headers; a shorter one is filled up with empty texts. -/
def ofColumns (headers : List String) (contents : List Value) : Attempt Grid := do
  let most ← greatestHeight contents 0
  let rows ← (List.range (positions most)).mapM fun i => do
    let cells ← contents.mapM (cellAt i)
    Except.ok (Value.list cells)
  .ok ⟨headers, .list rows⟩

/-- Lists of texts side by side under their headers. -/
def ofLists (headers : List String) (contents : List (List String)) : Grid :=
  let height := contents.foldl (fun most content => max most content.length) 0
  ⟨headers, .list ((List.range height).map fun i =>
    .list (contents.map fun content => .text (content.getD i "")))⟩

/-! ## Looking at a table -/

/-- How many rows a table says it has, and how many headers it has. -/
def shape (g : Grid) : Attempt (Value × Nat) := do
  let count ← g.rows.extent
  .ok (count, g.columns.length)

/-- The cells under a header. -/
def column (g : Grid) (name : String) : Attempt (List Value) :=
  match g.columns.findIdx? (· == name) with
  | some i => do
    let rows ← g.rowList
    rows.mapM (Value.item i)
  | none => .error (.noGridColumn name)

/-! ## Lines -/

/-- The texts of a row, one for each of the `count` headers. -/
def rowTexts (count : Nat) (row : Value) : Attempt (List String) :=
  (List.range count).mapM fun i => row.item i >>= cellText

/-- The widths of columns that hold these headers and these rows of texts. -/
def widths (headers : List String) (texts : List (List String)) : List Nat :=
  headers.zipIdx.map fun header =>
    texts.foldl (fun most row => max most (Text.units (row.getD header.2 ""))) (Text.units header.1)

/-- The characters of a text with blanks behind them up to a width. -/
def padded (width : Nat) (s : String) : List Char :=
  s.toList ++ List.replicate (width - Text.units s) ' '

/-- The characters of a line, each text with its width, before blanks are cut off its end. -/
def lineChars : List (Nat × String) → List Char
  | [] => []
  | [(width, text)] => ' ' :: (padded width text ++ [' '])
  | (width, text) :: rest => ' ' :: (padded width text ++ ' ' :: '|' :: lineChars rest)

/-- A line of cells. -/
def line (widths : List Nat) (texts : List String) : String :=
  String.ofList (Text.trimRight (lineChars (widths.zip texts)))

/-- A line of one character under each header. -/
def rule (c : Char) (widths : List Nat) : String :=
  line widths (widths.map fun width => String.ofList (List.replicate width c))

/-- The text of a table: headers, a rule, the rows and a closing rule. -/
def text (g : Grid) : Attempt String := do
  let rows ← g.rowList
  let texts ← rows.mapM (rowTexts g.columns.length)
  let w := widths g.columns texts
  .ok ("\n".intercalate ([line w g.columns, rule '-' w] ++ texts.map (line w) ++ [rule '=' w]))

end Grid

end LazyFrame
