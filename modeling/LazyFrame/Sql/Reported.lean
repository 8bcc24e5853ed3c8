import LazyFrame.Sql.Statement

/-!
# Columns whose names are no texts

A database may report something else for the name of a column than a text. Such a name is not
quoted: it is written as its text where that is a word in lower case, keywords included, and
otherwise there is no way to write it. A statement is gone through in the order in which it is
printed, so the first name that cannot be written is the one that fails.
-/

namespace LazyFrame

/-- What was reported for the names of columns, by the texts under which they are known. -/
abbrev ReportedNames := List (String × Value)

namespace ReportedNames

/-- A reported name as it is written. -/
def spell (v : Value) : Attempt String := do
  let shown ← v.asText
  if Dialect.isWord Dialect.isLowerStart shown.toList then .ok shown
    else .error (.notCallable "name.replace")

/-- A term in which the columns with reported names are written out. -/
def inTerm (names : ReportedNames) : Term → Attempt Term
  | .column owner name =>
    match names.lookup name with
    | none => .ok (.column owner name)
    | some v => do
      let shown ← spell v
      .ok (.ready (owner ++ "." ++ shown) false)
  | .binary op left right => do
    let l ← names.inTerm left
    let r ← names.inTerm right
    .ok (.binary op l r)
  | .unary op operand => do
    let t ← names.inTerm operand
    .ok (.unary op t)
  | .aggregate fn operand => do
    let t ← names.inTerm operand
    .ok (.aggregate fn t)
  | other => .ok other

/-- The conjunct of a join, written out in the same way. -/
def inConjunct (names : ReportedNames) : Conjunct → Attempt Conjunct
  | .equal left right => do
    let l ← names.inTerm left
    let r ← names.inTerm right
    .ok (.equal l r)
  | .holds term => do
    let t ← names.inTerm term
    .ok (.holds t)

/-- The clauses of a SELECT and its FROM, which `source` writes out. -/
def inClauses (names : ReportedNames) (c : Clauses) (source : Attempt FromItem) :
    Attempt (Clauses × FromItem) := do
  let fields ← c.fields.mapM fun field => do
    let t ← names.inTerm field.term
    Except.ok { field with term := t }
  let item ← source
  let filter? ← c.filter?.mapM names.inTerm
  .ok ({ c with fields := fields, filter? := filter? }, item)

/-- The FROM of a SELECT, written out in the same way. -/
def inSource (names : ReportedNames) : FromItem → Attempt FromItem
  | .table name owner => .ok (.table name owner)
  | .select clauses source owner => do
    let (written, item) ← names.inClauses clauses (names.inSource source)
    .ok (.select written item owner)
  | .join kind left right conjuncts => do
    let l ← names.inSource left
    let r ← names.inSource right
    let written ← conjuncts.mapM names.inConjunct
    .ok (.join kind l r written)

/-- A statement in which the columns with reported names are written out. -/
def inStatement (names : ReportedNames) (s : Statement) : Attempt Statement := do
  let (clauses, source) ← names.inClauses s.clauses (names.inSource s.source)
  .ok ⟨clauses, source⟩

end ReportedNames

end LazyFrame
