import LazyFrame.Proofs.Faults.Request
import LazyFrame.Service.Handler

/-!
# Failures that are answered as failures

The status 200 means that a call has succeeded. A fault that comes from outside may carry any
status, so it might carry that one; the faults that the library makes itself carry none of this kind
(`Fault.Fails`). Here this is followed through all that a frame request attempts: the request is
read, its frame is built and written (`Frame.sqlOf_fails`), also where the database reports names
that are no texts, and what the database answers is read as rows or as a count. At the end the reply
is turned into JSON, which fails exactly if there is an exact integer in it (`Reply.ofValue_ends`).
-/

namespace LazyFrame

open Attempt (Ends EndsWell)

/-- Any attempt ends in some way. -/
theorem Attempt.Ends.any {α : Type} (x : Attempt α) : Ends (fun _ => True) (fun _ => True) x := by
  cases x with
  | ok a => exact .ok trivial
  | error fault => exact .error trivial

/-- A fault that is not answered as a success. -/
def Fault.Fails (f : Fault) : Prop := f.statusCode ≠ 200

/-- The attempt succeeds with such a result or fails by what is answered as a failure. -/
abbrev Attempt.EndsPlainly {α : Type} (Q : α → Prop) (x : Attempt α) : Prop := Ends Fault.Fails Q x

open Attempt (EndsPlainly)

namespace Fault

variable {f : Fault}

/-- A fault of the caller is answered as a failure. -/
theorem IsClient.fails (h : f.IsClient) : f.Fails := by
  rcases h with h | h
  · rw [Fails, statusCode, h]
    decide +kernel
  · rw [Fails, statusCode, h]
    decide +kernel

/-- A fault without a status is answered as an internal error. -/
theorem fails_of_status? (h : f.status? = none) : f.Fails := by
  rw [Fails, statusCode, h]
  decide +kernel

/-- So is a failed execution. -/
theorem fails_execution (message : String) (statement? : Option String) (cause? : Option Cause) :
    (execution message statement? cause?).Fails := by
  rw [Fails, statusCode, status?]
  decide +kernel

end Fault

/-- What ends well ends plainly. -/
theorem Attempt.EndsWell.plainly {α : Type} {Q : α → Prop} {x : Attempt α} (h : EndsWell Q x) :
    EndsPlainly Q x :=
  h.mono (fun _ => Fault.IsClient.fails) fun _ hQ => hQ

/-! ## Texts of values and faults -/

theorem Value.asText_fails (v : Value) : EndsPlainly (fun _ => True) v.asText :=
  v.asText_ends.mono (fun _ h => h.1 ▸ Fault.fails_of_status? rfl) fun _ _ => trivial

/-- A fault says something, or that it cannot is answered as a failure. -/
theorem Fault.spoken_fails (f : Fault) : EndsPlainly (fun _ => True) f.spoken := by
  unfold spoken
  split
  · exact Value.asText_fails _
  · exact .ok trivial
  · exact .error (fails_of_status? rfl)
  · exact Value.asText_fails _

/-- A refused statement is answered as a failure, whatever the refusal is. -/
theorem Fault.asExecution_fails (statement? : Option String) (f : Fault) :
    (f.asExecution statement?).Fails := by
  unfold asExecution
  split
  · exact fails_execution _ _ _
  · cases hspoken : f.spoken with
    | ok message => exact fails_execution _ _ _
    | error fault => exact f.spoken_fails.of_error hspoken

/-! ## Statements with reported names -/

namespace ReportedNames

/-- A reported name is written, or that it cannot be is answered as a failure. -/
theorem spell_fails (v : Value) : EndsPlainly (fun _ => True) (spell v) :=
  v.asText_fails.bind fun _ _ => .ite (fun _ => .ok trivial) fun _ =>
    .error (Fault.fails_of_status? rfl)

variable (names : ReportedNames)

/-- So is a term with reported names. -/
theorem inTerm_fails (t : Term) : EndsPlainly (fun _ => True) (names.inTerm t) := by
  induction t with
  | column owner name =>
    rw [inTerm]
    cases names.lookup name with
    | none => exact .ok trivial
    | some v => exact (spell_fails v).bind fun _ _ => .ok trivial
  | binary op l r ihl ihr =>
    rw [inTerm]
    exact ihl.bind fun _ _ => ihr.bind fun _ _ => .ok trivial
  | unary op t ih | aggregate fn t ih =>
    rw [inTerm]
    exact ih.bind fun _ _ => .ok trivial
  | literal | countRows | ready => exact .ok trivial

/-- So is the condition of a join. -/
theorem inConjunct_fails (c : Conjunct) : EndsPlainly (fun _ => True) (names.inConjunct c) := by
  cases c with
  | equal l r =>
    exact (names.inTerm_fails l).bind fun _ _ => (names.inTerm_fails r).bind fun _ _ => .ok trivial
  | holds t => exact (names.inTerm_fails t).bind fun _ _ => .ok trivial

/-- So are the clauses of a SELECT with its FROM. -/
theorem inClauses_fails (c : Clauses) {source : Attempt FromItem}
    (h : EndsPlainly (fun _ => True) source) :
    EndsPlainly (fun _ => True) (names.inClauses c source) := by
  have hfields : EndsPlainly (fun fields => ∀ field ∈ fields, True) (c.fields.mapM fun field => do
      let t ← names.inTerm field.term
      Except.ok { field with term := t }) :=
    .mapM fun field _ => (names.inTerm_fails field.term).bind fun _ _ => .ok trivial
  have hfilter : EndsPlainly (fun _ => True) (c.filter?.mapM names.inTerm) := by
    cases c.filter? with
    | none => exact .ok trivial
    | some t => exact (names.inTerm_fails t).bind fun _ _ => .ok trivial
  exact hfields.bind fun _ _ => h.bind fun _ _ => hfilter.bind fun _ _ => .ok trivial

/-- So is a FROM. -/
theorem inSource_fails (item : FromItem) : EndsPlainly (fun _ => True) (names.inSource item) := by
  induction item with
  | table name owner => exact .ok trivial
  | select clauses source owner ih =>
    rw [inSource]
    exact (names.inClauses_fails clauses ih).bind fun _ _ => .ok trivial
  | join kind l r conjuncts ihl ihr =>
    rw [inSource]
    refine ihl.bind fun _ _ => ihr.bind fun _ _ => ?_
    exact Ends.bind (.mapM fun c _ => names.inConjunct_fails c) fun _ _ => .ok trivial

/-- So is a statement. -/
theorem inStatement_fails (s : Statement) : EndsPlainly (fun _ => True) (names.inStatement s) :=
  (names.inClauses_fails s.clauses (names.inSource_fails s.source)).bind fun _ _ => .ok trivial

end ReportedNames

namespace Frame

/-- A proper query is written, or what keeps it from that is answered as a failure. -/
theorem sqlOf_fails (f : Frame) {q : Query} (h : q.IsProper) :
    EndsPlainly (fun _ => True) (f.sqlOf q) := by
  unfold sqlOf
  refine .ite (fun _ => (Query.sql_ends h f.dialect).plainly) fun _ => ?_
  exact (Query.statement_ends h).plainly.bind fun s _ =>
    (f.reported.inStatement_fails s).bind fun _ _ => .ok trivial

/-- The first rows of a proper plan are a proper query. -/
theorem isProper_preview {p : Plan} (h : p.query.IsProper) (n : Number) :
    (preview p n).IsProper := by
  unfold preview
  cases hq : p.slice? ⟨0, some n⟩ with
  | none => exact h
  | some q => exact Plan.isProper_slice? h _ q hq

/-- How many first rows are wanted is read from a value, or that it cannot be is a failure. -/
theorem headCount_fails (v : Value) : EndsPlainly (fun _ => True) (headCount v) := by
  have hclient {flaw : OperationFlaw} : (Fault.invalidOperation flaw).Fails :=
    Fault.IsClient.fails (.inl rfl)
  unfold headCount
  split
  · exact .ok trivial
  · exact .ite (fun _ => .ok trivial) fun _ => .error hclient
  · exact (Value.asText_fails _).bind fun _ _ => .error hclient

end Frame

/-- The count of a proper plan is a proper query. -/
theorem Plan.isProper_count {p : Plan} (h : p.query.IsProper) : p.count.IsProper := by
  have houtputs : ∀ o ∈ [Output.mk "row_count" .countRows], o.expr.IsProper := by
    intro o ho
    rw [List.mem_singleton.mp ho]
    trivial
  exact ⟨⟨h.source, h.selection⟩, .plain houtputs fun _ he => by cases he⟩

/-! ## Answers of a database -/

namespace Value

/-- A number is read from an answer, or that it cannot be is answered as a failure. -/
theorem toNumber_fails (v : Value) (statement : String) :
    EndsPlainly (fun _ => True) (v.toNumber statement) := by
  cases v with
  | missing | null | number | integer => exact .ok trivial
  | text s => exact .ite (fun _ => .error (Fault.fails_execution _ _ _)) fun _ => .ok trivial
  | bool | half | instant | list | record => exact .error (Fault.fails_execution _ _ _)

/-- So are the elements of a value. -/
theorem elements_fails (what : String) (v : Value) :
    EndsPlainly (fun _ => True) (v.elements what) := by
  cases v with
  | list | text | half => exact .ok trivial
  | missing | null | bool | number | integer | instant | record =>
    exact .error (Fault.fails_of_status? rfl)

end Value

/-! ## Exact integers in JSON -/

namespace Value

mutual

/-- Whether there is an exact integer in a value. -/
def hasExactInteger : Value → Bool
  | .integer _ => true
  | .list items => anyExactInteger items
  | .record fields => fieldsExactInteger fields
  | _ => false

/-- Whether there is one in the items of a list. -/
def anyExactInteger : List Value → Bool
  | [] => false
  | item :: rest => hasExactInteger item || anyExactInteger rest

/-- Whether there is one in the fields of a record. -/
def fieldsExactInteger : List (String × Value) → Bool
  | [] => false
  | (_, value) :: rest => hasExactInteger value || fieldsExactInteger rest

end

end Value

namespace Json

open Value

/-- What the writer of plain JSON ends in, for a value of which `found` tells whether there is an
exact integer in it. -/
def EndsBy {α : Type} (found : Bool) (x : Attempt α) : Prop :=
  Ends (fun e => e = .exactIntegerInJson ∧ found = true) (fun _ => found = false) x

/-- Two images one after the other fail if one of them does. -/
theorem EndsBy.both {α β γ : Type} {first second : Bool} {x : Attempt α} {y : Attempt β}
    (hx : EndsBy first x) (hy : EndsBy second y) (f : α → β → γ) :
    EndsBy (first || second) (x >>= fun a => y >>= fun b => .ok (f a b)) := by
  cases hx with
  | ok h =>
    rw [h, Bool.false_or]
    exact Ends.bind hy fun _ h => .ok h
  | error h => exact .error ⟨h.1, by rw [h.2, Bool.true_or]⟩

mutual

/-- A value has an image exactly if there is no exact integer in it. The induction is on the
value. -/
theorem image_ends : ∀ v : Value, EndsBy v.hasExactInteger (image .refused v)
  | .integer n => .error ⟨rfl, rfl⟩
  | .list items => by
    rw [image, hasExactInteger]
    exact Ends.bind (itemImages_ends items) fun _ h => .ok h
  | .record fields => by
    rw [image, hasExactInteger]
    exact Ends.bind (fieldImages_ends fields) fun _ h => .ok h
  | .missing | .null | .bool _ | .number (.finite _) | .number .negZero | .number .nan
  | .number (.infinity _) | .text _ | .half _ | .instant none | .instant (some _) => .ok rfl

/-- So have the items of a list. -/
theorem itemImages_ends :
    ∀ items : List Value, EndsBy (anyExactInteger items) (itemImages .refused items)
  | [] => .ok rfl
  | item :: rest => by
    rw [itemImages, anyExactInteger]
    exact (image_ends item).both (itemImages_ends rest) _

/-- And so have the fields of a record. -/
theorem fieldImages_ends :
    ∀ fields : List (String × Value),
      EndsBy (fieldsExactInteger fields) (fieldImages .refused fields)
  | [] => .ok rfl
  | (name, value) :: rest => by
    rw [fieldImages, fieldsExactInteger]
    exact (image_ends value).both (fieldImages_ends rest) _

end

end Json

/-- A value becomes a successful reply exactly if there is no exact integer in it. -/
theorem Reply.ofValue_ends (v : Value) :
    Ends (fun e => e = .exactIntegerInJson ∧ v.hasExactInteger = true)
      (fun reply => reply.status = 200 ∧ v.hasExactInteger = false) (ofValue v) :=
  Ends.bind (Json.image_ends v) fun _ h => .ok ⟨rfl, h⟩

end LazyFrame
