import LazyFrame.Json.Reader
import LazyFrame.Json.Writer
import LazyFrame.Service.Address
import LazyFrame.Service.Handler

/-!
# What a call asks for

Calls arrive as targets, such as `/tables/albums?dbUrl=...`, or as a body. The parts of the path of
a target are compared regardless of case, but for the name of a table, which is percent-encoded; a
slash at the end of a path makes no difference. The query gives the URL of a database as the text of
one parameter. A body has to be a record or a list to be looked at.
-/

namespace LazyFrame.Call

/-! ## Paths -/

/-- The name of the query parameter with the URL of a database. -/
def urlParameter : String := "dbUrl"

/-- The parts of a path that starts with a slash, without the empty one behind a slash at its
end. -/
def pathParts (path : List Char) : List (List Char) :=
  match path with
  | '/' :: rest =>
    let behind := Parameters.parts '/' rest
    if behind.getLast? == some [] then behind.dropLast else behind
  | _ => []

/-! ## Calls -/

/-- The complaint about the name of a table that cannot be read. -/
def unreadable (name : List Char) : Fault :=
  .foreign (.text "URIError")
    (.text ("Failed to decode param '" ++ String.ofList name ++ "'")) (some 400)

/-- The call that an address makes, or what is wrong with it; `none` if there is no such address. -/
def ofAddress? (address : Address) : Option (Attempt Call) :=
  let url? := address.query?.bind (Parameters.textOf? urlParameter)
  let names := pathParts address.path
  match names.map fun name => String.ofList (name.map Char.toLower), names with
  | ["healthz"], _ => some (.ok (.health url?))
  | ["tables"], _ => some (.ok (.tables url?))
  | ["overview"], _ => some (.ok (.overview url?))
  | ["tables", _], [_, name] =>
    if name.isEmpty then none
    else
      match Text.Percent.decode? name with
      | some text => some (.ok (.table url? text))
      | none => some (.error (unreadable name))
  | _, _ => none

/-- The call that a target makes, or what is wrong with it; `none` if there is no such target. -/
def ofTarget? (target : String) : Option (Attempt Call) :=
  (Address.ofTarget? target).bind ofAddress?

/-- The frame call with a body. One that is neither a record nor a list is refused at its first
character. -/
def ofBody (body : Value) : Attempt Call :=
  match body with
  | .record _ | .list _ => .ok (.frame body)
  | other =>
    let cs := (Json.write other).toList
    .error (.foreign (.text "SyntaxError")
      (.text (Json.Complaint.message cs (.unexpected cs))) (some 400))

end LazyFrame.Call
