import LazyFrame.Text.Percent

/-!
# Parameters of a query

The query of a target is a list of settings, of which only the first thousand count. A setting has a
name and a value, both percent-encoded, with an equals sign in between. Its name may reach into a
structure: `a[b]` is the part `b` of the parameter `a`, and a name that starts with a bracket
belongs to the parameter inside it. Everything that is said about one parameter is put together, and
`textOf?` is the text that comes out, if it is one: one text that is given once, and beside it at
most settings of other spellings that give the empty text.
-/

namespace LazyFrame.Parameters

/-! ## Settings -/

/-- How many settings of a query count. -/
def most : Nat := 1000

/-- What stands in front of the first `separator`, and what stands behind it, if it occurs. -/
def cut (separator : Char) (cs : List Char) : List Char × Option (List Char) :=
  (cs.takeWhile (· != separator),
    if cs.contains separator then some ((cs.dropWhile (· != separator)).drop 1) else none)

/-- The parts of a text between its separators; there is always one. -/
def parts (separator : Char) : List Char → List (List Char)
  | [] => [[]]
  | c :: rest =>
    match parts separator rest with
    | [] => [[]]
    | first :: others => if c = separator then [] :: first :: others else (c :: first) :: others

/-- A text with its encoded brackets written as brackets. -/
def unbracketed : List Char → List Char
  | '%' :: '5' :: c :: rest =>
    if c.toLower = 'b' then '[' :: unbracketed rest
    else if c.toLower = 'd' then ']' :: unbracketed rest
    else '%' :: unbracketed ('5' :: c :: rest)
  | c :: rest => c :: unbracketed rest
  | [] => []
termination_by cs => cs.length

/-- A text up to its first bracket that closes in front of an equals sign, and what stands behind
that sign. -/
def cutBehindBracket? : List Char → Option (List Char × List Char)
  | [] => none
  | ']' :: '=' :: rest => some ([']'], rest)
  | c :: rest => (cutBehindBracket? rest).map fun halves => (c :: halves.1, halves.2)

/-- The text of a name or a value, where a plus sign is a blank. One that cannot be read stays as it
is. -/
def decoded (cs : List Char) : String :=
  let spaced := cs.map fun c => if c = '+' then ' ' else c
  (Text.Percent.decode? spaced).getD (String.ofList spaced)

/-- A setting: a name and a value. -/
structure Setting where
  name : String
  value : String
  deriving DecidableEq, Inhabited

/-- Reads a setting. An equals sign behind a bracket is looked for first; without any the value is
empty. -/
def Setting.read (cs : List Char) : Setting :=
  match cutBehindBracket? cs with
  | some (name, value) => ⟨decoded name, decoded value⟩
  | none =>
    let (name, value?) := cut '=' cs
    ⟨decoded name, decoded (value?.getD [])⟩

/-- The settings of a query. -/
def settings (query : List Char) : List Setting :=
  ((parts '&' (unbracketed query)).take most).map Setting.read

/-! ## Names -/

/-- What stands in a bracket that is open, and what stands behind it; brackets inside are
counted. -/
def closing? : Nat → List Char → Option (List Char × List Char)
  | _, [] => none
  | 0, ']' :: rest => some ([], rest)
  | level + 1, ']' :: rest => (closing? level rest).map fun halves => (']' :: halves.1, halves.2)
  | level, '[' :: rest => (closing? (level + 1) rest).map fun halves => ('[' :: halves.1, halves.2)
  | level, c :: rest => (closing? level rest).map fun halves => (c :: halves.1, halves.2)

/-- The parameter that a name belongs to, and whether the name is the whole of it and not a part. -/
def parameterOf (name : List Char) : List Char × Bool :=
  match name with
  | '[' :: rest =>
    match closing? 0 rest with
    | some (inside, behind) => (inside, !behind.contains '[')
    | none => (name, true)
  | _ => (name.takeWhile (· != '['), !name.contains '[')

/-- What the settings with one name say about a parameter: a text, if the name is the whole of it
and stands there once. -/
def said? (all : List Setting) (name : String) : Option String :=
  match all.filter (·.name == name), (parameterOf name.toList).2 with
  | [setting], true => some setting.value
  | _, _ => none

/-- The text of a parameter in a query. -/
def textOf? (parameter : String) (query : List Char) : Option String :=
  let all := (settings query).filter fun setting => (parameterOf setting.name.toList).1 ==
    parameter.toList
  match (all.map (·.name)).eraseDups.map (said? all) with
  | first :: others => if others.all (· == some "") then first else none
  | [] => none

end LazyFrame.Parameters
