import LazyFrame.Service.Parameters
import LazyFrame.Text.Blank

/-!
# Addresses

The target of a call is an address: a path and perhaps a query behind a question mark. Normally it
is taken literally. A target that does not start with a slash, or that holds a blank or a number
sign, is read more loosely: blanks at its ends are cut off and a backslash counts as a slash in
front of the query. If that leaves a plain path it is taken literally. Otherwise what stands behind
a number sign is left out, characters that never stand in an address are percent-encoded, and in
front of the path there may be a scheme and a host.
-/

namespace LazyFrame

/-- A path and perhaps a query. -/
structure Address where
  path : List Char
  query? : Option (List Char)
  deriving DecidableEq, Inhabited

namespace Address

/-! ## Literal targets -/

/-- The path in front of the first question mark and the query behind it. -/
def split (cs : List Char) : Address :=
  let (path, query?) := Parameters.cut '?' cs
  ⟨path, query?⟩

/-- The characters that make a target a loose one: blanks and the number sign. -/
def looseMarks : List Char :=
  ['\t', '\n', Char.ofNat 0x0C, '\r', ' ', '#', Char.ofNat 0xA0, Char.ofNat 0xFEFF]

/-- Whether a target is taken literally. -/
def isLiteral (cs : List Char) : Bool :=
  cs.head? == some '/' && cs.all fun c => !looseMarks.contains c

/-! ## Loose targets -/

/-- Whether a character at an end is cut off. -/
def isTrimmed (c : Char) : Bool := c.toNat < 33 || c.toNat == 0xA0 || c.toNat == 0xFEFF

/-- The characters without those that are cut off at both ends. -/
def trimmed (cs : List Char) : List Char :=
  ((cs.dropWhile isTrimmed).reverse.dropWhile isTrimmed).reverse

/-- Backslashes in front of the query as slashes. -/
def slashed : List Char → List Char
  | [] => []
  | c :: rest =>
    if c = '?' || c = '#' then c :: rest
    else (if c = '\\' then '/' else c) :: slashed rest

/-- Whether a target without its blanks and backslashes is a plain path: it starts with one slash or
two, holds no blank and no number sign, and has no at sign in front of its query. -/
def isPlain (cs : List Char) : Bool :=
  let slashes := (cs.takeWhile (· == '/')).length
  (slashes == 1 || slashes == 2) && cs.all (fun c => c != '#' && !Text.isBlank c) &&
    !(cs.takeWhile (· != '?')).contains '@'

/-- Whether a character can stand in a scheme. -/
def isSchemeChar (c : Char) : Bool := c.isAlphanum || c = '.' || c = '+' || c = '-'

/-- The schemes whose host stands behind two slashes and nowhere else. -/
def slashedSchemes : List String := ["http", "https", "ftp", "gopher", "file", "ws", "wss"]

/-- The scheme in front of a target, and the target without it. -/
def scheme? (cs : List Char) : Option (String × List Char) :=
  match cs.takeWhile isSchemeChar, cs.dropWhile isSchemeChar with
  | [], _ => none
  | name, ':' :: rest => some (String.ofList name, rest)
  | _, _ => none

/-- The characters that end a host. -/
def hostEnds : List Char := ['/', '?', '#']

/-- The characters that never stand in a host. -/
def hostBreaks : List Char :=
  [' ', '"', '%', '\'', ';', '<', '>', '\\', '^', Char.ofNat 0x60, '\x7b', '|', '\x7d']

/-- Whether two slashes stand in front, and behind them a user and a host. -/
def namesUser (cs : List Char) : Bool :=
  match cs with
  | '/' :: '/' :: rest =>
    let user := rest.takeWhile fun c => c != '@' && c != '/'
    !user.isEmpty &&
      (match rest.dropWhile fun c => c != '@' && c != '/' with
        | '@' :: c :: _ => c != '@' && c != '/'
        | _ => false)
  | _ => false

/-- What stands behind the user, whose name ends at the last at sign, if the name can be read. -/
def behindUser? (cs : List Char) : Option (List Char) :=
  if cs.contains '@' then
    (Text.Percent.decode? ((cs.reverse.dropWhile (· != '@')).drop 1).reverse).map fun _ =>
      (cs.reverse.takeWhile (· != '@')).reverse
  else some cs

/-- What follows the host of a target that starts with one, if it can be read. Digits behind a colon
at its end belong to the host; a colon anywhere else belongs to what follows. -/
def behindHost? (cs : List Char) : Option (List Char) := do
  let inFront := (cs.takeWhile fun c => !hostEnds.contains c).filter fun c =>
    c != '\t' && c != '\n' && c != '\r'
  let behind := cs.dropWhile fun c => !hostEnds.contains c
  let ofUser ← behindUser? inFront
  let host := ofUser.takeWhile fun c => !hostBreaks.contains c
  let rest := ofUser.dropWhile (fun c => !hostBreaks.contains c) ++ behind
  let name := match host.reverse.dropWhile Char.isDigit with
    | ':' :: before => before.reverse
    | _ => host
  if name.head? == some '[' && name.getLast? == some ']' then
    some (if rest.head? == some '/' then rest else '/' :: rest)
  else
    let plain := name.takeWhile (· != ':')
    if plain.any fun c => c == '[' || c == ']' || c == '@' || c.toNat == 0 then none
    else if plain.length = name.length then some rest
    else some ('/' :: name.dropWhile (· != ':') ++ rest)

/-- The part of a target behind scheme and host, if these can be read. -/
def local? (cs : List Char) : Option (List Char) :=
  match scheme? cs with
  | some (_, '/' :: '/' :: rest) => behindHost? rest
  | some (name, rest) => if slashedSchemes.contains name then some rest else behindHost? rest
  | none => if namesUser cs then behindHost? (cs.drop 2) else some cs

/-- The characters that are percent-encoded wherever they stand. -/
def encodedMarks : List Char :=
  ['\t', '\n', '\r', ' ', '"', '\'', '<', '>', '\\', '^', Char.ofNat 0x60, '\x7b', '|', '\x7d']

/-- A text with the characters encoded that never stand in an address. -/
def encoded (cs : List Char) : List Char :=
  cs.flatMap fun c => if encodedMarks.contains c then Text.Percent.encodeCode c.toNat else [c]

/-- The address of a loose target. -/
def ofLoose? (cs : List Char) : Option Address :=
  let plain := slashed (trimmed cs)
  if isPlain plain then some (split plain)
  else (local? plain).map fun rest => split ((encoded rest).takeWhile (· != '#'))

/-- The address of a target. -/
def ofTarget? (target : String) : Option Address :=
  let cs := target.toList
  if isLiteral cs then some (split cs) else ofLoose? cs

end Address

end LazyFrame
