import LazyFrame.Plan.Operations

/-!
# Merging two plans

`Plan.merge` joins two plans on columns that their outputs name. The outputs of the result are those
of the left plan and then those of the right plan whose names the left one does not have. Every
SELECT knows a relation only once, so the relations that both sides read get a new identity on the
right side.

Both plans are opened first. What the left plan filters stays a filter. What the right plan filters
joins it there in an inner join; in a left join it becomes part of the join condition, so that it
decides which right rows are partners and removes no left row.
-/

namespace LazyFrame

/-- How two plans are merged: columns of both sides by common names or by names of their own, and a
kind of join. -/
structure MergeOptions where
  on? : Option (List String)
  leftOn? : Option (List String)
  rightOn? : Option (List String)
  how? : Option String
  deriving DecidableEq, Inhabited

namespace MergeOptions

/-- The kind of join asked for; without a wish it is an inner one. -/
def kind (o : MergeOptions) : Attempt JoinKind :=
  let name := o.how?.getD "inner"
  match JoinKind.ofName? name with
  | some kind => .ok kind
  | none => .error (.unsupportedJoin name)

/-- The key columns of both sides that the options ask for. -/
def requested (o : MergeOptions) (left right : List String) : Attempt (List String × List String) :=
  match o.on?, o.leftOn?, o.rightOn? with
  | some names, none, none => do
    names.forM fun name =>
      if left.contains name && right.contains name then .ok ()
        else .error (.unknownColumn name (some .mergeKey))
    .ok (names, names)
  | some _, _, _ => .error (.invalidOperation .twoKeyStyles)
  | none, some l, some r =>
    if l.length = r.length then .ok (l, r) else .error (.invalidOperation .keyCounts)
  | none, some _, none => .error (.invalidOperation .oneSidedKeys)
  | none, none, some _ => .error (.invalidOperation .oneSidedKeys)
  | none, none, none =>
    match left.filter right.contains with
    | [name] => .ok ([name], [name])
    | [] => .error (.invalidOperation .nothingShared)
    | several => .error (.invalidOperation (.ambiguousKey several))

/-- The key columns of both sides; there has to be one. -/
def keys (o : MergeOptions) (left right : List String) : Attempt (List String × List String) := do
  let (l, r) ← o.requested left right
  if l.isEmpty then .error (.invalidOperation .noKeys)
  .ok (l, r)

end MergeOptions

namespace Query

/-- New identities for relations, the first of them `next`. -/
def freshRelations (next : Nat) (relations : List Relation) : Relabelling :=
  relations.zipIdx.map fun entry => (entry.1, { entry.1 with id := next + entry.2 })

/-- The query over the images of its visible relations. -/
def relabel (map : Relabelling) (q : Query) : Query :=
  { source := q.source.relabel map
    selection := { q.selection with
      outputs :=
    q.selection.outputs.map fun output => { output with expr := output.expr.substitute map }
      filter? := q.selection.filter?.map (Expr.substitute map) } }

/-- The relations that two queries both read, in the order of the second. -/
def shared (left right : Query) : List Relation :=
  right.source.visible.filter left.source.visible.contains

/-- The join of two queries that share no relation. -/
def joinOn (left right : Query) (kind : JoinKind) (keys : List JoinKey) : Query :=
  let outputs := left.selection.outputs ++ right.selection.outputs.filter fun output =>
    !left.names.contains output.name
  match kind with
  | .inner =>
    ⟨.join left.source right.source .inner keys none,
      .plain outputs (Expr.conjoin left.selection.filter? right.selection.filter?)⟩
  | .left =>
    ⟨.join left.source right.source .left keys right.selection.filter?,
      .plain outputs left.selection.filter?⟩

end Query

namespace Plan

/-- Joins two plans; `next` is the first identity not used yet, and so is the number in the
result. -/
def merge (p q : Plan) (options : MergeOptions) (next : Nat) : Attempt (Query × Nat) := do
  let kind ← options.kind
  let left := p.opened
  let (leftNames, rightNames) ← options.keys left.names q.opened.names
  let shared := left.shared q.opened
  let right := q.opened.relabel (Query.freshRelations next shared)
  let keys ← (leftNames.zip rightNames).mapM fun names => do
    let l ← left.lookup names.1
    let r ← right.lookup names.2
    Except.ok (JoinKey.mk l r)
  .ok (left.joinOn right kind keys, next + shared.length)

end Plan

end LazyFrame
