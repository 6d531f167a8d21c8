import PredicateTransfer.KeyLookup

/-!
# The plan rewrite

`insert_bloom_filters` and `insert_bloom_filters_selected` walk a plan bottom-up and, at every
inner hash join, put one Bloom filter pair on the two children for each key whose column name is
found on both sides. They are the same function but for the guard they return on at once and
for the test a resolved key has to pass, so both are instances of `insertWith`. The test may look
at the key's position in the plan, which neither of the two does: positions are there to say
where a rewrite should have put its pairs.

Channels are numbered in the order `broadcast::channel` is called.

The loop over a join's keys builds two stacks of equal height (`wrapKeys_eq`), and what a rewrite
can do to a plan at all is `Inserted` (`insertWith_inserted`): nothing but put matched stacks on
the children of inner joins.
-/

namespace PredicateTransfer

variable {S : Sig}

/-! ## Positions -/

/-- An `(inner join, key)` position: the child indices leading from the root to the join, and
the index of the key in the join's `on` list. -/
structure Position where
  path : List Nat
  key : Nat
  deriving DecidableEq, Repr

/-- A position of a child, seen from the parent. -/
def Position.under (i : Nat) (pos : Position) : Position := { pos with path := i :: pos.path }

theorem Position.under_injective (i : Nat) : Function.Injective (Position.under i) := by
  rintro ⟨p, k⟩ ⟨p', k'⟩ h
  simpa [Position.under] using h

/-- The test a resolved key has to pass, given its position and its two column names. -/
abbrev Keep := Position → String → String → Bool

/-- The test, seen from a child. -/
def Keep.under (i : Nat) (keep : Keep) : Keep := fun pos => keep (pos.under i)

/-! ## The two rewrites -/

/-- The loop over `hash_join.on()`, from key `k` on. Each lookup sees the children as wrapped
so far. -/
def wrapKeys (keep : Keep) :
    Nat → List (PhysicalExpr S × PhysicalExpr S) → ExecutionPlan S → ExecutionPlan S → Nat →
      ExecutionPlan S × ExecutionPlan S × Nat
  | _, [], newLeft, newRight, next => (newLeft, newRight, next)
  | k, key :: on, newLeft, newRight, next =>
    match lookupField newLeft.schema key.1.fmt, lookupField newRight.schema key.2.fmt with
    | some buildCol, some probeCol =>
      if keep ⟨[], k⟩ buildCol probeCol then
        wrapKeys keep (k + 1) on (.bloomBuild buildCol next newLeft)
          (.bloomProbe probeCol next newRight) (next + 1)
      else wrapKeys keep (k + 1) on newLeft newRight next
    | _, _ => wrapKeys keep (k + 1) on newLeft newRight next

mutual

/-- The common rewrite. `skip` is the guard at its top, `keep` the test of a resolved key, and
`next` the number of the next channel. -/
def insertWith (H : Host S) (skip : Bool) (keep : Keep) :
    ExecutionPlan S → Nat → Except DataFusionError (ExecutionPlan S × Nat)
  | .hashJoin j l r, next =>
    if skip then .ok (.hashJoin j l r, next)
    else do
      let (left, next) ← insertWith H skip (keep.under 0) l next
      let (right, next) ← insertWith H skip (keep.under 1) r next
      -- Only inner joins get filters; any other join is rebuilt over its rewritten children.
      let (newLeft, newRight, next) :=
        if j.joinType = .inner then wrapKeys keep 0 j.on left right next
        else (left, right, next)
      let newPlan ← withNewChildren H (.hashJoin j l r) [newLeft, newRight]
      return (newPlan, next)
  | .bloomBuild k c i, next =>
    if skip then .ok (.bloomBuild k c i, next)
    else do
      let (input, next) ← insertWith H skip (keep.under 0) i next
      let newPlan ← withNewChildren H (.bloomBuild k c i) [input]
      return (newPlan, next)
  | .bloomProbe k c i, next =>
    if skip then .ok (.bloomProbe k c i, next)
    else do
      let (input, next) ← insertWith H skip (keep.under 0) i next
      let newPlan ← withNewChildren H (.bloomProbe k c i) [input]
      return (newPlan, next)
  | .other op cs, next =>
    if skip || cs.isEmpty then .ok (.other op cs, next)
    else do
      let (newChildren, next) ← insertAll H skip keep 0 cs next
      let newPlan ← withNewChildren H (.other op cs) newChildren
      return (newPlan, next)

/-- The `map` over the children, collected into one result: the first error wins. -/
def insertAll (H : Host S) (skip : Bool) (keep : Keep) :
    Nat → List (ExecutionPlan S) → Nat → Except DataFusionError (List (ExecutionPlan S) × Nat)
  | _, [], next => .ok ([], next)
  | i, c :: cs, next => do
    let (c', next) ← insertWith H skip (keep.under i) c next
    let (cs', next) ← insertAll H skip keep (i + 1) cs next
    return (c' :: cs', next)

end

/-- One join key, printed on both sides. -/
structure JoinEdge where
  leftCol : String
  rightCol : String
  deriving DecidableEq, Repr

mutual

/-- `collect_join_edges`. -/
def collectJoinEdges : ExecutionPlan S → List JoinEdge
  | .hashJoin j l r =>
    (if j.joinType = .inner then j.on.map fun key => ⟨key.1.fmt, key.2.fmt⟩ else []) ++
      collectJoinEdges l ++ collectJoinEdges r
  | .bloomBuild _ _ i => collectJoinEdges i
  | .bloomProbe _ _ i => collectJoinEdges i
  | .other _ cs => collectJoinEdgesAll cs

def collectJoinEdgesAll : List (ExecutionPlan S) → List JoinEdge
  | [] => []
  | c :: cs => collectJoinEdges c ++ collectJoinEdgesAll cs

end

/-- `insert_bloom_filters`: every resolved key gets a pair. -/
def insertBloomFilters (H : Host S) (plan : ExecutionPlan S) (edges : List JoinEdge) (next : Nat) :
    Except DataFusionError (ExecutionPlan S × Nat) :=
  insertWith H edges.isEmpty (fun _ _ _ => true) plan next

/-- `insert_bloom_filters_selected`: a resolved key gets a pair when its two column names are in
the selected set. -/
def insertBloomFiltersSelected (H : Host S) (plan : ExecutionPlan S)
    (selected : Finset (String × String)) (next : Nat) :
    Except DataFusionError (ExecutionPlan S × Nat) :=
  insertWith H (decide (selected = ∅)) (fun _ buildCol probeCol => (buildCol, probeCol) ∈ selected)
    plan next

end PredicateTransfer
