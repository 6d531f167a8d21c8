import PredicateTransfer.HashJoinIndices
import PredicateTransfer.JoinLeftData
import PredicateTransfer.Lib.Runs

/-!
# The streams of a hash join

The probe side of a hash join is read by several streams. They share the build side: its rows and
its table, which they only read, and a bitmap of the build rows that were matched, a counter of the
streams that are not done and two flags of the null-aware anti join, which they also write. A
stream joins its probe batches one after the other, each in chunks of `batch_size` pairs, and the
last stream to finish goes over the bitmap.

`JoinContext.poll` is one stream up to its next access to the shared state, so that a run of
`JoinContext.step` is any interleaving of the accesses of all streams.
-/

namespace PredicateTransfer

open SemiJoin Chunks

variable {S : Sig}

/-! ## States -/

/-- The part of `JoinLeftData` that the streams write. -/
structure SharedState where
  visitedIndicesBitmap : List Bool
  probeThreadsCounter : Nat
  probeSideNonEmpty : Bool
  probeSideHasNull : Bool

/-- The accesses of `process_probe_batch` to the shared state. -/
inductive ProbeAccess where
  | storeNonEmpty
  | storeHasNull
  | loadHasNull
  | join
  deriving DecidableEq

/-- The accesses of `process_unmatched_build_batch` to the shared state. -/
inductive FinalAccess where
  | loadHasNull
  | reportProbeCompleted
  | readBitmap
  | loadNonEmpty (indices : List Slot)

/-- `HashJoinStreamState`, with the next access where a state has several. -/
inductive HashJoinStreamState (S : Sig) where
  | waitBuildSide
  | fetchProbeBatch
  | processProbeBatch (batch : RecordBatch S) (offset : MapOffset) (joinedProbeIdx : Option Nat)
      (next : ProbeAccess)
  | exhaustedProbeSide (next : FinalAccess)
  | completed

structure HashJoinStream (S : Sig) where
  state : HashJoinStreamState S
  /-- The batches still to come from the probe side. -/
  right : List (RecordBatch S)
  /-- The rows pushed to the output buffer. -/
  output : RecordBatch S

/-- `LimitedBatchCoalescer::push_batch`; true is `LimitReached`. -/
def pushBatch (fetch : Option Nat) (output rows : RecordBatch S) : RecordBatch S × Bool :=
  match fetch with
  | none => (output ++ rows, false)
  | some fetch =>
    if fetch ≤ output.length then (output, true)
    else if fetch ≤ output.length + rows.length then
      (output ++ rows.take (fetch - output.length), true)
    else (output ++ rows, false)

def Value.isNull : Value S → Bool
  | .null => true
  | _ => false

/-- What a stream is given when it is created. -/
structure JoinContext (W : World S) where
  join : HashJoinExec S
  columnIndices : List ColumnIndex
  hash : KeyHash W
  left : JoinLeftData W
  rightSideOrdered : Bool
  batchSize : Nat

namespace JoinContext

variable {W : World S} (C : JoinContext W)

/-- The first key of a build row is `NULL`. -/
def leftNull (l : Row S) : Bool := ((C.join.leftKeys W l).headD .null).isNull

/-- The first key of a probe row is `NULL`. -/
def rightNull (r : Row S) : Bool := ((C.join.rightKeys W r).headD .null).isNull

/-- The pairs of a chunk after the residual filter, and where to go on. -/
def probe (batch : RecordBatch S) (offset : MapOffset) :
    Option (List (Nat × Nat) × Option MapOffset) :=
  (C.left.lookup C.hash C.join batch C.batchSize offset).map fun x =>
    (x.1.filter (C.join.applyJoinFilter W C.left.batch batch), x.2)

/-- Setting the bits of the build rows of a chunk. -/
def markVisited (bitmap : List Bool) (pairs : List (Nat × Nat)) : List Bool :=
  pairs.foldl (fun bitmap x => bitmap.set x.2 true) bitmap

/-- Marking joined build rows as visited, if the join type requires it. -/
def markShared (shared : SharedState) (pairs : List (Nat × Nat)) : SharedState :=
  if C.join.joinType.needProduceResultInFinal then
    { shared with visitedIndicesBitmap := markVisited shared.visitedIndicesBitmap pairs }
  else shared

/-- The first row that a chunk decides: the one after the last joined row. -/
def rangeStart (joinedProbeIdx : Option Nat) : Nat := joinedProbeIdx.elim 0 (· + 1)

/-- The join itself in `process_probe_batch`. -/
def joinChunk (shared : SharedState) (s : HashJoinStream S) (batch : RecordBatch S)
    (offset : MapOffset) (joinedProbeIdx : Option Nat) :
    Option (SharedState × HashJoinStream S) :=
  if C.left.map.isEmpty && C.join.filter.isNone then
    let result := buildBatchEmptyBuildSide batch C.columnIndices C.join.joinType
    some (shared, { s with
      state := .fetchProbeBatch
      output := (pushBatch C.join.fetch s.output result).1 })
  else do
    let (pairs, nextOffset) ← C.probe batch offset
    let lastJoined := pairs.getLast?.map (·.1)
    let stop := if nextOffset.isNone then batch.length else rangeStart lastJoined
    let rows := chunkRows C.join.joinType C.columnIndices C.rightSideOrdered C.left.batch batch
      pairs (rangeStart joinedProbeIdx) stop
    let (output, limitReached) := pushBatch C.join.fetch s.output rows
    let state := if limitReached then .completed else match nextOffset with
      | none => .fetchProbeBatch
      | some offset' =>
        .processProbeBatch batch offset' (lastJoined.or joinedProbeIdx) .storeNonEmpty
    return (C.markShared shared pairs, { s with state, output })

/-- The rows of the final pass. -/
def finalBatch (shared : SharedState) (indices : List Slot) : RecordBatch S :=
  let indices := if C.join.nullAware && C.join.joinType = .leftAnti && shared.probeSideNonEmpty then
    dropNullKeys C.leftNull C.left.batch indices else indices
  buildBatchFromIndices C.left.batch [] indices C.columnIndices .left

/-- A stream up to its next access to the shared state. -/
def poll (shared : SharedState) (s : HashJoinStream S) :
    Option (SharedState × HashJoinStream S) :=
  match s.state with
  | .waitBuildSide => some (shared, { s with state := .fetchProbeBatch })
  | .fetchProbeBatch => match s.right with
    | [] => some (shared, { s with state := .exhaustedProbeSide .loadHasNull })
    | batch :: right => some (shared, { s with
        state := .processProbeBatch batch (0, none) none .storeNonEmpty
        right })
  | .processProbeBatch batch offset joined .storeNonEmpty =>
    some (if C.join.nullAware && !batch.isEmpty then { shared with probeSideNonEmpty := true }
      else shared, { s with state := .processProbeBatch batch offset joined .storeHasNull })
  | .processProbeBatch batch offset joined .storeHasNull =>
    some (if C.join.nullAware && batch.any C.rightNull then { shared with probeSideHasNull := true }
      else shared, { s with state := .processProbeBatch batch offset joined .loadHasNull })
  | .processProbeBatch batch offset joined .loadHasNull =>
    some (shared, { s with
      state := if C.join.nullAware && shared.probeSideHasNull then .fetchProbeBatch
        else .processProbeBatch batch offset joined .join })
  | .processProbeBatch batch offset joined .join => C.joinChunk shared s batch offset joined
  | .exhaustedProbeSide .loadHasNull =>
    some (shared, { s with
      state := if !C.join.joinType.needProduceResultInFinal then .completed
        else if C.join.nullAware && shared.probeSideHasNull then .completed
        else .exhaustedProbeSide .reportProbeCompleted })
  | .exhaustedProbeSide .reportProbeCompleted =>
    -- `report_probe_completed`: the stream that takes the counter from 1 to 0 is the last.
    some ({ shared with probeThreadsCounter := shared.probeThreadsCounter - 1 }, { s with
      state := if shared.probeThreadsCounter = 1 then .exhaustedProbeSide .readBitmap
        else .completed })
  | .exhaustedProbeSide .readBitmap =>
    some (shared, { s with
      state := .exhaustedProbeSide (.loadNonEmpty
        (getFinalIndices shared.visitedIndicesBitmap C.join.joinType)) })
  | .exhaustedProbeSide (.loadNonEmpty indices) =>
    some (shared, { s with
      state := .completed
      output := (pushBatch C.join.fetch s.output (C.finalBatch shared indices)).1 })
  | .completed => none

end JoinContext

/-- All streams of a join and what they share. -/
structure JoinState (S : Sig) (n : Nat) where
  shared : SharedState
  streams : Fin n → HashJoinStream S

namespace JoinContext

variable {W : World S} (C : JoinContext W) {n : Nat}

/-- The bitmap is only kept for joins that need it. -/
def init (inputs : Fin n → List (RecordBatch S)) : JoinState S n where
  shared :=
    { visitedIndicesBitmap := if C.join.joinType.needProduceResultInFinal then
        List.replicate C.left.batch.length false else []
      probeThreadsCounter := n
      probeSideNonEmpty := false
      probeSideHasNull := false }
  streams i := { state := .waitBuildSide, right := inputs i, output := [] }

/-- Polling stream `i`. -/
def step (s : JoinState S n) (i : Fin n) : Option (JoinState S n) :=
  (C.poll s.shared (s.streams i)).map fun x => ⟨x.1, Function.update s.streams i x.2⟩

end JoinContext

end PredicateTransfer
