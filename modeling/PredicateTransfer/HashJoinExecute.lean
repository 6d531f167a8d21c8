import PredicateTransfer.HashJoinFetch

/-!
# Executing a hash join

`execute` starts the stream of one partition. In `CollectLeft` mode all partitions join with one
build side: whoever comes first collects it into the cell `left_fut`, and the others wait for that.
The cell does not know which join it belongs to. A builder that starts from an existing join copies
the reference, so that both joins take what either has collected; only `reset_state` replaces it.

**Theorem (`HashJoinExec.endsWith_of_execute`).** The streams output the join if the cell is empty,
or holds the build side of this join (`LeftFut.Valid`).
-/

namespace PredicateTransfer

variable {S : Sig}

/-- What `execute` takes from the session and from the children: hashes and settings, the types and
bounds of the keys, whether the right child is ordered. -/
structure TaskContext (W : World S) where
  hash : KeyHash W
  config : PerfectHashConfig
  keys : Option (IntegerKeys W)
  bounds : (t : IntegerType) → Option (List (ColumnBounds t))
  rightSideOrdered : Bool
  batchSize : Nat

variable {W : World S}

/-- The keys of both inputs have the type that was announced, and there is something to execute. -/
structure TaskContext.Fits (T : TaskContext W) (j : HashJoinExec S) (build : List (RecordBatch S))
    {n : Nat} (inputs : Fin n → List (RecordBatch S)) : Prop where
  streams : 1 ≤ n
  batchSize : 1 ≤ T.batchSize
  build : ∀ I, T.keys = some I → ∀ l ∈ build.flatten, I.IsValue ((j.leftKeys W l).headD .null)
  probe : ∀ I, T.keys = some I → ∀ i, ∀ b ∈ inputs i, ∀ r ∈ b,
    I.IsValue ((j.rightKeys W r).headD .null)

/-- The cell `left_fut`: what was collected, or the error of it. -/
abbrev LeftFut (W : World S) := Option (Except DataFusionError (JoinLeftData W))

/-- If something was collected, it is what would be collected now. -/
def LeftFut.Valid (leftFut : LeftFut W) (collected : Except DataFusionError (JoinLeftData W)) :
    Prop :=
  ∀ data, leftFut = some data → data = collected

theorem LeftFut.Valid.getD_eq {leftFut : LeftFut W}
    {collected : Except DataFusionError (JoinLeftData W)} (h : leftFut.Valid collected) :
    leftFut.getD collected = collected := by
  cases hcell : leftFut with
  | none => rfl
  | some data => exact h data hcell

namespace HashJoinExec

/-- `execute`, with the cell before and after. `build` are the batches of the left child: of its
only partition in `CollectLeft` mode, of the partition that is executed in `Partitioned` mode. -/
def execute (T : TaskContext W) (j : HashJoinExec S) (left right : Schema)
    (leftPartitions rightPartitions : Nat) (build : List (RecordBatch S)) (leftFut : LeftFut W) :
    Except DataFusionError (JoinContext W) × LeftFut W :=
  let collected := collectLeftInput W j T.hash T.config T.keys T.bounds build
  let stream (data : Except DataFusionError (JoinLeftData W)) := data.map fun data =>
    ⟨j, j.columnIndices left right, T.hash, data, T.rightSideOrdered, T.batchSize⟩
  if j.mode = .partitioned ∧ leftPartitions ≠ rightPartitions then
    (.error (.internal ("Assertion failed: self.mode != PartitionMode::Partitioned || " ++
      "left_partitions == right_partitions: Invalid HashJoinExec, partition count mismatch " ++
      s!"{leftPartitions}!={rightPartitions},consider using RepartitionExec")), leftFut)
  else if j.mode = .collectLeft ∧ leftPartitions ≠ 1 then
    (.error (.internal ("Assertion failed: self.mode != PartitionMode::CollectLeft || " ++
      "left_partitions == 1: Invalid HashJoinExec, the output partition count of the left child " ++
      "must be 1 in CollectLeft mode,consider using CoalescePartitionsExec or the " ++
      "EnforceDistribution rule")), leftFut)
  else
    match j.mode with
    | .collectLeft => (stream (leftFut.getD collected), some (leftFut.getD collected))
    | .partitioned => (stream collected, leftFut)
    | .auto =>
      (.error (.plan "Invalid HashJoinExec, unsupported PartitionMode Auto in execute()"), leftFut)

variable {T : TaskContext W} {j : HashJoinExec S} {left right : Schema}
  {leftPartitions rightPartitions : Nat} {build : List (RecordBatch S)}
  {leftFut leftFut' : LeftFut W} {C : JoinContext W}

/-- The streams join with the build side of this join. -/
theorem execute_eq_ok
    (hvalid : j.mode = .collectLeft →
      leftFut.Valid (collectLeftInput W j T.hash T.config T.keys T.bounds build))
    (h : j.execute T left right leftPartitions rightPartitions build leftFut = (.ok C, leftFut')) :
    ∃ data, collectLeftInput W j T.hash T.config T.keys T.bounds build = .ok data ∧
      C = ⟨j, j.columnIndices left right, T.hash, data, T.rightSideOrdered, T.batchSize⟩ := by
  unfold execute at h
  simp only at h
  split_ifs at h
  · cases h
  · cases h
  · have hstream : (collectLeftInput W j T.hash T.config T.keys T.bounds build).map (fun data =>
        ⟨j, j.columnIndices left right, T.hash, data, T.rightSideOrdered, T.batchSize⟩) =
          .ok C := by
      cases hmode : j.mode with
      | collectLeft =>
        rw [hmode, (hvalid hmode).getD_eq] at h
        exact congrArg Prod.fst h
      | partitioned =>
        rw [hmode] at h
        exact congrArg Prod.fst h
      | auto =>
        rw [hmode] at h
        cases h
    cases hdata : collectLeftInput W j T.hash T.config T.keys T.bounds build with
    | error e =>
      rw [hdata] at hstream
      cases hstream
    | ok data =>
      rw [hdata] at hstream
      cases hstream
      exact ⟨data, rfl, rfl⟩

/-- **An executed join outputs the join.** -/
theorem endsWith_of_execute {n : Nat} {inputs : Fin n → List (RecordBatch S)} (hon : j.on ≠ [])
    (haware : j.nullAware = false) (hfits : T.Fits j build inputs)
    (hvalid : j.mode = .collectLeft →
      leftFut.Valid (collectLeftInput W j T.hash T.config T.keys T.bounds build))
    (h : j.execute T left right leftPartitions rightPartitions build leftFut = (.ok C, leftFut')) :
    C.EndsWith inputs
      (j.MayOutput W (j.columnIndices left right) (rowsOf build) (∑ i, rowsOf (inputs i))) := by
  obtain ⟨data, hdata, rfl⟩ := execute_eq_ok hvalid h
  exact endsWith_mayOutput left right T.rightSideOrdered hon haware hfits.batchSize hfits.streams
    hdata hfits.build hfits.probe

end HashJoinExec

end PredicateTransfer
