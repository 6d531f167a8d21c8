import PredicateTransfer.Bloom
import PredicateTransfer.KnapsackSelect

/-!
# What the two operators send, yield and log

The metrics a probe operator logs at the end of its stream are the training data of the model, so
a batch lost or counted twice would corrupt it without failing a query.

**Theorem (`streams_accounted`).** On an input without errors a build stream first sends one
payload, with the numbers of keys and of different keys, and then yields its input. A probe stream
with a payload yields one item for each item of its input, errors unchanged and batches filtered;
what it logs adds up, without underflow. Without a payload it yields its input and logs nothing.
-/

namespace PredicateTransfer

variable {S : Sig}

/-! ## The keys of a build stream -/

/-- The key texts of a stream's rows. -/
theorem flatMap_batchKeys (k : Nat) (input : List (RecordBatch S)) :
    input.flatMap (batchKeys k) = input.flatten.filterMap fun r => (Row.value r k).keyString := by
  induction input with
  | nil => rfl
  | cons b input ih =>
    rw [List.flatMap_cons, ih, List.flatten_cons, List.filterMap_append, batchKeys,
      RecordBatch.column, List.filterMap_map]
    rfl

theorem length_filterMap_isSome {α β : Type} (f : α → Option β) (l : List α) :
    (l.filterMap f).length = (l.filter fun a => (f a).isSome).length := by
  induction l with
  | nil => rfl
  | cons a l ih => cases hf : f a <;> simp [hf, ih]

/-! ## The metrics of a probe stream -/

structure FilterMetrics where
  queryId : String
  colName : String
  buildCardinality : Nat
  distinctEstimate : Nat
  filterSizeBytes : Nat
  buildTimeMs : ℚ
  probeBatches : Nat
  rowsIn : Nat
  rowsOut : Nat
  rowsEliminated : Nat
  probeTimeMs : ℚ
  deriving DecidableEq, Repr

/-- The metrics made of the totals once the input has ended. -/
def filterMetrics {B : BloomCrate} (var : String → Option String) (keyColumnName : String)
    (payload : BloomPayload B) (totals : ProbeTotals) (probeTimeMs : ℚ) :
    Option FilterMetrics := do
  let rowsEliminated ← checkedSub totals.rowsIn totals.rowsOut
  return {
    queryId := (var "BF_QUERY_ID").getD "unknown"
    colName := keyColumnName
    buildCardinality := payload.buildCardinality
    distinctEstimate := payload.distinctEstimate
    filterSizeBytes := payload.filterSizeBytes
    buildTimeMs := payload.buildTimeMs
    probeBatches := totals.probeBatches
    rowsIn := totals.rowsIn
    rowsOut := totals.rowsOut
    rowsEliminated := rowsEliminated
    probeTimeMs := probeTimeMs }

/-- A probe stream run to its end: what it yields, and what it logs if it received a payload. It
fails (`none`) where a subtraction does. -/
def probeLogged {B : BloomCrate} (var : String → Option String) (keyColumnName : String) (k : Nat)
    (probeTimeMs : ℚ) (received : Option (BloomPayload B)) (input : List (Item S)) :
    Option (List (Item S) × Option FilterMetrics) :=
  match received with
  | some payload => do
    let (items, totals) := probeLoop payload k input ⟨0, 0, 0⟩
    let metrics ← filterMetrics var keyColumnName payload totals probeTimeMs
    return (items, some metrics)
  | none => some (input, none)

/-- The rows of the batches among the items. -/
def itemRows (items : List (Item S)) : Nat :=
  (items.map fun | .ok b => b.length | .error _ => 0).sum

/-- The number of batches among the items. -/
def itemBatches (items : List (Item S)) : Nat :=
  (items.map fun | .ok _ => 1 | .error _ => 0).sum

section
variable {B : BloomCrate} (payload : BloomPayload B) (k : Nat)

theorem length_probeBatch_le (b : RecordBatch S) :
    (probeBatch payload k b).length ≤ b.length := by
  rw [probeBatch_eq_filter]
  exact List.length_filter_le _ b

/-- **The loop counts every batch once**, on its way in and on its way out. -/
theorem probeLoop_snd (input : List (Item S)) (t : ProbeTotals) :
    (probeLoop payload k input t).2 =
      ⟨t.probeBatches + itemBatches input, t.rowsIn + itemRows input,
        t.rowsOut + itemRows (probeLoop payload k input t).1⟩ := by
  induction input generalizing t with
  | nil => rfl
  | cons item input ih =>
    cases item with
    | error e =>
      rw [probeLoop]
      simp only [ih, itemRows, itemBatches, List.map_cons, List.sum_cons, Nat.zero_add]
    | ok b =>
      rw [probeLoop]
      simp only [ih, itemRows, itemBatches, List.map_cons, List.sum_cons, Nat.add_assoc]

theorem itemRows_probeLoop_le (input : List (Item S)) (t : ProbeTotals) :
    itemRows (probeLoop payload k input t).1 ≤ itemRows input := by
  rw [probeLoop_fst]
  induction input with
  | nil => exact le_rfl
  | cons item input ih =>
    cases item with
    | error e =>
      simp only [itemRows, List.map_cons, List.sum_cons, Except.map] at ih ⊢
      omega
    | ok b =>
      have hb := length_probeBatch_le payload k b
      simp only [itemRows, List.map_cons, List.sum_cons, Except.map] at ih ⊢
      omega

/-- What is yielded and logged with a payload. -/
theorem probeLogged_some (var : String → Option String) (keyColumnName : String)
    (probeTimeMs : ℚ) (input : List (Item S)) :
    ∃ metrics, probeLogged var keyColumnName k probeTimeMs (some payload) input =
        some (input.map (Except.map fun b => b.filter (keepRow k (some payload))),
          some metrics) ∧
      metrics.probeBatches = itemBatches input ∧
      metrics.rowsIn = itemRows input ∧
      metrics.rowsOut =
        itemRows (input.map (Except.map fun b => b.filter (keepRow k (some payload)))) ∧
      metrics.rowsIn = metrics.rowsOut + metrics.rowsEliminated := by
  have hitems : (probeLoop payload k input ⟨0, 0, 0⟩).1 =
      input.map (Except.map fun b => b.filter (keepRow k (some payload))) := by
    rw [probeLoop_fst]
    congr 2
    funext b
    exact probeBatch_eq_filter payload k b
  have htotals := probeLoop_snd payload k input ⟨0, 0, 0⟩
  have hle := itemRows_probeLoop_le payload k input ⟨0, 0, 0⟩
  simp only [Nat.zero_add] at htotals
  simp only [probeLogged, filterMetrics, htotals, checkedSub_eq hle]
  rw [hitems] at hle ⊢
  exact ⟨_, rfl, rfl, rfl, rfl, (Nat.add_sub_cancel' hle).symm⟩

end

/-! ## Both operators -/

/-- **Every batch is sent, yielded and counted once.** Resumed often enough, a build stream on an
input without errors sends one payload and then yields its input, batch by batch; the payload
counts the keys of a supported type and their different texts. A probe stream with a payload yields
one item for each input item: an error as it came, a batch with the rows whose key passes, which
are never more than it had. The logged rows are those of its input and of its output, and the rest
is what was eliminated. Without a payload its input is passed on. -/
theorem streams_accounted {B : BloomCrate} (k : Nat) (seed : B.Seed) (elapsed : ℚ)
    (var : String → Option String) (keyColumnName : String) (probeTimeMs : ℚ) :
    (∀ input : List (RecordBatch S), ∃ payload : BloomPayload B,
      (∀ n, (BuildStream.collecting (input.map .ok) [] []).events B k seed elapsed
          (2 * input.length + 1 + n) =
        .sent payload :: input.map fun b => .yielded (.ok b)) ∧
      payload.buildCardinality =
        (input.flatten.filter fun r => (Row.value r k).keyString.isSome).length ∧
      payload.distinctEstimate =
        (input.flatten.filterMap fun r => (Row.value r k).keyString).toFinset.card ∧
      payload.distinctEstimate ≤ payload.buildCardinality ∧
      payload.buildCardinality ≤ (input.map List.length).sum) ∧
    (∀ (payload : BloomPayload B) (input : List (Item S)),
      (∀ b : RecordBatch S, ∃ eliminated,
        checkedSub b.length (b.filter (keepRow k (some payload))).length = some eliminated) ∧
      ∃ metrics, probeLogged var keyColumnName k probeTimeMs (some payload) input =
          some (input.map (Except.map fun b => b.filter (keepRow k (some payload))),
            some metrics) ∧
        metrics.probeBatches = itemBatches input ∧
        metrics.rowsIn = itemRows input ∧
        metrics.rowsOut =
          itemRows (input.map (Except.map fun b => b.filter (keepRow k (some payload)))) ∧
        metrics.rowsIn = metrics.rowsOut + metrics.rowsEliminated) ∧
    (∀ input : List (Item S), probeLogged var keyColumnName k probeTimeMs
      (none : Option (BloomPayload B)) input = some (input, none)) := by
  refine ⟨fun input => ?_, fun payload input => ⟨fun b => ?_, ?_⟩, fun input => rfl⟩
  · refine ⟨.ofValues B seed elapsed (input.flatMap (batchKeys k)), fun n => ?_, ?_, ?_, ?_, ?_⟩
    · rw [events_collecting B k seed elapsed _ [] [] _ (by simp), buildRun_ok]
      simp
    · rw [flatMap_batchKeys]
      exact length_filterMap_isSome _ _
    · rw [flatMap_batchKeys]
      rfl
    · exact List.toFinset_card_le _
    · rw [flatMap_batchKeys, ← List.length_flatten]
      exact List.length_filterMap_le _ _
  · exact ⟨_, checkedSub_eq (List.length_filter_le _ b)⟩
  · exact probeLogged_some payload k var keyColumnName probeTimeMs input

end PredicateTransfer
