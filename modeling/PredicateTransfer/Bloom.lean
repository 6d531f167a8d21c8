import PredicateTransfer.KeyLookup

/-!
# The two Bloom filter operators

`BloomFilterBuildExec` reads its whole input, collects the printed non-null keys, sends a filter
over them on its channel and only then yields the batches it buffered. `BloomFilterProbeExec`
first waits for a filter; with one, it drops the rows whose key the filter rejects, and without
one it passes its input through.

The build operator is given twice: as the generator that is resumed one input item at a time
(`BuildStream.step`), which is what other streams interleave with, and as the result of running
it to the end (`buildRun`). `events_collecting` says the two agree.

Of the `bloomfilter` crate only `NoFalseNegatives` is ever assumed. The filter's hash keys are
drawn when it is created, hence the `Seed`.
-/

namespace PredicateTransfer

variable {S : Sig}

/-! ## Filters and payloads -/

/-- The part of the `bloomfilter` crate the operators use. -/
structure BloomCrate where
  Bloom : Type
  Seed : Type
  /-- `Bloom::new_for_fp_rate(items_count, 0.01)`. -/
  newForFpRate : Nat → Seed → Bloom
  set : Bloom → String → Bloom
  check : Bloom → String → Bool

/-- What was set is found; anything else may be found too. -/
def BloomCrate.NoFalseNegatives (B : BloomCrate) : Prop :=
  ∀ (n : Nat) (seed : B.Seed) (vs : List String), ∀ v ∈ vs,
    B.check (vs.foldl B.set (B.newForFpRate n seed)) v = true

/-- A filter that remembers exactly what was set. -/
def exactBloom : BloomCrate where
  Bloom := List String
  Seed := Unit
  newForFpRate _ _ := []
  set f v := v :: f
  check f v := f.contains v

theorem exactBloom_noFalseNegatives : exactBloom.NoFalseNegatives := by
  intro n seed vs v hv
  show (vs.foldl (fun f v => v :: f) []).contains v = true
  rw [List.foldl_flip_cons_eq_append]
  simpa using hv

structure BloomPayload (B : BloomCrate) where
  filter : B.Bloom
  buildCardinality : Nat
  distinctEstimate : Nat
  filterSizeBytes : Nat
  buildTimeMs : ℚ

/-- The payload sent for the collected keys. -/
def BloomPayload.ofValues (B : BloomCrate) (seed : B.Seed) (elapsed : ℚ)
    (allValues : List String) : BloomPayload B where
  filter := allValues.foldl B.set (B.newForFpRate (max allValues.length 1) seed)
  buildCardinality := allValues.length
  distinctEstimate := allValues.toFinset.card
  filterSizeBytes := allValues.length * 2
  buildTimeMs := elapsed

theorem BloomPayload.check_ofValues {B : BloomCrate} (hB : B.NoFalseNegatives) {seed : B.Seed}
    {elapsed : ℚ} {vs : List String} {v : String} (hv : v ∈ vs) :
    B.check (BloomPayload.ofValues B seed elapsed vs).filter v = true :=
  hB _ seed vs v hv

/-! ## Keys -/

/-- The text a key is hashed under. Nulls and unsupported types have none. -/
def Value.keyString : Value S → Option String
  | .int32 v => some (toString v)
  | .int64 v => some (toString v)
  | .utf8 v => some v
  | _ => none

/-- The keys the build operator pushes for one batch. -/
def batchKeys (k : Nat) (b : RecordBatch S) : List String :=
  (b.column k).filterMap Value.keyString

/-- One bit of the probe operator's mask. -/
def keepValue {B : BloomCrate} (payload : BloomPayload B) : Value S → Bool
  | .null => false
  | v => match v.keyString with
    | some s => B.check payload.filter s
    | none => true

/-- The rows of a stream's batches. -/
def rowsOf (bs : List (RecordBatch S)) : Multiset (Row S) := (bs.flatten : List (Row S))

@[simp] theorem rowsOf_nil : rowsOf ([] : List (RecordBatch S)) = 0 := rfl

@[simp] theorem rowsOf_cons (b : RecordBatch S) (bs : List (RecordBatch S)) :
    rowsOf (b :: bs) = (b : Multiset (Row S)) + rowsOf bs := by
  simp [rowsOf]

/-! ## The build operator -/

/-- Where the generator of a build stream stands. -/
inductive BuildStream (S : Sig) where
  | collecting (input : List (Item S)) (allValues : List String) (batches : List (RecordBatch S))
  | yielding (batches : List (RecordBatch S))
  | ended
  | failed (e : DataFusionError)

/-- What others can see of a build stream. -/
inductive BuildEvent (B : BloomCrate) (S : Sig) where
  | sent (payload : BloomPayload B)
  | yielded (item : Item S)

section
variable (B : BloomCrate) (k : Nat) (seed : B.Seed) (elapsed : ℚ)

/-- Resume the generator: its next state, what it sends, and what it yields. -/
def BuildStream.step :
    BuildStream S → BuildStream S × Option (BloomPayload B) × Option (Item S)
  | .collecting (.ok b :: input) vs bs =>
    (.collecting input (vs ++ batchKeys k b) (bs ++ [b]), none, none)
  | .collecting (.error e :: _) _ _ => (.failed e, none, some (.error e))
  | .collecting [] vs bs => (.yielding bs, some (.ofValues B seed elapsed vs), none)
  | .yielding (b :: bs) => (.yielding bs, none, some (.ok b))
  | .yielding [] => (.ended, none, none)
  | .ended => (.ended, none, none)
  | .failed e => (.failed e, none, none)

/-- Run the generator to its end: the payload it sends, if any, and the items it yields. An
input error is yielded at once and drops what was buffered. -/
def buildRun : List (Item S) → List String → List (RecordBatch S) →
    Option (BloomPayload B) × List (Item S)
  | [], vs, bs => (some (.ofValues B seed elapsed vs), bs.map .ok)
  | .ok b :: input, vs, bs => buildRun input (vs ++ batchKeys k b) (bs ++ [b])
  | .error e :: _, _, _ => (none, [.error e])

/-- The events of `n` resumptions, in their order. -/
def BuildStream.events : Nat → BuildStream S → List (BuildEvent B S)
  | 0, _ => []
  | n + 1, st =>
    let (st', sent, yielded) := st.step B k seed elapsed
    sent.toList.map .sent ++ yielded.toList.map .yielded ++ events n st'

theorem events_failed (n : Nat) (e : DataFusionError) :
    (BuildStream.failed (S := S) e).events B k seed elapsed n = [] := by
  induction n with
  | zero => rfl
  | succ n ih => simp [BuildStream.events, BuildStream.step, ih]

theorem events_ended (n : Nat) : (BuildStream.ended (S := S)).events B k seed elapsed n = [] := by
  induction n with
  | zero => rfl
  | succ n ih => simp [BuildStream.events, BuildStream.step, ih]

theorem events_yielding (bs : List (RecordBatch S)) (n : Nat) :
    (BuildStream.yielding bs).events B k seed elapsed (bs.length + n) =
      bs.map fun b => .yielded (.ok b) := by
  induction bs with
  | nil =>
    cases n with
    | zero => rfl
    | succ n => simp [BuildStream.events, BuildStream.step, events_ended]
  | cons b bs ih =>
    rw [List.length_cons, Nat.add_right_comm, BuildStream.events]
    simp [BuildStream.step, ih]

/-- **Resuming often enough runs the stream to its end**: every input item, the send, and every
buffered batch take one step each. What is sent is sent before anything is yielded. -/
theorem events_collecting (input : List (Item S)) (vs : List String) (bs : List (RecordBatch S))
    (n : Nat) (hn : 2 * input.length + bs.length + 1 ≤ n) :
    (BuildStream.collecting input vs bs).events B k seed elapsed n =
      (buildRun B k seed elapsed input vs bs).1.toList.map .sent ++
        (buildRun B k seed elapsed input vs bs).2.map .yielded := by
  induction input generalizing vs bs n with
  | nil =>
    obtain ⟨m, rfl⟩ : ∃ m, n = (bs.length + m) + 1 := ⟨n - bs.length - 1, by simp at hn; omega⟩
    simp [BuildStream.events, BuildStream.step, events_yielding, buildRun, Function.comp_def]
  | cons item input ih =>
    obtain ⟨m, rfl⟩ : ∃ m, n = m + 1 := ⟨n - 1, by omega⟩
    cases item with
    | error e => simp [BuildStream.events, BuildStream.step, events_failed, buildRun]
    | ok b =>
      have h := ih (vs ++ batchKeys k b) (bs ++ [b]) m (by simp at hn ⊢; omega)
      simp [BuildStream.events, BuildStream.step, buildRun, h]

/-- Without errors in its input, a build stream sends one payload over all keys and yields its
input unchanged. -/
theorem buildRun_ok (input bs : List (RecordBatch S)) (vs : List String) :
    buildRun B k seed elapsed (input.map .ok) vs bs =
      (some (.ofValues B seed elapsed (vs ++ input.flatMap (batchKeys k))),
        (bs ++ input).map .ok) := by
  induction input generalizing vs bs with
  | nil => simp [buildRun]
  | cons b input ih => simp [buildRun, ih]

end

/-- `BloomFilterBuildExec::execute` on one partition, run to the end. -/
def buildExecute (B : BloomCrate) (schema : Schema) (keyColumnName : String) (seed : B.Seed)
    (elapsed : ℚ) (input : List (Item S)) :
    Except DataFusionError (Option (BloomPayload B) × List (Item S)) := do
  let k ← keyColumn "BloomFilterBuildExec" schema keyColumnName
  return buildRun B k seed elapsed input [] []

/-! ## The probe operator -/

/-- The counters the probe operator logs. -/
structure ProbeTotals where
  probeBatches : Nat
  rowsIn : Nat
  rowsOut : Nat
  deriving DecidableEq, Repr

section
variable {B : BloomCrate} (payload : BloomPayload B) (k : Nat)

/-- One batch through the filter. -/
def probeBatch (b : RecordBatch S) : RecordBatch S :=
  filterRecordBatch b ((b.column k).map (keepValue payload))

theorem probeBatch_eq_filter (b : RecordBatch S) :
    probeBatch payload k b = b.filter fun r => keepValue payload (Row.value r k) := by
  rw [probeBatch, RecordBatch.column, List.map_map]
  exact filterRecordBatch_map b _

/-- The probe loop: an error is passed on and the loop continues. -/
def probeLoop : List (Item S) → ProbeTotals → List (Item S) × ProbeTotals
  | [], t => ([], t)
  | .error e :: input, t =>
    let (items, t) := probeLoop input t
    (.error e :: items, t)
  | .ok b :: input, t =>
    let filtered := probeBatch payload k b
    let (items, t) := probeLoop input
      ⟨t.probeBatches + 1, t.rowsIn + b.length, t.rowsOut + filtered.length⟩
    (.ok filtered :: items, t)

theorem probeLoop_fst (input : List (Item S)) (t : ProbeTotals) :
    (probeLoop payload k input t).1 = input.map (Except.map (probeBatch payload k)) := by
  induction input generalizing t with
  | nil => rfl
  | cons item input ih => cases item <;> simp [probeLoop, ih, Except.map]

end

/-- What a probe stream yields once `recv` has returned a payload (`some`) or an error. -/
def probeRun {B : BloomCrate} (k : Nat) (received : Option (BloomPayload B))
    (input : List (Item S)) : List (Item S) :=
  match received with
  | some payload => (probeLoop payload k input ⟨0, 0, 0⟩).1
  | none => input

/-- `BloomFilterProbeExec::execute` on one partition, run to the end. -/
def probeExecute {B : BloomCrate} (schema : Schema) (keyColumnName : String)
    (received : Option (BloomPayload B)) (input : List (Item S)) :
    Except DataFusionError (List (Item S)) := do
  let k ← keyColumn "BloomFilterProbeExec" schema keyColumnName
  return probeRun k received input

/-- Whether a row gets past a probe operator. -/
def keepRow {B : BloomCrate} (k : Nat) (received : Option (BloomPayload B)) (r : Row S) : Bool :=
  match received with
  | some payload => keepValue payload (Row.value r k)
  | none => true

/-- **A probe operator filters rows**, whatever the batches. -/
theorem probeRun_ok {B : BloomCrate} (k : Nat) (received : Option (BloomPayload B))
    (input : List (RecordBatch S)) :
    probeRun k received (input.map .ok) =
      (input.map fun b => b.filter (keepRow k received)).map .ok := by
  cases received with
  | none =>
    have hid : ∀ b : RecordBatch S, b.filter (keepRow k (none : Option (BloomPayload B))) = b :=
      fun b => List.filter_eq_self.2 fun _ _ => rfl
    simp [probeRun, hid]
  | some payload =>
    rw [probeRun, probeLoop_fst, List.map_map, List.map_map]
    refine List.map_congr_left fun b _ => ?_
    simp only [Function.comp_apply, Except.map, probeBatch_eq_filter]
    rfl

theorem rowsOf_map_filter (p : Row S → Bool) (bs : List (RecordBatch S)) :
    rowsOf (bs.map fun b => b.filter p) = (rowsOf bs).filter (p ·) := by
  induction bs with
  | nil => rfl
  | cons b bs ih => simp [ih]

end PredicateTransfer
