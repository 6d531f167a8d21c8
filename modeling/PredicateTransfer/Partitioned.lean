import PredicateTransfer.Bloom
import PredicateTransfer.Lib.Channels
import PredicateTransfer.Lib.Runs

/-!
# A partitioned join and its channel

The `n` build streams and the `n` probe streams of a partitioned hash join share one broadcast
channel with a single slot, so every probe stream can be handed the filter of any build stream.
Three kinds of steps touch the channel, in any order the executor chooses:

* `execute i` makes the streams of partition `i` and subscribes its probe stream, both before
  any of them is polled;
* `pollBuild i` resumes the build stream, which sends its filter once its input has ended;
* `pollProbe i` resumes the probe stream. `HashJoinStream` leaves `WaitBuildSide` only when its
  build stream has ended without an error, so no probe stream is polled before that.

**Theorem (`probe_filters_own_partition`).** A probe stream that leaves `recv` with a filter has
the complete filter of its own partition, and no probe stream ever waits.

The own filter was sent after the probe stream subscribed, so it is unread when `recv` is first
polled. A single further message makes `recv` report a lag, and the probe stream passes its input
through.
-/

namespace PredicateTransfer

open Runs

variable {S : Sig} {B : BloomCrate} {T : Broadcast (BloomPayload B)}

/-! ## Probe streams -/

/-- Where the generator of a probe stream stands, as far as its channel is concerned. -/
inductive ProbeStream (T : Broadcast (BloomPayload B)) where
  /-- Subscribed and not polled yet. -/
  | idle (receiver : T.Receiver)
  /-- Suspended in `receiver.recv().await`. -/
  | waiting (receiver : T.Receiver)
  | filtering (payload : BloomPayload B)
  | passThrough

/-- The result of `recv` decides how the stream goes on. -/
def ProbeStream.receive (channel : T.Channel) (receiver : T.Receiver) : ProbeStream T :=
  match T.recv channel receiver with
  | (.pending, r) => .waiting r
  | (.value payload, _) => .filtering payload
  | (.lagged _, _) => .passThrough

/-- Resume the generator, up to the point where it has left `recv`. -/
def ProbeStream.poll (channel : T.Channel) : ProbeStream T → ProbeStream T
  | .idle receiver => .receive channel receiver
  | .waiting receiver => .receive channel receiver
  | .filtering payload => .filtering payload
  | .passThrough => .passThrough

theorem ProbeStream.receive_eq_waiting_iff {channel : T.Channel} {r r' : T.Receiver} :
    ProbeStream.receive channel r = .waiting r' ↔ T.unread channel r = 0 ∧ r' = r := by
  rw [← Broadcast.recv_eq_pending_iff]
  unfold ProbeStream.receive
  split <;> simp_all

theorem ProbeStream.receive_ne_idle {channel : T.Channel} {r r' : T.Receiver} :
    ProbeStream.receive channel r ≠ .idle r' := by
  unfold ProbeStream.receive
  split <;> simp

theorem ProbeStream.receive_filtering {channel : T.Channel} {r : T.Receiver}
    {payload : BloomPayload B} (h : ProbeStream.receive channel r = .filtering payload) :
    (T.recv channel r).1 = .value payload := by
  unfold ProbeStream.receive at h
  split at h
  · cases h
  · rename_i heq
    cases h
    rw [heq]
  · cases h

/-! ## The join's steps -/

/-- What the build side of a join reads and draws. -/
structure BuildSide (S : Sig) (B : BloomCrate) (ι : Type) where
  keyColumn : Nat
  input : ι → List (Item S)
  seed : ι → B.Seed
  elapsed : ι → ℚ

namespace PartitionedJoin

variable {n : Nat}

/-- The two streams of an executed partition. -/
structure Partition (S : Sig) (T : Broadcast (BloomPayload B)) where
  build : BuildStream S
  probe : ProbeStream T

structure State (S : Sig) (T : Broadcast (BloomPayload B)) (n : Nat) where
  channel : T.Channel
  partitions : Fin n → Option (Partition S T)

inductive Action (n : Nat) where
  | execute (i : Fin n)
  | pollBuild (i : Fin n)
  | pollProbe (i : Fin n)
  deriving DecidableEq, Repr

def State.set (st : State S T n) (i : Fin n) (p : Partition S T) : State S T n :=
  { st with partitions := Function.update st.partitions i (some p) }

/-- Send what a build stream sends, if anything. -/
def State.send (st : State S T n) (sent : Option (BloomPayload B)) : State S T n :=
  { st with channel := sent.elim st.channel (T.send st.channel) }

/-- No partition has been executed. -/
def init (S : Sig) (T : Broadcast (BloomPayload B)) (n : Nat) : State S T n :=
  ⟨T.new 1, fun _ => none⟩

def step (E : BuildSide S B (Fin n)) (st : State S T n) : Action n → Option (State S T n)
  | .execute i =>
    match st.partitions i with
    | some _ => none
    | none => some (st.set i ⟨.collecting (E.input i) [] [], .idle (T.subscribe st.channel)⟩)
  | .pollBuild i => do
    let p ← st.partitions i
    let (build, sent, _) := p.build.step B E.keyColumn (E.seed i) (E.elapsed i)
    return (st.send sent).set i { p with build := build }
  | .pollProbe i => do
    let p ← st.partitions i
    match p.build with
    | .ended => return st.set i { p with probe := p.probe.poll st.channel }
    | _ => none

/-- **What a step can do.** -/
theorem step_cases {E : BuildSide S B (Fin n)} {st st' : State S T n} {a : Action n}
    (h : step E st a = some st') :
    (∃ i, a = .execute i ∧ st.partitions i = none ∧
      st' = st.set i ⟨.collecting (E.input i) [] [], .idle (T.subscribe st.channel)⟩) ∨
    (∃ i p, a = .pollBuild i ∧ st.partitions i = some p ∧
      st' = (st.send (p.build.step B E.keyColumn (E.seed i) (E.elapsed i)).2.1).set i
        ⟨(p.build.step B E.keyColumn (E.seed i) (E.elapsed i)).1, p.probe⟩) ∨
    (∃ i probe, a = .pollProbe i ∧ st.partitions i = some ⟨.ended, probe⟩ ∧
      st' = st.set i ⟨.ended, probe.poll st.channel⟩) := by
  cases a with
  | execute i =>
    simp only [step] at h
    split at h
    · cases h
    · rename_i hp
      exact .inl ⟨i, rfl, hp, (Option.some.inj h).symm⟩
  | pollBuild i =>
    obtain ⟨p, hp, h⟩ := Option.bind_eq_some_iff.1 h
    exact .inr (.inl ⟨i, p, rfl, hp, (Option.some.inj h).symm⟩)
  | pollProbe i =>
    obtain ⟨⟨build, probe⟩, hp, h⟩ := Option.bind_eq_some_iff.1 h
    cases build with
    | ended => exact .inr (.inr ⟨i, probe, rfl, hp, (Option.some.inj h).symm⟩)
    | collecting => cases h
    | yielding => cases h
    | failed => cases h

/-- Every interleaving of the steps. -/
abbrev Reachable (E : BuildSide S B (Fin n)) : State S T n → Prop :=
  Reaches (step E) (fun _ _ => True) (init S T n)

/-! ## The invariant -/

/-- The payload holds the keys of the whole input of one build stream, which ended without an
error. -/
def Complete {ι : Type} (E : BuildSide S B ι) (i : ι) (payload : BloomPayload B) : Prop :=
  ∃ batches : List (RecordBatch S), E.input i = batches.map .ok ∧
    payload = .ofValues B (E.seed i) (E.elapsed i) (batches.flatMap (batchKeys E.keyColumn))

/-- The complete payload of partition `i` is on the channel, and the receiver has not seen it. -/
def Unread (E : BuildSide S B (Fin n)) (i : Fin n) (log : List (BloomPayload B))
    (r : T.Receiver) : Prop :=
  ∃ m payload, T.next r ≤ m ∧ log[m]? = some payload ∧ Complete E i payload

/-- What holds of an executed partition in every reachable state. -/
inductive PartitionOk (E : BuildSide S B (Fin n)) (i : Fin n) (log : List (BloomPayload B)) :
    Partition S T → Prop
  | collecting {done : List (RecordBatch S)} {rest : List (Item S)} {bs : List (RecordBatch S)}
      {r : T.Receiver} : E.input i = done.map .ok ++ rest → T.next r ≤ log.length →
      PartitionOk E i log ⟨.collecting rest (done.flatMap (batchKeys E.keyColumn)) bs, .idle r⟩
  | failed {e : DataFusionError} {r : T.Receiver} : PartitionOk E i log ⟨.failed e, .idle r⟩
  | yielding {bs : List (RecordBatch S)} {r : T.Receiver} :
      Unread E i log r → PartitionOk E i log ⟨.yielding bs, .idle r⟩
  | idle {r : T.Receiver} : Unread E i log r → PartitionOk E i log ⟨.ended, .idle r⟩
  | filtering {payload : BloomPayload B} :
      Complete E i payload → PartitionOk E i log ⟨.ended, .filtering payload⟩
  | passThrough : PartitionOk E i log ⟨.ended, .passThrough⟩

structure Inv (E : BuildSide S B (Fin n)) (st : State S T n) : Prop where
  capacity : T.capacity st.channel = 1
  partitions : ∀ i p, st.partitions i = some p → PartitionOk E i (T.log st.channel) p

section
variable {E : BuildSide S B (Fin n)} {st st' : State S T n}

theorem Unread.append {i : Fin n} {log : List (BloomPayload B)} {r : T.Receiver}
    (h : Unread E i log r) (more : List (BloomPayload B)) : Unread E i (log ++ more) r := by
  obtain ⟨m, payload, hm, hget, hc⟩ := h
  have hlt : m < log.length := (List.getElem?_eq_some_iff.1 hget).1
  exact ⟨m, payload, hm, by rw [List.getElem?_append_left hlt, hget], hc⟩

/-- What other partitions send does not disturb a partition. -/
theorem PartitionOk.append {i : Fin n} {log : List (BloomPayload B)} {p : Partition S T}
    (h : PartitionOk E i log p) (more : List (BloomPayload B)) :
    PartitionOk E i (log ++ more) p := by
  cases h with
  | collecting hin hr =>
    refine .collecting hin ?_
    rw [List.length_append]
    omega
  | failed => exact .failed
  | yielding h => exact .yielding (h.append more)
  | idle h => exact .idle (h.append more)
  | filtering h => exact .filtering h
  | passThrough => exact .passThrough

/-- A poll of the build stream keeps its partition in order, counting what it sends. -/
theorem PartitionOk.pollBuild {i : Fin n} {log : List (BloomPayload B)} {p : Partition S T}
    (h : PartitionOk E i log p) :
    PartitionOk E i
      (log ++ (p.build.step B E.keyColumn (E.seed i) (E.elapsed i)).2.1.toList)
      ⟨(p.build.step B E.keyColumn (E.seed i) (E.elapsed i)).1, p.probe⟩ := by
  cases h with
  | @collecting done rest bs r hin hr =>
    cases rest with
    | nil =>
      -- The input has ended: the filter sent now holds all its keys, and the receiver, which
      -- subscribed earlier, has not seen it.
      refine .yielding ⟨log.length, _, hr, ?_, done, by simpa using hin, rfl⟩
      simp [BuildStream.step]
    | cons item rest =>
      cases item with
      | error e => exact .failed
      | ok b =>
        have hin' : E.input i = (done ++ [b]).map .ok ++ rest := by simpa using hin
        have hok : PartitionOk E i log ⟨.collecting rest
            ((done ++ [b]).flatMap (batchKeys E.keyColumn)) (bs ++ [b]), .idle r⟩ :=
          .collecting hin' hr
        simpa [BuildStream.step] using hok
  | failed => exact .failed
  | @yielding bs r h =>
    cases bs with
    | nil => exact .idle (h.append _)
    | cons b bs => exact .yielding (h.append _)
  | idle h => exact .idle (h.append _)
  | filtering h => exact .filtering h
  | passThrough => exact .passThrough

/-- A probe stream polled after its build stream leaves `recv` at once, with its own filter or
with none. -/
theorem PartitionOk.pollProbe {i : Fin n} {channel : T.Channel}
    (hcap : T.capacity channel = 1) {probe : ProbeStream T}
    (h : PartitionOk E i (T.log channel) ⟨.ended, probe⟩) :
    PartitionOk E i (T.log channel) ⟨.ended, probe.poll channel⟩ := by
  cases h with
  | @idle r h =>
    obtain ⟨m, payload, hm, hget, hc⟩ := h
    have hlt : m < (T.log channel).length := (List.getElem?_eq_some_iff.1 hget).1
    rw [ProbeStream.poll]
    cases hrecv : ProbeStream.receive channel r with
    | idle r' => exact absurd hrecv ProbeStream.receive_ne_idle
    | waiting r' =>
      have hun := (ProbeStream.receive_eq_waiting_iff.1 hrecv).1
      rw [Broadcast.unread] at hun
      omega
    | filtering payload' =>
      have hval := ProbeStream.receive_filtering hrecv
      rw [Broadcast.recv_value_unique hcap hm hget hval]
      exact .filtering hc
    | passThrough => exact .passThrough
  | filtering h => exact .filtering h
  | passThrough => exact .passThrough

theorem Inv.set {i : Fin n} {p : Partition S T} (h : Inv E st)
    (hp : PartitionOk E i (T.log st.channel) p) : Inv E (st.set i p) := by
  refine ⟨h.capacity, fun j q hq => ?_⟩
  by_cases hj : j = i
  · subst hj
    have hq' : some p = some q := by simpa [State.set] using hq
    cases hq'
    exact hp
  · have hq' : st.partitions j = some q := by simpa [State.set, hj] using hq
    exact h.partitions j q hq'

theorem inv_init : Inv E (init S T n) := ⟨T.capacity_new 1, fun _ _ h => by cases h⟩

/-- **One step.** -/
theorem inv_step {a : Action n} (h : Inv E st) (ha : step E st a = some st') : Inv E st' := by
  rcases step_cases ha with ⟨i, -, -, rfl⟩ | ⟨i, p, -, hp, rfl⟩ | ⟨i, probe, -, hp, rfl⟩
  · have hok : PartitionOk E i (T.log st.channel) ⟨.collecting (E.input i)
        (([] : List (RecordBatch S)).flatMap (batchKeys E.keyColumn)) [],
        .idle (T.subscribe st.channel)⟩ := .collecting rfl (T.next_subscribe _).le
    exact h.set hok
  · have hnew := (h.partitions i p hp).pollBuild
    generalize p.build.step B E.keyColumn (E.seed i) (E.elapsed i) = res at hnew ⊢
    obtain ⟨build, sent, item⟩ := res
    cases sent with
    | none =>
      rw [Option.toList_none, List.append_nil] at hnew
      exact Inv.set ⟨h.capacity, h.partitions⟩ hnew
    | some payload =>
      have hcap := (T.capacity_send st.channel payload).trans h.capacity
      rw [Option.toList_some, ← T.log_send] at hnew
      refine Inv.set ⟨hcap, fun j q hq => ?_⟩ hnew
      show PartitionOk E j (T.log (T.send st.channel payload)) q
      rw [T.log_send]
      exact (h.partitions j q hq).append _
  · exact h.set ((h.partitions i _ hp).pollProbe h.capacity)

/-- **No probe partition filters with another partition's filter.** In every reachable state, a
probe stream that filters does so with the complete filter of its own build partition, and no
probe stream is suspended in `recv`. -/
theorem probe_filters_own_partition (h : Reachable E st) {i : Fin n} {p : Partition S T}
    (hp : st.partitions i = some p) :
    (∀ payload, p.probe = .filtering payload → Complete E i payload) ∧
      ∀ r, p.probe ≠ .waiting r := by
  have hinv : Inv E st := h.invariant inv_init fun hi _ ha => inv_step hi ha
  have hok := hinv.partitions i p hp
  constructor
  · intro payload hpay
    cases hok with
    | filtering hc =>
      cases hpay
      exact hc
    | _ => cases hpay
  · intro r hr
    cases hok <;> cases hr

end

/-- Two build partitions, with the keys 1 and null and with the key 2. -/
def twoPartitions : BuildSide scanSig exactBloom (Fin 2) where
  keyColumn := 0
  input i := if i = 0 then [.ok [[.int64 1], [.null]]] else [.ok [[.int64 2]]]
  seed _ := ()
  elapsed _ := 0

/-- The first probe stream receives its filter before the second build stream sends; the second
one then lags behind by one message. -/
theorem twoPartitions_run :
    ∃ st : State scanSig (.ofLog _) 2, Reachable twoPartitions st ∧
      st.partitions 0 = some ⟨.ended, .filtering (.ofValues exactBloom () 0 ["1"])⟩ ∧
      st.partitions 1 = some ⟨.ended, .passThrough⟩ := by
  have hrun : run (step twoPartitions) (fun _ _ => True) (init scanSig (.ofLog _) 2)
      [.execute 0, .execute 1, .pollBuild 0, .pollBuild 0, .pollBuild 0, .pollBuild 0,
        .pollProbe 0, .pollBuild 1, .pollBuild 1, .pollBuild 1, .pollBuild 1, .pollProbe 1] =
      some _ := rfl
  exact ⟨_, reaches_of_run hrun, rfl, rfl⟩

theorem twoPartitions_filters_own :
    Complete twoPartitions 0 (.ofValues exactBloom () 0 ["1"]) := by
  obtain ⟨st, hst, hzero, -⟩ := twoPartitions_run
  exact (probe_filters_own_partition hst hzero).1 _ rfl

end PartitionedJoin

end PredicateTransfer
