import PredicateTransfer.Lib.Runs
import PredicateTransfer.Repartition.BatchPartitioner

/-!
# The repartition operator

One task per input pulls batches, cuts them by partition and sends the parts to the outputs, each
in memory or, if the memory pool has no room, through the spill pool with a marker in its place. A
second task waits for it and tells every output that this input is done, or has failed. Each output
is a stream over its channel.

A channel with its spill pool is a *lane*. The inputs share one lane per output, or have one each if
the order is to be preserved. The channels and the pools are queues here: a step is one send, one
push to the pool or one turn of an output's loop. A task may send whenever a step lets it; when the
gate of the channels holds it back is `State.blocked`.

A push is one step because `pull_from_input` takes the lock of the output's reservation for
`try_grow` and holds it to the end of the `match`, over `push_batch`, and the tasks that share a
pool share that lock. The pool alone would let pushes overlap, and its reader could then wait for
ever (`overlap_blocks_reader`). That the channels and the pool are such queues is shown in their own
modules, of states that are not part of this one.

Writing to disk and reading from it do not fail here: the error of `push_batch`, which ends the
task, and an error of the spill stream, which the output returns and then polls again, are left out.

`execute` removes the resources of an output from the shared state, and with them the senders that
are not a task's. So what is left of the senders of a lane are those of the tasks that have not told
it yet. The senders in `wait_for_task` go with the message that they carry.
-/

namespace PredicateTransfer.Repartition

open Runs

/-! ## State -/

variable {ρ ε : Type}

structure Config (ρ ε : Type) where
  partitioning : Partitioning ρ ε
  preserveOrder : Bool
  /-- `num_input_partitions`. -/
  inputs : Nat
  /-- `get_array_memory_size`. -/
  memorySize : List ρ → Nat
  /-- The order in which `wait_for_task` goes through the senders of an input. -/
  order : Nat → List Nat
  order_perm : ∀ i, (order i).Perm (List.range partitioning.partitionCount)

/-- The number of outputs. -/
def Config.outputs (cfg : Config ρ ε) : Nat := cfg.partitioning.partitionCount

/-- `MaybeBatch`. -/
inductive Msg (ρ ε : Type) where
  | memory (batch : List ρ)
  | spilled
  | error (e : ε)
  /-- An input is done. -/
  | done
  deriving DecidableEq

/-- What `wait_for_task` sends. -/
def Msg.ending : Option ε → Msg ρ ε
  | some e => .error e
  | none => .done

/-- `pull_from_input` between two sends. -/
structure Pull (ρ ε : Type) where
  stream : List (Except ε (List ρ))
  partitioner : BatchPartitioner ρ ε
  /-- The keys of `output_channels`. -/
  live : Finset Nat
  /-- What is left of the last batch. -/
  todo : List (Nat × List ρ)
  /-- History: the parts that are done with. -/
  handled : List (Nat × List ρ)

/-- The part `x` is taken from what is left. -/
def Pull.take (p : Pull ρ ε) (x : Nat × List ρ) (todo : List (Nat × List ρ)) : Pull ρ ε :=
  { p with todo := todo, handled := p.handled ++ [x] }

/-- The tasks of one input. -/
inductive Task (ρ ε : Type) where
  | pulling (p : Pull ρ ε)
  /-- `sender.send` of a batch that memory was granted for, or of a marker. -/
  | sending (p : Pull ρ ε) (partition : Nat) (msg : Msg ρ ε)
  /-- `wait_for_task`, with the outputs that it has not told yet. -/
  | notifying (error : Option ε) (left : List Nat) (handled : List (Nat × List ρ))

/-- The task has no sender for the output any more. -/
def Task.told (t : Task ρ ε) (output : Nat) : Bool :=
  match t with
  | .notifying _ left _ => !left.contains output
  | .pulling _ | .sending _ _ _ => false

/-- The task has a spill writer for the output. -/
def Task.writes (t : Task ρ ε) (output : Nat) : Bool :=
  match t with
  | .pulling p | .sending p _ _ => decide (output ∈ p.live)
  | .notifying _ _ _ => false

inductive StreamState where
  | readingMemory
  | readingSpilled
  deriving DecidableEq, Repr

/-- A channel, its spill pool, and the `PerPartitionStream` over them. -/
structure Lane (ρ ε : Type) where
  queue : List (Msg ρ ε)
  /-- The stream has not been dropped. -/
  receiver : Bool
  spill : List (List ρ)
  state : StreamState
  remainingPartitions : Nat
  /-- What the stream has returned, and whether it has ended. -/
  out : List (Except ε (List ρ))
  ended : Bool

structure State (cfg : Config ρ ε) where
  tasks : Fin cfg.inputs → Task ρ ε
  /-- The lanes, by input and output. If they share a lane, it is that of input zero. -/
  lanes : Nat × Nat → Lane ρ ε
  /-- The memory reserved for each output. -/
  reservation : Nat → Nat
  /-- A subtraction has gone below zero. -/
  panicked : Bool

variable {cfg : Config ρ ε}

/-- The lanes that an input sends to. -/
def Config.sender (cfg : Config ρ ε) (i : Fin cfg.inputs) : Nat :=
  if cfg.preserveOrder then i else 0

/-- There is such a lane. -/
def Config.hasLane (cfg : Config ρ ε) (k : Nat × Nat) : Bool :=
  decide ((∃ i, cfg.sender i = k.1) ∧ k.2 < cfg.outputs)

def Lane.new (cfg : Config ρ ε) (k : Nat × Nat) : Lane ρ ε where
  queue := []
  receiver := cfg.hasLane k
  spill := []
  state := .readingMemory
  remainingPartitions := if cfg.preserveOrder then 1 else cfg.inputs
  out := []
  ended := false

/-- `pull_from_input` has returned. -/
def Config.returned (cfg : Config ρ ε) (i : Fin cfg.inputs) (handled : List (Nat × List ρ))
    (error : Option ε) : Task ρ ε :=
  .notifying error (cfg.order i) handled

def Config.start (cfg : Config ρ ε) (i : Fin cfg.inputs) (stream : List (Except ε (List ρ))) :
    Task ρ ε :=
  match BatchPartitioner.tryNew (if cfg.preserveOrder then 0 else i) cfg.inputs
    cfg.partitioning with
  | .ok partitioner => .pulling ⟨stream, partitioner, Finset.range cfg.outputs, [], []⟩
  | .error e => cfg.returned i [] (some e)

/-- `consume_input_streams`. -/
def State.init (cfg : Config ρ ε) (streams : Fin cfg.inputs → List (Except ε (List ρ))) :
    State cfg where
  tasks i := cfg.start i (streams i)
  lanes := .new cfg
  reservation _ := 0
  panicked := false

/-! ## Steps -/

/-- The next turn of the loop of `pull_from_input`. -/
def Config.pull (cfg : Config ρ ε) (i : Fin cfg.inputs) (p : Pull ρ ε) : Task ρ ε :=
  if p.live = ∅ then cfg.returned i p.handled none
  else match p.stream with
    | [] => cfg.returned i p.handled none
    | .error e :: _ => cfg.returned i p.handled (some e)
    | .ok batch :: stream =>
      if batch.isEmpty then .pulling { p with stream := stream }
      else match p.partitioner.partitionIter batch with
        | .error e => cfg.returned i p.handled (some e)
        | .ok (partitions, partitioner) =>
          .pulling { p with stream := stream, partitioner := partitioner, todo := partitions }

namespace State

def setTask (s : State cfg) (i : Fin cfg.inputs) (t : Task ρ ε) : State cfg :=
  { s with tasks := Function.update s.tasks i t }

def setLane (s : State cfg) (k : Nat × Nat) (l : Lane ρ ε) : State cfg :=
  { s with lanes := Function.update s.lanes k l }

/-- `MemoryReservation::try_grow`. -/
def grow (s : State cfg) (output : Nat) (batch : List ρ) : State cfg :=
  { s with
    reservation := Function.update s.reservation output
      (s.reservation output + cfg.memorySize batch) }

/-- `MemoryReservation::shrink`. -/
def shrink (s : State cfg) (output : Nat) (batch : List ρ) : State cfg :=
  { s with
    reservation := Function.update s.reservation output
      (s.reservation output - cfg.memorySize batch)
    panicked := s.panicked || decide (s.reservation output < cfg.memorySize batch) }

/-- All senders of the lane are gone. -/
def closed (s : State cfg) (k : Nat × Nat) : Bool :=
  decide (∀ i, cfg.sender i = k.1 → (s.tasks i).told k.2 = true)

/-- All writers of the lane's spill pool are gone. -/
def writersGone (s : State cfg) (k : Nat × Nat) : Bool :=
  decide (∀ i, cfg.sender i = k.1 → (s.tasks i).writes k.2 = false)

/-- A task goes on. `granted` says whether there is memory for the next batch; without it the batch
is pushed to the spill pool, which does not fail here. -/
def task (s : State cfg) (i : Fin cfg.inputs) (granted : Bool) : Option (State cfg) :=
  match s.tasks i with
  | .pulling p =>
    match p.todo with
    | [] => some (s.setTask i (cfg.pull i p))
    | (o, batch) :: todo =>
      let p := p.take (o, batch) todo
      if o ∈ p.live then
        if granted then some ((s.grow o batch).setTask i (.sending p o (.memory batch)))
        else
          let l := s.lanes (cfg.sender i, o)
          some ((s.setLane (cfg.sender i, o) { l with spill := l.spill ++ [batch] }).setTask i
            (.sending p o .spilled))
      else some (s.setTask i (.pulling p))
  | .sending p o msg =>
    let l := s.lanes (cfg.sender i, o)
    if l.receiver then
      some ((s.setLane (cfg.sender i, o) { l with queue := l.queue ++ [msg] }).setTask i
        (.pulling p))
    else
      let p := { p with live := p.live.erase o }
      match msg with
      | .memory batch => some ((s.shrink o batch).setTask i (.pulling p))
      | _ => some (s.setTask i (.pulling p))
  | .notifying error (o :: left) handled =>
    let l := s.lanes (cfg.sender i, o)
    if l.receiver then
      let msg := Msg.ending error
      some ((s.setLane (cfg.sender i, o) { l with queue := l.queue ++ [msg] }).setTask i
        (.notifying error left handled))
    else some (s.setTask i (.notifying error left handled))
  | .notifying _ [] _ => none

/-- One turn of the loop of `PerPartitionStream::poll_next_inner`, none if it has to wait. The spill
stream returns no error here. -/
def recv (s : State cfg) (k : Nat × Nat) : Option (State cfg) :=
  let l := s.lanes k
  if l.receiver && !l.ended then
    match l.state, l.queue, l.spill with
    | .readingMemory, .memory batch :: queue, _ =>
      some ((s.shrink k.2 batch).setLane k { l with queue := queue, out := l.out ++ [.ok batch] })
    | .readingMemory, .spilled :: queue, _ =>
      some (s.setLane k { l with queue := queue, state := .readingSpilled })
    | .readingMemory, .error e :: queue, _ =>
      some (s.setLane k { l with queue := queue, out := l.out ++ [.error e] })
    | .readingMemory, .done :: queue, _ =>
      some { s.setLane k { l with
          queue := queue
          remainingPartitions := l.remainingPartitions - 1
          ended := l.remainingPartitions - 1 = 0 } with
        panicked := s.panicked || l.remainingPartitions = 0 }
    | .readingMemory, [], _ =>
      if s.closed k then some (s.setLane k { l with ended := true }) else none
    | .readingSpilled, _, batch :: spill =>
      some (s.setLane k { l with
        spill := spill
        state := .readingMemory
        out := l.out ++ [.ok batch] })
    | .readingSpilled, _, [] =>
      if s.writersGone k then some (s.setLane k { l with state := .readingMemory }) else none
  else none

/-- The stream of a lane is dropped. -/
def dropReceiver (s : State cfg) (k : Nat × Nat) : Option (State cfg) :=
  let l := s.lanes k
  if l.receiver then some (s.setLane k { l with receiver := false, queue := [] }) else none

/-- The gate of a group of channels is closed: no channel is empty that still has senders and its
receiver. -/
def gateClosed (s : State cfg) (a : Nat) : Bool :=
  decide (∀ o < cfg.outputs, (s.lanes (a, o)).receiver = true → s.closed (a, o) = false →
    (s.lanes (a, o)).queue ≠ [])

/-- A send has to wait. -/
def blocked (s : State cfg) (i : Fin cfg.inputs) : Bool :=
  match s.tasks i with
  | .sending _ o _ | .notifying _ (o :: _) _ =>
    (s.lanes (cfg.sender i, o)).receiver && s.gateClosed (cfg.sender i)
  | .pulling _ | .notifying _ [] _ => false

end State

/-- What the tasks and the streams do. -/
inductive Call (n : Nat) where
  | task (i : Fin n) (granted : Bool)
  | recv (k : Nat × Nat)
  | dropReceiver (k : Nat × Nat)
  deriving DecidableEq, Repr

def step (s : State cfg) : Call cfg.inputs → Option (State cfg)
  | .task i granted => s.task i granted
  | .recv k => s.recv k
  | .dropReceiver k => s.dropReceiver k

end PredicateTransfer.Repartition
