import PredicateTransfer.Lib.CountingGate
import PredicateTransfer.Lib.Queue
import PredicateTransfer.Lib.Runs

/-!
# The channels of a repartition

`n` channels without a bound share one gate: a sender has to wait while no open channel is empty.
Every operation holds the lock of its channel from its first access to its last. What it shares
with the operations of the other channels is the atomic counter of the empty channels and, behind
a lock of its own, the list of the waiting senders. So one step below is one operation up to its
next access to the counter or to that list. A lock is taken in the step of the first access under
it; the list is locked over two steps only where the code reads the counter under its lock.

The reference count of the senders is outside the lock: the last sender is gone (`closing`) some
time before its `drop` has the lock of the channel.
-/

namespace PredicateTransfer.DistributorChannels

open AsyncQueue CountingGate Runs

/-! ## Channels and gate -/

/-- Who called `decr_empty_channels`. -/
inductive Caller where
  | send
  | dropSender
  | dropReceiver
  deriving DecidableEq, Repr

/-- The operation that holds the lock of a channel, by its next access. -/
inductive Op (α W : Type) where
  /-- `SendFuture::poll` before it reads `empty_channels`. -/
  | sendLoad (x : α) (w : W)
  /-- It read zero, and goes on to lock `send_wakers`. -/
  | sendGate (x : α) (w : W)
  /-- It may send. -/
  | sendPush (x : α)
  /-- `decr_empty_channels` before its `fetch_sub`. -/
  | decrSub (caller : Caller)
  /-- It took the counter to zero, and reads it again with `send_wakers` locked. -/
  | decrLoad (caller : Caller)
  /-- It read zero under the lock. -/
  | decrSet (caller : Caller)
  /-- The last part of the caller: it takes the wakers it has to wake. -/
  | leave (caller : Caller)
  /-- `RecvFuture::poll` has taken the last element, before its `fetch_add`. -/
  | recvAdd
  /-- It took the counter up from zero, and reads it again with `send_wakers` locked. -/
  | recvLoad
  /-- It read a positive counter under the lock. -/
  | recvTake
  deriving DecidableEq, Repr

structure Channel (α W : Type) where
  nSenders : Nat
  /-- The buffer, none once the receiver is gone. -/
  data : Option (List α)
  /-- The waiting receivers, none once the senders are gone. -/
  recvWakers : Option (List W)
  /-- Who holds the lock. -/
  op : Option (Op α W)
  /-- The receiver has not been dropped. -/
  receiver : Bool
  /-- The last sender has counted itself out and waits for the lock. -/
  closing : Bool
  -- History: what was sent and received, and whether the receiver went, with nothing in the
  -- buffer, while the last sender waited for the lock.
  accepted : List α
  delivered : List α
  leaked : Bool
  deriving DecidableEq, Repr

structure Gate (W : Type) (n : Nat) where
  /-- How many channels are empty and open. -/
  emptyChannels : Nat
  /-- The waiting senders with their channels, none while the gate is open. -/
  sendWakers : Option (List (W × Fin n))
  /-- The tasks that have been woken. -/
  woken : List W
  /-- An `expect` has failed. -/
  panicked : Bool
  deriving DecidableEq, Repr

structure State (α W : Type) (n : Nat) where
  channels : Fin n → Channel α W
  gate : Gate W n

variable {α W : Type} {n : Nat}

def Channel.newWithOneSender : Channel α W where
  nSenders := 1
  data := some []
  recvWakers := some []
  op := none
  receiver := true
  closing := false
  accepted := []
  delivered := []
  leaked := false

/-- `channels(n)`. -/
def channels (α W : Type) (n : Nat) : State α W n where
  channels := fun _ => .newWithOneSender
  gate := ⟨n, none, [], false⟩

/-- `data.is_empty()`, false if the receiver is gone. -/
def Channel.isEmpty (c : Channel α W) : Bool := (c.data.map List.isEmpty).getD false

/-! ## The operations -/

/-- `RecvFuture::poll` up to its first access to the gate, none if its `expect` fails. -/
def Channel.pollRecv (c : Channel α W) (w : W) : Option (Channel α W × Poll (Option α)) :=
  c.data.map fun
    | x :: data =>
      ({ c with
        data := some data
        delivered := c.delivered ++ [x]
        op := if data.isEmpty && c.recvWakers.isSome then some .recvAdd else none },
        .ready (some x))
    | [] =>
      match c.recvWakers with
      | some recvWakers => ({ c with recvWakers := some (recvWakers ++ [w]) }, .pending)
      | none => (c, .ready none)

/-- `DistributionSender::drop` of the last sender, once it has the lock. -/
def Channel.close (c : Channel α W) : Channel α W :=
  { c with
    closing := false
    op := some (if c.isEmpty then .decrSub .dropSender else .leave .dropSender) }

/-- `DistributionReceiver::drop`, with what it takes out of the channel. -/
def Channel.hangUp (c : Channel α W) (data : List α) : Channel α W :=
  { c with
    data := none
    receiver := false
    op := some (if data.isEmpty && c.nSenders ≠ 0 then .decrSub .dropReceiver
      else .leave .dropReceiver)
    leaked := data.isEmpty && c.closing }

/-- The operation that has the lock goes on. `free` says that `send_wakers` is not locked. -/
def Channel.resume (free : Bool) (i : Fin n) (c : Channel α W) (g : Gate W n) :
    Op α W → Option (Channel α W × Gate W n)
  | .sendLoad x w =>
    some ({ c with op := some (if g.emptyChannels = 0 then .sendGate x w else .sendPush x) }, g)
  | .sendGate x w =>
    if free then
      match g.sendWakers with
      | some sendWakers =>
        some ({ c with op := none }, { g with sendWakers := some (sendWakers ++ [(w, i)]) })
      | none => some ({ c with op := some (.sendPush x) }, g)
    else none
  | .sendPush x =>
    some ({ c with
      data := c.data.map (· ++ [x])
      accepted := c.accepted ++ [x]
      op := if c.isEmpty then some (.decrSub .send) else none }, g)
  | .decrSub caller =>
    some ({ c with op := some (if g.emptyChannels = 1 then .decrLoad caller else .leave caller) },
      { g with emptyChannels := g.emptyChannels - 1 })
  | .decrLoad caller =>
    if free then
      some ({ c with op := some (if g.emptyChannels = 0 then .decrSet caller else .leave caller) },
        g)
    else none
  | .decrSet caller =>
    some ({ c with op := some (.leave caller) },
      { g with sendWakers := some (g.sendWakers.getD []) })
  | .leave .send =>
    match c.recvWakers with
    | some recvWakers =>
      some ({ c with recvWakers := some [], op := none }, { g with woken := g.woken ++ recvWakers })
    | none => some (c, { g with panicked := true })
  | .leave .dropSender =>
    match c.recvWakers with
    | some recvWakers =>
      some ({ c with recvWakers := none, op := none }, { g with woken := g.woken ++ recvWakers })
    | none => some (c, { g with panicked := true })
  | .leave .dropReceiver =>
    -- `wake_channel_senders`
    if free then
      some ({ c with op := none }, { g with
        sendWakers := g.sendWakers.map (List.filter (·.2 ≠ i))
        woken := g.woken ++ ((g.sendWakers.getD []).filter (·.2 = i)).map (·.1) })
    else none
  | .recvAdd =>
    some ({ c with op := if g.emptyChannels = 0 then some .recvLoad else none },
      { g with emptyChannels := g.emptyChannels + 1 })
  | .recvLoad =>
    if free then some ({ c with op := if g.emptyChannels = 0 then none else some .recvTake }, g)
    else none
  | .recvTake =>
    some ({ c with op := none }, { g with
      sendWakers := none
      woken := g.woken ++ (g.sendWakers.getD []).map (·.1) })

/-- What a task does at a channel: it begins an operation, or goes on with the one that has the
lock. A send borrows its sender, so that the last sender is not dropped in the middle of one; the
steps below do not rule this out. -/
inductive Call (α W : Type) where
  | clone
  | dropSender
  | close
  | send (x : α) (w : W)
  | recv (w : W)
  | dropReceiver
  | resume
  deriving DecidableEq, Repr

def Channel.call (free : Bool) (i : Fin n) (c : Channel α W) (g : Gate W n) :
    Call α W → Option (Channel α W × Gate W n)
  | .clone => if c.nSenders = 0 then none else some ({ c with nSenders := c.nSenders + 1 }, g)
  | .dropSender =>
    match c.nSenders with
    | 0 => none
    | 1 => some ({ c with nSenders := 0, closing := true }, g)
    | k + 2 => some ({ c with nSenders := k + 1 }, g)
  | .close =>
    if c.closing && c.op.isNone then some (c.close, g) else none
  | .send x w =>
    if c.nSenders ≠ 0 && c.op.isNone then
      match c.data with
      | some _ => some ({ c with op := some (.sendLoad x w) }, g)
      | none => some (c, g) -- `SendError`
    else none
  | .recv w =>
    if c.receiver && c.op.isNone then
      match c.pollRecv w with
      | some (c', _) => some (c', g)
      | none => some (c, { g with panicked := true })
    else none
  | .dropReceiver =>
    if c.receiver && c.op.isNone then
      match c.data with
      | some data => some (c.hangUp data, g)
      | none => some (c, { g with panicked := true })
    else none
  | .resume => c.op.bind (c.resume free i g)

/-- Where the operation of a channel is on its way to the gate. -/
def Channel.phase (c : Channel α W) : Phase :=
  match c.op with
  | some (.decrLoad _) => .toClose
  | some (.decrSet _) => .closes
  | some .recvLoad => .toOpen
  | some .recvTake => .opens
  | _ => .idle

def State.phases (s : State α W n) (i : Fin n) : Phase := (s.channels i).phase

/-- `send_wakers` is not locked. -/
def State.gateFree (s : State α W n) : Bool := decide (∀ i, (s.phases i).holds = false)

def step (s : State α W n) (a : Fin n × Call α W) : Option (State α W n) :=
  ((s.channels a.1).call s.gateFree a.1 s.gate a.2).map fun (c, g) =>
    ⟨Function.update s.channels a.1 c, g⟩

end PredicateTransfer.DistributorChannels
