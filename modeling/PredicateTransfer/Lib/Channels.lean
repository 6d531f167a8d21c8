import Mathlib.Data.List.Basic
import Mathlib.Tactic

/-!
# Channels with many receivers

A *broadcast* channel keeps the messages sent on it, in order, and each receiver the number of
messages it has seen or missed. A receiver starts at the end of the channel, so it never sees what
was sent before it subscribed. `recv` hands out the oldest unread message, unless more than
`capacity` of them are unread: then some have been overwritten and it reports the lag instead.

A *watch* channel keeps one value, which a send replaces if there is a receiver.

Both are given by their laws. What a channel and a receiver stand for (`log` and `next`) is part of
the laws only: nothing is computed from it.

With one slot, a message that `recv` returns is the only one sent since the receiver was last at
the end (`recv_value_unique`); a receiver waits only if there is no such message at all
(`recv_eq_pending_iff`).
-/

/-! ## Broadcast channels -/

/-- What a poll of `recv` returns. -/
inductive RecvResult (α : Type) where
  | pending
  | value (v : α)
  | lagged (missed : Nat)
  deriving DecidableEq, Repr

structure Broadcast (α : Type) where
  Channel : Type
  Receiver : Type
  new : Nat → Channel
  send : Channel → α → Channel
  subscribe : Channel → Receiver
  /-- A poll of `recv`, with the receiver it leaves. -/
  recv : Channel → Receiver → RecvResult α × Receiver
  capacity : Channel → Nat
  log : Channel → List α
  next : Receiver → Nat
  capacity_new : ∀ k, capacity (new k) = k
  log_new : ∀ k, log (new k) = []
  capacity_send : ∀ c v, capacity (send c v) = capacity c
  log_send : ∀ c v, log (send c v) = log c ++ [v]
  next_subscribe : ∀ c, next (subscribe c) = (log c).length
  recv_pending : ∀ c r, (log c).length ≤ next r → recv c r = (.pending, r)
  recv_value : ∀ c r v, (log c)[next r]? = some v → (log c).length - next r ≤ capacity c →
    (recv c r).1 = .value v ∧ next (recv c r).2 = next r + 1
  recv_lagged : ∀ c r, capacity c < (log c).length - next r →
    (recv c r).1 = .lagged ((log c).length - next r - capacity c) ∧
      next (recv c r).2 = (log c).length - capacity c

namespace Broadcast

variable {α : Type} {T : Broadcast α} {c : T.Channel} {r r' : T.Receiver}

attribute [simp] capacity_new log_new capacity_send log_send next_subscribe

def unread (T : Broadcast α) (c : T.Channel) (r : T.Receiver) : Nat :=
  (T.log c).length - T.next r

/-- A receiver waits exactly when it has read everything, and waiting does not move it. -/
theorem recv_eq_pending_iff : T.recv c r = (.pending, r') ↔ T.unread c r = 0 ∧ r' = r := by
  constructor
  · intro h
    have hread : T.unread c r = 0 := by
      by_contra hne
      rw [unread] at hne
      have hlt : T.next r < (T.log c).length := by omega
      by_cases hlag : T.capacity c < (T.log c).length - T.next r
      · have hval := (T.recv_lagged c r hlag).1
        rw [h] at hval
        cases hval
      · have hval := (T.recv_value c r _ (List.getElem?_eq_getElem hlt) (Nat.not_lt.1 hlag)).1
        rw [h] at hval
        cases hval
    rw [T.recv_pending c r (Nat.sub_eq_zero_iff_le.1 hread)] at h
    cases h
    exact ⟨hread, rfl⟩
  · rintro ⟨hread, rfl⟩
    exact T.recv_pending c r' (Nat.sub_eq_zero_iff_le.1 hread)

/-- A returned message is the oldest unread one, and none were overwritten. -/
theorem recv_eq_value {v : α} (h : (T.recv c r).1 = .value v) :
    (T.log c)[T.next r]? = some v ∧ T.unread c r ≤ T.capacity c := by
  cases hget : (T.log c)[T.next r]? with
  | none =>
    rw [T.recv_pending c r (List.getElem?_eq_none_iff.1 hget)] at h
    cases h
  | some w =>
    by_cases hlag : T.capacity c < (T.log c).length - T.next r
    · rw [(T.recv_lagged c r hlag).1] at h
      cases h
    · rw [(T.recv_value c r w hget (Nat.not_lt.1 hlag)).1] at h
      cases h
      exact ⟨rfl, Nat.not_lt.1 hlag⟩

/-- With one slot, a returned message is the only one sent since the receiver's position. -/
theorem recv_value_unique (hcap : T.capacity c = 1) {v w : α} {m : Nat} (hm : T.next r ≤ m)
    (hw : (T.log c)[m]? = some w) (h : (T.recv c r).1 = .value v) : v = w := by
  obtain ⟨hv, hun⟩ := recv_eq_value h
  have hlt : m < (T.log c).length := (List.getElem?_eq_some_iff.1 hw).1
  have heq : m = T.next r := by
    rw [unread, hcap] at hun
    omega
  rw [heq, hv] at hw
  exact Option.some.inj hw

/-! ### A channel that forgets nothing -/

/-- The capacity and all messages. -/
structure Log (α : Type) where
  capacity : Nat
  messages : List α

/-- A poll of the receiver that has seen or missed `next` messages. -/
def Log.recv (c : Log α) (next : Nat) : RecvResult α × Nat :=
  match c.messages[next]? with
  | none => (.pending, next)
  | some v =>
    if c.capacity < c.messages.length - next then
      (.lagged (c.messages.length - next - c.capacity), c.messages.length - c.capacity)
    else (.value v, next + 1)

theorem Log.recv_pending (c : Log α) (next : Nat) (h : c.messages.length ≤ next) :
    c.recv next = (.pending, next) := by
  rw [Log.recv, List.getElem?_eq_none_iff.2 h]

theorem Log.recv_value (c : Log α) (next : Nat) (v : α) (hv : c.messages[next]? = some v)
    (h : c.messages.length - next ≤ c.capacity) :
    (c.recv next).1 = .value v ∧ (c.recv next).2 = next + 1 := by
  rw [Log.recv, hv]
  dsimp only
  rw [if_neg (Nat.not_lt.2 h)]
  exact ⟨rfl, rfl⟩

theorem Log.recv_lagged (c : Log α) (next : Nat) (h : c.capacity < c.messages.length - next) :
    (c.recv next).1 = .lagged (c.messages.length - next - c.capacity) ∧
      (c.recv next).2 = c.messages.length - c.capacity := by
  have hlt : next < c.messages.length := by omega
  rw [Log.recv, List.getElem?_eq_getElem hlt]
  dsimp only
  rw [if_pos h]
  exact ⟨rfl, rfl⟩

/-- A channel that keeps all messages has the laws. -/
def ofLog (α : Type) : Broadcast α where
  Channel := Log α
  Receiver := Nat
  new k := ⟨k, []⟩
  send c v := ⟨c.capacity, c.messages ++ [v]⟩
  subscribe c := c.messages.length
  recv := Log.recv
  capacity := Log.capacity
  log := Log.messages
  next := id
  capacity_new _ := rfl
  log_new _ := rfl
  capacity_send _ _ := rfl
  log_send _ _ := rfl
  next_subscribe _ := rfl
  recv_pending := Log.recv_pending
  recv_value := Log.recv_value
  recv_lagged := Log.recv_lagged

end Broadcast

/-! ## Watch channels -/

structure Watch (α : Type) where
  Channel : Type
  new : α → Channel
  /-- Send a value to as many receivers as there are. -/
  send : Channel → Nat → α → Channel
  /-- The value that a receiver sees. -/
  borrow : Channel → α
  borrow_new : ∀ v, borrow (new v) = v
  borrow_send : ∀ c n v, 0 < n → borrow (send c n v) = v
  /-- Without receivers the value is not stored. -/
  borrow_send_zero : ∀ c v, borrow (send c 0 v) = borrow c

namespace Watch

variable {α : Type} {T : Watch α} {c : T.Channel}

/-- A value that is sent is kept or lost. -/
theorem borrow_send_induct {P : α → Prop} {n : Nat} {v : α} (hkept : P v)
    (hlost : P (T.borrow c)) : P (T.borrow (T.send c n v)) := by
  cases n with
  | zero =>
    rw [T.borrow_send_zero]
    exact hlost
  | succ n =>
    rw [T.borrow_send _ _ _ n.succ_pos]
    exact hkept

/-- A cell for the value has the laws. -/
def ofCell (α : Type) : Watch α where
  Channel := α
  new v := v
  send c n v := if n = 0 then c else v
  borrow c := c
  borrow_new _ := rfl
  borrow_send _ _ _ h := if_neg h.ne'
  borrow_send_zero _ _ := rfl

end Watch
