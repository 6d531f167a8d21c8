import PredicateTransfer.Repartition.DistributorChannels

/-!
# The steps of the channels

What an operation does between two accesses, said once for every operation (`Channel.Effect`): to
its channel, which stays a queue, to the counter of the empty channels, and to the gate. The counter
is the sum of what the channels have in it (`Channel.counted`). It is behind the buffers while an
operation is between the two, and the gate is behind the counter; how far is in the phases of the
operations, and `Lib.CountingGate` says that the gate catches up.

`Inv.step` puts the channels together, for any interleaving.
-/

namespace PredicateTransfer.DistributorChannels

open AsyncQueue CountingGate Runs

variable {α W : Type} {n : Nat}

/-! ## What a channel is for -/

/-- The queue that a channel implements. -/
def Channel.queue (c : Channel α W) : Queue α :=
  ⟨c.data.getD [], c.data.isSome, c.recvWakers.isSome⟩

/-- The senders that wait. -/
def Gate.waiting (g : Gate W n) : List (W × Fin n) := g.sendWakers.getD []

/-! ## What holds of one channel -/

namespace Channel

variable {c c' : Channel α W} {g g' : Gate W n} {free : Bool} {i : Fin n}

/-- Nothing is buffered, and both sides are there. -/
def openEmpty (c : Channel α W) : Bool := c.isEmpty && c.recvWakers.isSome

/-- What the channel has in the counter. The counter is behind the buffer while an operation is
between the two, and a leaked channel stays in it. -/
def counted (c : Channel α W) : Nat :=
  match c.op with
  | some (.decrSub _) | some .recvLoad | some .recvTake => 1
  | some .recvAdd => 0
  | some (.decrLoad _) | some (.decrSet _) | some (.leave _) => c.leaked.toNat
  | none | some (.sendLoad _ _) | some (.sendGate _ _) | some (.sendPush _) =>
    c.openEmpty.toNat + c.leaked.toNat

/-- What the caller of `decr_empty_channels` has done to its channel. -/
def CallerOk (c : Channel α W) : Caller → Prop
  | .send => (∃ x data, c.data = some (x :: data)) ∧ c.recvWakers.isSome = true
  | .dropSender => c.recvWakers.isSome = true ∧ c.nSenders = 0 ∧ c.closing = false
  | .dropReceiver => c.data = none

def OpOk (c : Channel α W) : Prop :=
  match c.op with
  | none => True
  | some (.sendLoad _ _) | some (.sendGate _ _) | some (.sendPush _) =>
    c.data.isSome = true ∧ c.recvWakers.isSome = true
  | some (.decrSub caller) | some (.decrLoad caller) | some (.decrSet caller) =>
    c.CallerOk caller ∧ c.leaked = false
  | some (.leave caller) => c.CallerOk caller
  | some .recvAdd | some .recvLoad | some .recvTake =>
    c.data = some [] ∧ c.recvWakers.isSome = true

/-- The caller that has the lock and is past its change of the buffer. -/
def caller (c : Channel α W) : Option Caller :=
  match c.op with
  | some (.decrSub caller) | some (.decrLoad caller) | some (.decrSet caller)
  | some (.leave caller) => some caller
  | _ => none

structure Ok (c : Channel α W) : Prop where
  op : c.OpOk
  leaked : c.leaked = true → c.data = none
  receiver : c.receiver = c.data.isSome
  closed : c.recvWakers = none → c.nSenders = 0 ∧ c.closing = false
  closing : c.closing = true → c.nSenders = 0
  gone : c.nSenders = 0 → c.closing = false →
    c.recvWakers = none ∨ c.caller = some .dropSender
  /-- A receiver waits only where there is nothing to receive, or is about to be woken. -/
  waiting : ∀ {w ws}, c.recvWakers = some (w :: ws) →
    c.data = none ∨ c.data = some [] ∨ c.caller = some .send
  /-- What was received and what is buffered is what was sent. -/
  fifo : ∀ {data}, c.data = some data → c.accepted = c.delivered ++ data
  kept : c.delivered <+: c.accepted

/-- A sender that waits at channel `i` has a receiver, or is about to be woken. -/
def Answers (i : Fin n) (c : Channel α W) (g : Gate W n) : Prop :=
  ∀ x ∈ g.waiting, x.2 = i → c.data.isSome = true ∨ c.caller = some .dropReceiver

/-- What an operation does to its channel and to the gate. -/
structure Effect (free : Prop) (i : Fin n) (c : Channel α W) (g : Gate W n) (c' : Channel α W)
    (g' : Gate W n) : Prop where
  ok : c'.Ok
  queue : c.queue.Step c'.queue
  counted : g.emptyChannels + c'.counted = g'.emptyChannels + c.counted
  move : Move free g.emptyChannels g.sendWakers.isSome c.phase
    g'.emptyChannels g'.sendWakers.isSome c'.phase
  answers : Answers i c g → Answers i c' g'
  others : ∀ x ∈ g'.waiting, x.2 ≠ i → x ∈ g.waiting
  ended : c.recvWakers = none → c'.recvWakers = none ∧ c'.accepted = c.accepted
  leaks : c.leaked = true → c'.leaked = true
  panicked : g'.panicked = g.panicked

theorem Ok.withOp (hc : c.Ok) {op : Option (Op α W)} (hop : OpOk { c with op := op })
    (hcaller : ∀ {k}, k ≠ .dropReceiver → c.caller = some k →
      caller { c with op := op } = some k) : Ok { c with op := op } where
  op := hop
  leaked := hc.leaked
  receiver := hc.receiver
  closed := hc.closed
  closing := hc.closing
  gone hs h := (hc.gone hs h).imp_right (hcaller (by simp))
  waiting h := (hc.waiting h).imp_right (Or.imp_right (hcaller (by simp)))
  fifo := hc.fifo
  kept := hc.kept

theorem Ok.leaked_eq_false (hc : c.Ok) (h : c.data.isSome = true) : c.leaked = false := by
  rw [← Bool.not_eq_true]
  intro hleaked
  rw [hc.leaked hleaked] at h
  cases h

/-! ### Sending -/

theorem sendLoad_effect {x : α} {w : W} (hc : c.Ok) (hop : c.op = some (.sendLoad x w))
    (h : c.resume free i g (.sendLoad x w) = some (c', g')) :
    Effect (free = true) i c g c' g' := by
  have hop' := hc.op
  rw [OpOk, hop] at hop'
  cases h
  refine ⟨hc.withOp ?_ ?_, .stay, ?_, ?_, ?_, fun _ hx _ => hx, fun h => ⟨h, rfl⟩, id, rfl⟩
  · split_ifs <;> exact hop'
  · simp [caller, hop]
  · split_ifs <;> simp [counted, openEmpty, isEmpty, hop]
  · split_ifs <;> simp only [phase, hop] <;> exact .stay
  · exact fun _ x _ _ => .inl hop'.1

theorem sendGate_effect {x : α} {w : W} (hc : c.Ok) (hop : c.op = some (.sendGate x w))
    (h : c.resume free i g (.sendGate x w) = some (c', g')) :
    Effect (free = true) i c g c' g' := by
  have hop' := hc.op
  rw [OpOk, hop] at hop'
  have hnot : ∀ op k, k ≠ .dropReceiver → c.caller = some k →
      caller { c with op := op } = some k := by
    simp [caller, hop]
  simp only [resume] at h
  split_ifs at h with hfree
  cases hw : g.sendWakers with
  | some ws =>
    -- The sender joins the others that wait.
    simp only [hw, Option.some.injEq, Prod.mk.injEq] at h
    obtain ⟨rfl, rfl⟩ := h
    refine ⟨hc.withOp trivial (hnot _ _), .stay, ?_, ?_, fun _ x _ _ => .inl hop'.1, ?_,
      fun h => ⟨h, rfl⟩, id, rfl⟩
    · simp [counted, openEmpty, isEmpty, hop]
    · simp only [phase, hop, hw, Option.isSome_some]
      exact .stay
    · intro x hx hne
      simp only [Gate.waiting, Option.getD_some, List.mem_append, List.mem_singleton, hw] at hx ⊢
      refine hx.resolve_right ?_
      rintro rfl
      exact hne rfl
  | none =>
    simp only [hw, Option.some.injEq, Prod.mk.injEq] at h
    obtain ⟨rfl, rfl⟩ := h
    refine ⟨hc.withOp hop' (hnot _ _), .stay, ?_, ?_, fun _ x _ _ => .inl hop'.1,
      fun _ hx _ => hx, fun h => ⟨h, rfl⟩, id, rfl⟩
    · simp [counted, openEmpty, isEmpty, hop]
    · simp only [phase, hop, hw, Option.isSome_none]
      exact .stay

theorem sendPush_effect {x : α} (hc : c.Ok) (hop : c.op = some (.sendPush x))
    (h : c.resume free i g (.sendPush x) = some (c', g')) :
    Effect (free = true) i c g c' g' := by
  obtain ⟨hdata, hw⟩ : c.data.isSome = true ∧ c.recvWakers.isSome = true := by
    simpa only [OpOk, hop] using hc.op
  have hleaked := hc.leaked_eq_false hdata
  obtain ⟨data, hdata⟩ := Option.isSome_iff_exists.1 hdata
  cases h
  have hpush : c.queue.Step ⟨data ++ [x], true, c.recvWakers.isSome⟩ := by
    have hq : c.queue = ⟨data, true, c.recvWakers.isSome⟩ := by simp [queue, hdata]
    rw [hq]
    exact .push x rfl hw
  refine ⟨⟨?_, ?_, ?_, hc.closed, hc.closing, ?_, ?_, ?_, ?_⟩, ?_, ?_, ?_, ?_,
    fun _ hx _ => hx, fun h => (by simp [h] at hw), id, rfl⟩
  · cases data <;> simp [OpOk, isEmpty, hdata, CallerOk, hw, hleaked]
  · simp [hleaked]
  · simpa [hdata] using hc.receiver
  · intro hs hclosing
    refine (hc.gone hs hclosing).imp_right fun hcaller => ?_
    simp [caller, hop] at hcaller
  · intro w ws hws
    refine .inr ?_
    rcases hc.waiting hws with hnone | hnil | hcaller
    · rw [hnone] at hdata
      cases hdata
    · right
      simp [caller, isEmpty, hnil]
    · simp [caller, hop] at hcaller
  · intro data' hdata'
    simp only [hdata, Option.map_some, Option.some.injEq] at hdata'
    simp only [← hdata', hc.fifo hdata, List.append_assoc]
  · exact hc.kept.trans (List.prefix_append _ _)
  · simpa [queue, hdata] using hpush
  · cases data <;> simp [counted, openEmpty, isEmpty, hdata, hw, hop, hleaked]
  · have hidle : phase { c with
        data := c.data.map (· ++ [x])
        accepted := c.accepted ++ [x]
        op := if c.isEmpty then some (.decrSub .send) else none } = .idle := by
      simp only [phase]
      split_ifs <;> rfl
    rw [hidle]
    simp only [phase, hop]
    exact .stay
  · exact fun _ _ _ _ => .inl (by simp [hdata])

/-! ### Counting -/

theorem decrSub_effect {k : Caller} (hc : c.Ok) (hop : c.op = some (.decrSub k))
    (hcount : c.counted ≤ g.emptyChannels)
    (h : c.resume free i g (.decrSub k) = some (c', g')) : Effect (free = true) i c g c' g' := by
  have hop' := hc.op
  rw [OpOk, hop] at hop'
  obtain ⟨m, hm⟩ : ∃ m, g.emptyChannels = m + 1 := by
    refine Nat.exists_eq_add_of_le' ?_
    simpa [counted, hop] using hcount
  cases h
  refine ⟨hc.withOp ?_ ?_, .stay, ?_, ?_, ?_, fun _ hx _ => hx, fun h => ⟨h, rfl⟩, id, rfl⟩
  · split_ifs
    · exact hop'
    · exact hop'.1
  · intro k' _ hcaller
    simp only [caller, hop] at hcaller
    split_ifs <;> exact hcaller
  · split_ifs <;> simp [counted, hop, hop'.2, hm]
  · simp only [phase, hop, hm, Nat.add_eq_right, Nat.add_sub_cancel]
    have htake : Move (free = true) (m + 1) g.sendWakers.isSome .idle m g.sendWakers.isSome
        (if m = 0 then .toClose else .idle) := .take
    by_cases hzero : m = 0
    · simpa only [if_pos hzero] using htake
    · simpa only [if_neg hzero] using htake
  · intro hans x hx hxi
    refine (hans x hx hxi).imp_right fun hcaller => ?_
    simp only [caller, hop] at hcaller ⊢
    split_ifs <;> exact hcaller

theorem decrLoad_effect {k : Caller} (hc : c.Ok) (hop : c.op = some (.decrLoad k))
    (h : c.resume free i g (.decrLoad k) = some (c', g')) : Effect (free = true) i c g c' g' := by
  have hop' := hc.op
  rw [OpOk, hop] at hop'
  simp only [resume] at h
  split_ifs at h with hfree hzero
  all_goals
    have hlook : Move (free = true) g.emptyChannels g.sendWakers.isSome .toClose g.emptyChannels
        g.sendWakers.isSome (if g.emptyChannels = 0 then .closes else .idle) := .lookClose hfree
  · cases h
    refine ⟨hc.withOp hop' ?_, .stay, ?_, ?_, ?_, fun _ hx _ => hx, fun h => ⟨h, rfl⟩, id, rfl⟩
    · simp [caller, hop]
    · simp [counted, hop]
    · simpa only [phase, hop, if_pos hzero] using hlook
    · simp [Answers, caller, hop]
  · cases h
    refine ⟨hc.withOp hop'.1 ?_, .stay, ?_, ?_, ?_, fun _ hx _ => hx, fun h => ⟨h, rfl⟩, id, rfl⟩
    · simp [caller, hop]
    · simp [counted, hop]
    · simpa only [phase, hop, if_neg hzero] using hlook
    · simp [Answers, caller, hop]

theorem decrSet_effect {k : Caller} (hc : c.Ok) (hop : c.op = some (.decrSet k))
    (h : c.resume free i g (.decrSet k) = some (c', g')) : Effect (free = true) i c g c' g' := by
  have hop' := hc.op
  rw [OpOk, hop] at hop'
  cases h
  refine ⟨hc.withOp hop'.1 ?_, .stay, ?_, ?_, ?_, fun _ hx _ => ?_, fun h => ⟨h, rfl⟩, id, rfl⟩
  · simp [caller, hop]
  · simp [counted, hop]
  · simp only [phase, hop, Option.isSome_some]
    exact .close
  · simp [Answers, caller, hop, Gate.waiting]
  · simpa [Gate.waiting] using hx

/-! ### The last part of the callers -/

theorem leave_send_effect (hc : c.Ok) (hop : c.op = some (.leave .send))
    (h : c.resume free i g (.leave .send) = some (c', g')) : Effect (free = true) i c g c' g' := by
  obtain ⟨⟨x, data, hdata⟩, hw⟩ :
      (∃ x data, c.data = some (x :: data)) ∧ c.recvWakers.isSome = true := by
    simpa only [OpOk, hop, CallerOk] using hc.op
  obtain ⟨ws, hw⟩ := Option.isSome_iff_exists.1 hw
  simp only [resume, hw, Option.some.injEq, Prod.mk.injEq] at h
  obtain ⟨rfl, rfl⟩ := h
  refine ⟨⟨trivial, hc.leaked, hc.receiver, fun hnone => (by cases hnone), hc.closing, ?_,
    fun hws => (by cases hws), hc.fifo, hc.kept⟩, ?_, ?_, ?_, ?_, fun _ hx _ => hx,
    fun h => (by simp [hw] at h), id, rfl⟩
  · intro hs hclosing
    rcases hc.gone hs hclosing with hnone | hcaller
    · rw [hw] at hnone
      cases hnone
    · simp [caller, hop] at hcaller
  · simpa [queue, hw] using Queue.Step.stay
  · simp [counted, hop, openEmpty, isEmpty, hdata]
  · simp only [phase, hop]
    exact .stay
  · exact fun _ _ _ _ => .inl (by simp [hdata])

theorem leave_dropSender_effect (hc : c.Ok) (hop : c.op = some (.leave .dropSender))
    (h : c.resume free i g (.leave .dropSender) = some (c', g')) :
    Effect (free = true) i c g c' g' := by
  obtain ⟨hw, hsenders, hclosing⟩ :
      c.recvWakers.isSome = true ∧ c.nSenders = 0 ∧ c.closing = false := by
    simpa only [OpOk, hop, CallerOk] using hc.op
  obtain ⟨ws, hw⟩ := Option.isSome_iff_exists.1 hw
  simp only [resume, hw, Option.some.injEq, Prod.mk.injEq] at h
  obtain ⟨rfl, rfl⟩ := h
  refine ⟨⟨trivial, hc.leaked, hc.receiver, fun _ => ⟨hsenders, hclosing⟩, hc.closing,
    fun _ _ => .inl rfl, fun hws => (by cases hws), hc.fifo, hc.kept⟩, .dropSenders, ?_, ?_, ?_,
    fun _ hx _ => hx, fun _ => ⟨rfl, rfl⟩, id, rfl⟩
  · simp [counted, hop, openEmpty]
  · simp only [phase, hop]
    exact .stay
  · simp [Answers, caller, hop, Gate.waiting]

theorem leave_dropReceiver_effect (hc : c.Ok) (hop : c.op = some (.leave .dropReceiver))
    (h : c.resume free i g (.leave .dropReceiver) = some (c', g')) :
    Effect (free = true) i c g c' g' := by
  have hdata : c.data = none := by simpa only [OpOk, hop, CallerOk] using hc.op
  simp only [resume] at h
  split_ifs at h with hfree
  cases h
  refine ⟨hc.withOp trivial ?_, .stay, ?_, ?_, ?_, ?_, fun h => ⟨h, rfl⟩, id, rfl⟩
  · intro k hk hcaller
    simp only [caller, hop, Option.some.injEq] at hcaller
    exact absurd hcaller.symm hk
  · simp [counted, hop, openEmpty, isEmpty, hdata]
  · simp only [phase, hop, Option.isSome_map]
    exact .stay
  · -- Nobody is left that waits at this channel.
    intro _ x hx hxi
    cases hw : g.sendWakers with
    | none => simp [Gate.waiting, hw] at hx
    | some ws =>
      simp only [Gate.waiting, hw, Option.map_some, Option.getD_some, List.mem_filter] at hx
      simp [hxi] at hx
  · intro x hx _
    cases hw : g.sendWakers with
    | none => simp [Gate.waiting, hw] at hx
    | some ws =>
      simp only [Gate.waiting, hw, Option.map_some, Option.getD_some, List.mem_filter] at hx ⊢
      exact hx.1

/-! ### Receiving -/

theorem pollRecv_effect {w : W} {r : Poll (Option α)} (hc : c.Ok) (hop : c.op = none)
    (h : c.pollRecv w = some (c', r)) : Effect (free = true) i c g c' g := by
  obtain ⟨data, hdata, h⟩ := Option.map_eq_some_iff.1 h
  have hleaked := hc.leaked_eq_false (by simp [hdata])
  cases data with
  | nil =>
    cases hw : c.recvWakers with
    | none =>
      simp only [hw, Prod.mk.injEq] at h
      obtain ⟨rfl, -⟩ := h
      exact ⟨hc, .stay, rfl, .stay, id, fun _ hx _ => hx, fun h => ⟨h, rfl⟩, id, rfl⟩
    | some ws =>
      simp only [hw, Prod.mk.injEq] at h
      obtain ⟨rfl, -⟩ := h
      refine ⟨⟨?_, hc.leaked, hc.receiver, fun hnone => (by cases hnone), hc.closing, ?_,
        fun _ => .inr (.inl hdata), hc.fifo, hc.kept⟩, ?_, ?_, .stay, id, fun _ hx _ => hx,
        fun h => (by simp [hw] at h), id, rfl⟩
      · simp [OpOk, hop]
      · intro hs hclosing
        rcases hc.gone hs hclosing with hnone | hcaller
        · rw [hw] at hnone
          cases hnone
        · exact .inr hcaller
      · simpa [queue, hw] using Queue.Step.stay
      · simp [counted, hop, openEmpty, isEmpty, hdata, hw]
  | cons x data =>
    simp only [Prod.mk.injEq] at h
    obtain ⟨rfl, -⟩ := h
    have hpop : c.queue.Step ⟨data, true, c.recvWakers.isSome⟩ := by
      have hq : c.queue = ⟨x :: data, true, c.recvWakers.isSome⟩ := by simp [queue, hdata]
      rw [hq]
      exact .pop rfl
    have hfifo := hc.fifo hdata
    refine ⟨⟨?_, ?_, ?_, hc.closed, hc.closing, ?_, ?_, ?_, ?_⟩, ?_, ?_, ?_, ?_,
      fun _ hx _ => hx, fun h => ⟨h, rfl⟩, id, rfl⟩
    · cases data <;> cases c.recvWakers <;> simp [OpOk]
    · simp [hleaked]
    · simpa [hdata] using hc.receiver
    · intro hs hclosing
      refine (hc.gone hs hclosing).imp_right fun hcaller => ?_
      simp [caller, hop] at hcaller
    · intro w ws hws
      rcases hc.waiting hws with hnone | hnil | hcaller
      · rw [hnone] at hdata
        cases hdata
      · rw [hnil] at hdata
        cases hdata
      · simp [caller, hop] at hcaller
    · intro data' hdata'
      cases hdata'
      simp [hfifo]
    · exact ⟨data, by simp [hfifo]⟩
    · simpa [queue] using hpop
    · cases data <;> cases hw : c.recvWakers <;>
        simp [counted, hop, openEmpty, isEmpty, hdata, hw, hleaked]
    · have hidle : phase { c with
          data := some data
          delivered := c.delivered ++ [x]
          op := if data.isEmpty && c.recvWakers.isSome then some .recvAdd else none } = .idle := by
        simp only [phase]
        split_ifs <;> rfl
      rw [hidle]
      simp only [phase, hop]
      exact .stay
    · exact fun _ _ _ _ => .inl rfl

theorem recvAdd_effect (hc : c.Ok) (hop : c.op = some .recvAdd)
    (h : c.resume free i g .recvAdd = some (c', g')) : Effect (free = true) i c g c' g' := by
  obtain ⟨hdata, hw⟩ : c.data = some [] ∧ c.recvWakers.isSome = true := by
    simpa only [OpOk, hop] using hc.op
  have hleaked := hc.leaked_eq_false (by simp [hdata])
  cases h
  refine ⟨hc.withOp ?_ ?_, .stay, ?_, ?_, ?_, fun _ hx _ => hx, fun h => ⟨h, rfl⟩, id, rfl⟩
  · split_ifs
    · exact ⟨hdata, hw⟩
    · trivial
  · simp [caller, hop]
  · split_ifs <;> simp [counted, hop, openEmpty, isEmpty, hdata, hw, hleaked]
  · have hput : Move (free = true) g.emptyChannels g.sendWakers.isSome .idle (g.emptyChannels + 1)
        g.sendWakers.isSome (if g.emptyChannels = 0 then .toOpen else .idle) := .put
    by_cases hzero : g.emptyChannels = 0
    · simpa only [phase, hop, if_pos hzero] using hput
    · simpa only [phase, hop, if_neg hzero] using hput
  · exact fun _ _ _ _ => .inl (by simp [hdata])

theorem recvLoad_effect (hc : c.Ok) (hop : c.op = some .recvLoad)
    (h : c.resume free i g .recvLoad = some (c', g')) : Effect (free = true) i c g c' g' := by
  obtain ⟨hdata, hw⟩ : c.data = some [] ∧ c.recvWakers.isSome = true := by
    simpa only [OpOk, hop] using hc.op
  have hleaked := hc.leaked_eq_false (by simp [hdata])
  simp only [resume] at h
  split_ifs at h with hfree hzero
  all_goals
    have hlook : Move (free = true) g.emptyChannels g.sendWakers.isSome .toOpen g.emptyChannels
        g.sendWakers.isSome (if g.emptyChannels = 0 then .idle else .opens) := .lookOpen hfree
  · cases h
    refine ⟨hc.withOp trivial ?_, .stay, ?_, ?_, ?_, fun _ hx _ => hx, fun h => ⟨h, rfl⟩, id, rfl⟩
    · simp [caller, hop]
    · simp [counted, hop, openEmpty, isEmpty, hdata, hw, hleaked]
    · simpa only [phase, hop, if_pos hzero] using hlook
    · exact fun _ _ _ _ => .inl (by simp [hdata])
  · cases h
    refine ⟨hc.withOp ⟨hdata, hw⟩ ?_, .stay, ?_, ?_, ?_, fun _ hx _ => hx, fun h => ⟨h, rfl⟩, id,
      rfl⟩
    · simp [caller, hop]
    · simp [counted, hop]
    · simpa only [phase, hop, if_neg hzero] using hlook
    · exact fun _ _ _ _ => .inl (by simp [hdata])

theorem recvTake_effect (hc : c.Ok) (hop : c.op = some .recvTake)
    (h : c.resume free i g .recvTake = some (c', g')) : Effect (free = true) i c g c' g' := by
  obtain ⟨hdata, hw⟩ : c.data = some [] ∧ c.recvWakers.isSome = true := by
    simpa only [OpOk, hop] using hc.op
  have hleaked := hc.leaked_eq_false (by simp [hdata])
  cases h
  refine ⟨hc.withOp trivial ?_, .stay, ?_, ?_, ?_, ?_, fun h => ⟨h, rfl⟩, id, rfl⟩
  · simp [caller, hop]
  · simp [counted, hop, openEmpty, isEmpty, hdata, hw, hleaked]
  · simp only [phase, hop, Option.isSome_none]
    exact .reopen
  · exact fun _ _ _ _ => .inl (by simp [hdata])
  · simp [Gate.waiting]

/-! ### All operations -/

theorem resume_effect {op : Op α W} (hc : c.Ok) (hop : c.op = some op)
    (hcount : c.counted ≤ g.emptyChannels) (h : c.resume free i g op = some (c', g')) :
    Effect (free = true) i c g c' g' := by
  cases op with
  | sendLoad x w => exact sendLoad_effect hc hop h
  | sendGate x w => exact sendGate_effect hc hop h
  | sendPush x => exact sendPush_effect hc hop h
  | decrSub k => exact decrSub_effect hc hop hcount h
  | decrLoad k => exact decrLoad_effect hc hop h
  | decrSet k => exact decrSet_effect hc hop h
  | leave k =>
    cases k with
    | send => exact leave_send_effect hc hop h
    | dropSender => exact leave_dropSender_effect hc hop h
    | dropReceiver => exact leave_dropReceiver_effect hc hop h
  | recvAdd => exact recvAdd_effect hc hop h
  | recvLoad => exact recvLoad_effect hc hop h
  | recvTake => exact recvTake_effect hc hop h

/-- The handles of the senders come and go outside the lock. -/
theorem Ok.withSenders (hc : c.Ok) {k : Nat} {b : Bool} (hk : c.nSenders ≠ 0)
    (hb : b = true ↔ k = 0) : Ok { c with nSenders := k, closing := b } where
  op := by
    have hop := hc.op
    cases hop' : c.op with
    | none => trivial
    | some op =>
      rw [OpOk, hop'] at hop
      cases op with
      | leave k =>
        cases k with
        | dropSender => exact absurd hop.2.1 hk
        | send | dropReceiver => exact hop
      | decrSub k | decrLoad k | decrSet k =>
        cases k with
        | dropSender => exact absurd hop.1.2.1 hk
        | send | dropReceiver => exact hop
      | sendLoad | sendGate | sendPush | recvAdd | recvLoad | recvTake => exact hop
  leaked := hc.leaked
  receiver := hc.receiver
  closed h := absurd (hc.closed h).1 hk
  closing := hb.1
  gone hs hclosing := by
    rw [hb.2 hs] at hclosing
    cases hclosing
  waiting := hc.waiting
  fifo := hc.fifo
  kept := hc.kept

theorem effect_withSenders (hc : c.Ok) {k : Nat} {b : Bool} (hk : c.nSenders ≠ 0)
    (hb : b = true ↔ k = 0) : Effect (free = true) i c g { c with nSenders := k, closing := b } g :=
  ⟨hc.withSenders hk hb, .stay, rfl, .stay, id, fun _ hx _ => hx, fun h => ⟨h, rfl⟩, id, rfl⟩

theorem close_effect (hc : c.Ok) (hclosing : c.closing = true) (hop : c.op = none) :
    Effect (free = true) i c g c.close g := by
  have hw : c.recvWakers.isSome = true := by
    cases hw : c.recvWakers with
    | none =>
      rw [(hc.closed hw).2] at hclosing
      cases hclosing
    | some ws => rfl
  have hsenders := hc.closing hclosing
  have hleaked : c.isEmpty = true → c.leaked = false := by
    intro hempty
    refine hc.leaked_eq_false ?_
    cases hdata : c.data with
    | none => simp [isEmpty, hdata] at hempty
    | some data => rfl
  have hcaller : c.close.caller = some .dropSender := by
    simp only [close, caller]
    split_ifs <;> rfl
  refine ⟨⟨?_, hc.leaked, hc.receiver, fun hnone => ?_, fun h => (by cases h),
    fun _ _ => .inr hcaller, ?_, hc.fifo, hc.kept⟩, .stay, ?_, ?_, ?_, fun _ hx _ => hx,
    fun h => ⟨h, rfl⟩, id, rfl⟩
  · cases hempty : c.isEmpty with
    | true =>
      simp only [OpOk, close, hempty, if_true]
      exact ⟨⟨hw, hsenders, rfl⟩, hleaked hempty⟩
    | false =>
      simp only [OpOk, close, hempty, Bool.false_eq_true, if_false]
      exact ⟨hw, hsenders, rfl⟩
  · simp [show c.recvWakers = none from hnone] at hw
  · intro w ws hws
    refine (hc.waiting hws).imp_right (Or.imp_right fun hsend => ?_)
    simp [caller, hop] at hsend
  · cases hempty : c.isEmpty with
    | true => simp [counted, close, hop, openEmpty, hempty, hw, hleaked hempty]
    | false => simp [counted, close, hop, openEmpty, hempty]
  · cases hempty : c.isEmpty <;> simp only [phase, close, hop, hempty] <;> exact .stay
  · intro hans x hx hxi
    refine (hans x hx hxi).imp_right fun hdrop => ?_
    simp [caller, hop] at hdrop

theorem hangUp_effect {data : List α} (hc : c.Ok) (hop : c.op = none)
    (hdata : c.data = some data) : Effect (free = true) i c g (c.hangUp data) g := by
  have hleaked := hc.leaked_eq_false (by simp [hdata])
  have hcaller : (c.hangUp data).caller = some .dropReceiver := by
    simp only [hangUp, caller]
    split_ifs <;> rfl
  have hgone : c.nSenders = 0 → c.recvWakers.isSome = c.closing := by
    intro hs
    cases hclosing : c.closing with
    | true =>
      cases hw : c.recvWakers with
      | none =>
        rw [(hc.closed hw).2] at hclosing
        cases hclosing
      | some ws => rfl
    | false =>
      rcases hc.gone hs hclosing with hnone | hdrop
      · rw [hnone]
        rfl
      · simp [caller, hop] at hdrop
  refine ⟨⟨?_, fun _ => rfl, rfl, hc.closed, hc.closing, fun hs hclosing => ?_, fun _ => .inl rfl,
    fun h => (by cases h), hc.kept⟩, ?_, ?_, ?_, fun _ _ _ _ => .inr hcaller, fun _ hx _ => hx,
    fun h => ⟨h, rfl⟩, fun h => (by simp [hleaked] at h), rfl⟩
  · by_cases hs : c.nSenders = 0
    · simp only [OpOk, hangUp, hs, ne_eq, not_true_eq_false, decide_false, Bool.and_false,
        Bool.false_eq_true, if_false]
      rfl
    · have hclosing : c.closing = false := Bool.eq_false_iff.2 fun h => hs (hc.closing h)
      cases data <;> simp [OpOk, hangUp, hs, CallerOk, hclosing]
  · refine .inl ((hc.gone hs hclosing).resolve_right fun hdrop => ?_)
    simp [caller, hop] at hdrop
  · have hdrop : c.queue.Step ⟨[], false, c.recvWakers.isSome⟩ := .dropReceiver
    simpa [queue, hangUp] using hdrop
  · -- The side that goes first takes the channel off the counter. Between the last sender and its
    -- lock, neither side does.
    by_cases hs : c.nSenders = 0
    · simp [counted, hangUp, hop, openEmpty, isEmpty, hdata, hs, hgone hs, hleaked]
    · have hclosing : c.closing = false := Bool.eq_false_iff.2 fun h => hs (hc.closing h)
      have hw : c.recvWakers.isSome = true := by
        cases hw : c.recvWakers with
        | none => exact absurd (hc.closed hw).1 hs
        | some ws => rfl
      cases data <;>
        simp [counted, hangUp, hop, openEmpty, isEmpty, hdata, hs, hw, hclosing, hleaked]
  · have hidle : (c.hangUp data).phase = .idle := by
      simp only [hangUp, phase]
      split_ifs <;> rfl
    rw [hidle]
    simp only [phase, hop]
    exact .stay

theorem sendBegin_effect {x : α} {w : W} {data : List α} (hc : c.Ok) (hs : c.nSenders ≠ 0)
    (hop : c.op = none) (hdata : c.data = some data) :
    Effect (free = true) i c g { c with op := some (.sendLoad x w) } g := by
  have hw : c.recvWakers.isSome = true := by
    cases hw : c.recvWakers with
    | none => exact absurd (hc.closed hw).1 hs
    | some ws => rfl
  refine ⟨hc.withOp ⟨by simp [hdata], hw⟩ ?_, .stay, ?_, ?_, fun _ _ _ _ => .inl (by simp [hdata]),
    fun _ hx _ => hx, fun h => ⟨h, rfl⟩, id, rfl⟩
  · simp [caller, hop]
  · simp [counted, hop, openEmpty, isEmpty]
  · simp only [phase, hop]
    exact .stay

theorem call_effect {a : Call α W} (hc : c.Ok) (hcount : c.counted ≤ g.emptyChannels)
    (h : c.call free i g a = some (c', g')) : Effect (free = true) i c g c' g' := by
  cases a with
  | clone =>
    simp only [call] at h
    split_ifs at h with hsenders
    cases h
    refine effect_withSenders hc hsenders ⟨fun hclosing => ?_, fun h => (by cases h)⟩
    exact absurd (hc.closing hclosing) hsenders
  | dropSender =>
    have hclosing : c.nSenders ≠ 0 → c.closing = false := fun hs =>
      Bool.eq_false_iff.2 fun h => hs (hc.closing h)
    simp only [call] at h
    split at h
    · cases h
    · rename_i hs
      cases h
      exact effect_withSenders hc (by simp [hs]) (by simp)
    · rename_i k hs
      cases h
      exact effect_withSenders hc (by simp [hs]) (by simp [hclosing, hs])
  | close =>
    simp only [call, Bool.and_eq_true, Option.isNone_iff_eq_none] at h
    split_ifs at h with hguard
    cases h
    exact close_effect hc hguard.1 hguard.2
  | send x w =>
    simp only [call, Bool.and_eq_true, Option.isNone_iff_eq_none, decide_eq_true_eq] at h
    split_ifs at h with hguard
    split at h
    · rename_i data hdata
      cases h
      exact sendBegin_effect hc hguard.1 hguard.2 hdata
    · cases h
      exact ⟨hc, .stay, rfl, .stay, id, fun _ hx _ => hx, fun h => ⟨h, rfl⟩, id, rfl⟩
  | recv w =>
    simp only [call, Bool.and_eq_true, Option.isNone_iff_eq_none] at h
    split_ifs at h with hguard
    cases hpoll : c.pollRecv w with
    | none =>
      -- The receiver is there, so its `expect` does not fail.
      have hsome := hc.receiver
      rw [hguard.1, Option.map_eq_none_iff.1 hpoll] at hsome
      cases hsome
    | some r =>
      simp only [hpoll] at h
      cases h
      exact pollRecv_effect hc hguard.2 hpoll
  | dropReceiver =>
    simp only [call, Bool.and_eq_true, Option.isNone_iff_eq_none] at h
    split_ifs at h with hguard
    cases hdata : c.data with
    | none =>
      have hsome := hc.receiver
      rw [hguard.1, hdata] at hsome
      cases hsome
    | some data =>
      simp only [hdata] at h
      cases h
      exact hangUp_effect hc hguard.2 hdata
  | resume =>
    obtain ⟨op, hop, h⟩ := Option.bind_eq_some_iff.1 h
    exact resume_effect hc hop hcount h

end Channel

/-! ## What holds of all channels -/

/-- The invariant of the channels and their gate. -/
structure Inv (s : State α W n) : Prop where
  channel : ∀ i, (s.channels i).Ok
  count : s.gate.emptyChannels = ∑ i, (s.channels i).counted
  gate : Lawful s.gate.emptyChannels s.gate.sendWakers.isSome s.phases
  answers : ∀ i, (s.channels i).Answers i s.gate
  panicked : s.gate.panicked = false

theorem inv_channels [NeZero n] : Inv (channels α W n) where
  channel _ := by
    refine ⟨trivial, ?_, rfl, ?_, ?_, ?_, ?_, ?_, List.prefix_rfl⟩ <;>
      simp [channels, Channel.newWithOneSender]
  count := by
    simp [channels, Channel.counted, Channel.newWithOneSender, Channel.openEmpty, Channel.isEmpty]
  gate := lawful_init (NeZero.ne n)
  answers _ := by simp [channels, Channel.Answers, Gate.waiting]
  panicked := rfl

theorem Inv.counted_le {s : State α W n} (h : Inv s) (i : Fin n) :
    (s.channels i).counted ≤ s.gate.emptyChannels := by
  rw [h.count]
  exact Finset.single_le_sum (f := fun i => (s.channels i).counted) (fun _ _ => Nat.zero_le _)
    (Finset.mem_univ i)

theorem phases_update (s : State α W n) (i : Fin n) (c : Channel α W) (g : Gate W n) :
    State.phases ⟨Function.update s.channels i c, g⟩ = Function.update s.phases i c.phase := by
  funext k
  simp only [State.phases, Function.update_apply]
  split_ifs <;> rfl

theorem gateFree_iff {s : State α W n} : s.gateFree = true ↔ Free s.phases := by
  simp [State.gateFree, Free]

/-- A step is an operation at one channel, and leaves the others alone. -/
theorem Inv.effect {s s' : State α W n} {a : Fin n × Call α W} (h : Inv s)
    (hstep : step s a = some s') :
    Channel.Effect (Free s.phases) a.1 (s.channels a.1) s.gate (s'.channels a.1) s'.gate ∧
      s'.channels = Function.update s.channels a.1 (s'.channels a.1) := by
  obtain ⟨⟨c, g⟩, hcall, rfl⟩ := Option.map_eq_some_iff.1 hstep
  have heffect := Channel.call_effect (h.channel a.1) (h.counted_le a.1) hcall
  rw [gateFree_iff] at heffect
  simpa using heffect

/-- **Every step of every task keeps the invariant.** -/
theorem Inv.step {s s' : State α W n} {a : Fin n × Call α W} (h : Inv s)
    (hstep : step s a = some s') : Inv s' := by
  obtain ⟨heffect, hupdate⟩ := h.effect hstep
  have hself : ∀ k, k ≠ a.1 → s'.channels k = s.channels k := by
    intro k hk
    rw [hupdate, Function.update_of_ne hk]
  refine ⟨?_, ?_, ?_, ?_, heffect.panicked.trans h.panicked⟩
  · intro k
    by_cases hk : k = a.1
    · rw [hk]
      exact heffect.ok
    · rw [hself k hk]
      exact h.channel k
  · have hcount := h.count
    have hcounted := heffect.counted
    have hsum := sum_update_add Channel.counted s.channels a.1 (s'.channels a.1)
    rw [← hupdate] at hsum
    omega
  · have hphases : s'.phases = Function.update s.phases a.1 (s'.channels a.1).phase := by
      rw [← phases_update s a.1 (s'.channels a.1) s'.gate, ← hupdate]
    rw [hphases]
    exact h.gate.move heffect.move
  · intro k
    by_cases hk : k = a.1
    · rw [hk]
      exact heffect.answers (h.answers a.1)
    · intro x hx hxk
      rw [hself k hk]
      refine h.answers k x (heffect.others x hx ?_) hxk
      rw [hxk]
      exact hk

end PredicateTransfer.DistributorChannels
