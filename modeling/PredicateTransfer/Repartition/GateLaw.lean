import PredicateTransfer.Repartition.ChannelSteps

/-!
# The law of the gate

In any interleaving, elements arrive once and in order and no `expect` fails (`received_in_order`).
Between operations, senders have to wait exactly while no open channel is empty
(`gate_closed_iff`), so a sender that waits always has a receiver that can go on
(`recv_ready_of_waiting`). Whoever leaves a list of waiting tasks is woken, and nobody is left in
one for nothing (`no_lost_wakeup`).

There is one exception to the law. The last sender counts itself out before it has the lock of its
channel. If the receiver goes in between, and the channel is empty, each of the two leaves it to the
other to take the channel off the counter, which then never reaches zero again and stays too high:
the gate is open for good (`gate_open_after_race`).
-/

namespace PredicateTransfer.DistributorChannels

open AsyncQueue CountingGate Runs

variable {α W : Type} {n : Nat}

/-! ## Runs -/

/-- The states that tasks reach from new channels, in any interleaving. -/
def Reachable (s : State α W n) : Prop := Reaches step (fun _ _ => True) (channels α W n) s

variable {s t : State α W n} {i : Fin n}

theorem Reachable.inv [NeZero n] (h : Reachable s) : Inv s :=
  Reaches.invariant (I := Inv) h inv_channels fun hi _ hstep => hi.step hstep

/-- What an operation keeps of its channel holds from then on. -/
theorem forever_of_effect {p : Channel α W → Prop} (hs : Inv s) (hp : p (s.channels i))
    (hkeeps : ∀ {free : Prop} {c c' : Channel α W} {g g' : Gate W n},
      Channel.Effect free i c g c' g' → p c → p c')
    (hrun : Reaches step (fun _ _ => True) s t) : Inv t ∧ p (t.channels i) := by
  refine Reaches.invariant (I := fun t => Inv t ∧ p (t.channels i)) hrun ⟨hs, hp⟩ ?_
  rintro t a u ⟨ht, hpt⟩ - hstep
  refine ⟨ht.step hstep, ?_⟩
  obtain ⟨heffect, hupdate⟩ := ht.effect hstep
  by_cases hi : i = a.1
  · subst hi
    exact hkeeps heffect hpt
  · rwa [hupdate, Function.update_of_ne hi]

variable [NeZero n]

/-- **Elements arrive once and in order**, in any interleaving, and no `expect` fails: what was
received and what is buffered is what was sent. A receiver that is told that nothing more will
come has received everything that ever will be sent. -/
theorem received_in_order (h : Reachable s) :
    s.gate.panicked = false ∧ (s.channels i).delivered <+: (s.channels i).accepted ∧
    (∀ data, (s.channels i).data = some data →
      (s.channels i).accepted = (s.channels i).delivered ++ data) ∧
    ∀ w c, (s.channels i).pollRecv w = some (c, .ready none) →
      ∀ t, Reaches step (fun _ _ => True) s t →
        (t.channels i).accepted = (s.channels i).delivered := by
  have hi := h.inv
  have hc := hi.channel i
  refine ⟨hi.panicked, hc.kept, fun data => hc.fifo, ?_⟩
  intro w c hpoll t hrun
  obtain ⟨data, hdata, hpoll⟩ := Option.map_eq_some_iff.1 hpoll
  cases data with
  | cons x data => simp at hpoll
  | nil =>
    have hended : (s.channels i).recvWakers = none := by
      cases hw : (s.channels i).recvWakers with
      | none => rfl
      | some ws => simp [hw] at hpoll
    have hall : (s.channels i).accepted = (s.channels i).delivered := by
      rw [hc.fifo hdata, List.append_nil]
    refine (forever_of_effect
      (p := fun c => c.recvWakers = none ∧ c.accepted = (s.channels i).delivered)
      hi ⟨hended, hall⟩ (fun heffect hp => ?_) hrun).2.2
    obtain ⟨hnone, hsame⟩ := heffect.ended hp.1
    exact ⟨hnone, hsame.trans hp.2⟩

/-- A sender fills the only channel, and the next one waits. -/
def afterTwoSends : State Nat Unit 1 :=
  (run step (fun _ _ => True) (channels Nat Unit 1)
    ((0, .clone) :: (0, .send 5 ()) :: List.replicate 6 (0, .resume) ++
      (0, .send 6 ()) :: List.replicate 2 (0, .resume))).getD (channels Nat Unit 1)

theorem reachable_afterTwoSends : Reachable afterTwoSends := reaches_getD_run

/-- The only sender sends an element and goes, and the receiver takes it. -/
def afterLastRecv : State Nat Unit 1 :=
  (run step (fun _ _ => True) (channels Nat Unit 1)
    ((0, .send 5 ()) :: List.replicate 6 (0, .resume) ++
      [(0, .dropSender), (0, .close), (0, .resume), (0, .recv ())])).getD (channels Nat Unit 1)

theorem received_in_order_two : Reachable afterTwoSends ∧
    (afterTwoSends.channels 0).accepted = (afterTwoSends.channels 0).delivered ++ [5] ∧
    Reachable afterLastRecv ∧ (afterLastRecv.channels 0).delivered = [5] ∧
    ∀ t, Reaches step (fun _ _ => True) afterLastRecv t → (t.channels 0).accepted = [5] := by
  have hrecv : Reachable afterLastRecv := reaches_getD_run
  have hended : (afterLastRecv.channels 0).pollRecv () =
      some (afterLastRecv.channels 0, .ready none) := by decide
  have hdelivered : (afterLastRecv.channels 0).delivered = [5] := by decide
  refine ⟨reachable_afterTwoSends, ?_, hrecv, hdelivered, fun t ht => ?_⟩
  · exact (received_in_order reachable_afterTwoSends).2.2.1 [5] (by decide)
  · rw [← hdelivered]
    exact (received_in_order hrecv).2.2.2 () _ hended t ht

omit [NeZero n] in
/-- The channels that nobody is at are in the counter if they are empty and open, or leaked. -/
theorem Inv.count_idle (hi : Inv s) (hidle : ∀ i, (s.channels i).op = none) :
    s.gate.emptyChannels =
      ∑ i, ((s.channels i).openEmpty.toNat + (s.channels i).leaked.toNat) := by
  rw [hi.count]
  refine Finset.sum_congr rfl fun i _ => ?_
  simp only [Channel.counted, hidle i]

omit [NeZero n] in
theorem Inv.closed_iff (hi : Inv s) (hidle : ∀ i, (s.channels i).op = none) :
    s.gate.sendWakers.isSome = true ↔
      ∀ i, (s.channels i).openEmpty = false ∧ (s.channels i).leaked = false := by
  have hphases : ∀ i, s.phases i = .idle := by
    intro i
    simp [State.phases, Channel.phase, hidle i]
  rw [hi.gate.closed_iff hphases, hi.count_idle hidle, Finset.sum_eq_zero_iff]
  simp

/-- **When the gate is closed.** Between operations, the counter says how many channels are open and
empty, and senders have to wait exactly when none is, unless a channel has leaked. -/
theorem gate_closed_iff (h : Reachable s) (hidle : ∀ i, (s.channels i).op = none) :
    (s.gate.emptyChannels =
      ∑ i, ((s.channels i).openEmpty.toNat + (s.channels i).leaked.toNat)) ∧
    (s.gate.sendWakers.isSome = true ↔
      ∀ i, (s.channels i).openEmpty = false ∧ (s.channels i).leaked = false) :=
  ⟨h.inv.count_idle hidle, h.inv.closed_iff hidle⟩

theorem gate_closed_iff_two : (∀ i, (afterTwoSends.channels i).op = none) ∧
    afterTwoSends.gate.sendWakers.isSome = true ∧
    ∀ i, (afterTwoSends.channels i).openEmpty = false ∧ (afterTwoSends.channels i).leaked = false :=
  ⟨by decide, by decide,
    (gate_closed_iff reachable_afterTwoSends (by decide)).2.1 (by decide)⟩

/-- **No deadlock.** While a sender waits, between operations, no receiver does: every receiver
that is polled gets an element or the end. And the receiver of the channel it waits at is there. -/
theorem recv_ready_of_waiting (h : Reachable s) (hidle : ∀ i, (s.channels i).op = none) {w : W}
    (hwaits : (w, i) ∈ s.gate.waiting) :
    (s.channels i).receiver = true ∧
    ∀ k, (s.channels k).receiver = true → ∀ v,
      ∃ c r, (s.channels k).pollRecv v = some (c, .ready r) := by
  have hi := h.inv
  have hclosed : s.gate.sendWakers.isSome = true := by
    cases hw : s.gate.sendWakers with
    | none => simp [Gate.waiting, hw] at hwaits
    | some ws => rfl
  refine ⟨?_, fun k hk v => ?_⟩
  · rw [(hi.channel i).receiver]
    refine (hi.answers i _ hwaits rfl).resolve_right fun hcaller => ?_
    simp [Channel.caller, hidle i] at hcaller
  · have hempty := ((hi.closed_iff hidle).1 hclosed k).1
    rw [(hi.channel k).receiver] at hk
    obtain ⟨data, hdata⟩ := Option.isSome_iff_exists.1 hk
    cases data with
    | cons x data =>
      exact ⟨_, some x, by rw [Channel.pollRecv, hdata]; rfl⟩
    | nil =>
      have hw : (s.channels k).recvWakers = none := by
        cases hw : (s.channels k).recvWakers with
        | none => rfl
        | some ws => simp [Channel.openEmpty, Channel.isEmpty, hdata, hw] at hempty
      exact ⟨s.channels k, none, by simp [Channel.pollRecv, hdata, hw]⟩

theorem recv_ready_of_waiting_two : (∀ i, (afterTwoSends.channels i).op = none) ∧
    ((), 0) ∈ afterTwoSends.gate.waiting ∧ (afterTwoSends.channels 0).receiver = true :=
  ⟨by decide, by decide,
    (recv_ready_of_waiting (w := ()) reachable_afterTwoSends (by decide) (by decide)).1⟩

/-! ## Wake-ups -/

/-- The tasks in a list of wakers: the receivers of a channel, or the senders at the gate. -/
def State.registered (s : State α W n) : Option (Fin n) → Multiset W
  | some k => (s.channels k).recvWakers.getD []
  | none => s.gate.waiting.map Prod.fst

section
omit [NeZero n]

namespace Channel

variable {free : Bool} {c c' : Channel α W} {g g' : Gate W n}

/-- Whoever leaves the list of the channel (`r`) or of the gate (`q`) is woken, and nobody else. -/
def Wakes (c : Channel α W) (g : Gate W n) (c' : Channel α W) (g' : Gate W n) : Prop :=
  ∃ r q : Multiset W, (c.recvWakers.getD [] : Multiset W) ≤ c'.recvWakers.getD [] + r ∧
    (g.waiting.map Prod.fst : Multiset W) ≤ g'.waiting.map Prod.fst + q ∧
    (g'.woken : Multiset W) = g.woken + (r + q)

/-- Nobody leaves a list. -/
theorem Wakes.nobody (hr : (c.recvWakers.getD [] : Multiset W) ≤ c'.recvWakers.getD [])
    (hq : (g.waiting.map Prod.fst : Multiset W) ≤ g'.waiting.map Prod.fst)
    (hwoken : g'.woken = g.woken) : Wakes c g c' g' :=
  ⟨0, 0, by simpa using hr, by simpa using hq, by simp [hwoken]⟩

theorem Wakes.same (hr : c'.recvWakers = c.recvWakers) : Wakes c g c' g :=
  .nobody (by rw [hr]) le_rfl rfl

/-- The receivers of the channel are woken. -/
theorem Wakes.receivers {ws : List W} (hw : c.recvWakers = some ws) :
    Wakes c g c' { g with woken := g.woken ++ ws } :=
  ⟨ws, 0, by rw [hw]; exact Multiset.le_add_left .., by simp [Gate.waiting], by simp⟩

/-- Those senders are woken that wait no longer. -/
theorem Wakes.senders {kept : Option (List (W × Fin n))} {taken : List (W × Fin n)}
    (hsplit : (kept.getD [] ++ taken).Perm g.waiting) :
    Wakes c g { c with op := none } { g with
      sendWakers := kept
      woken := g.woken ++ taken.map Prod.fst } := by
  refine ⟨0, taken.map Prod.fst, by simp, ?_, by simp⟩
  have hperm := Multiset.coe_eq_coe.2 (hsplit.map Prod.fst)
  rw [List.map_append, ← Multiset.coe_add] at hperm
  exact hperm.ge

theorem resume_wakes {op : Op α W} (h : c.resume free i g op = some (c', g')) :
    Wakes c g c' g' := by
  cases op with
  | sendLoad x w =>
    cases h
    exact .same rfl
  | sendGate x w =>
    simp only [resume] at h
    split_ifs at h
    cases hw : g.sendWakers with
    | some ws =>
      simp only [hw, Option.some.injEq, Prod.mk.injEq] at h
      obtain ⟨rfl, rfl⟩ := h
      refine .nobody le_rfl ?_ rfl
      simp only [Gate.waiting, hw, Option.getD_some, List.map_append, ← Multiset.coe_add]
      exact Multiset.le_add_right ..
    | none =>
      simp only [hw, Option.some.injEq, Prod.mk.injEq] at h
      obtain ⟨rfl, rfl⟩ := h
      exact .same rfl
  | sendPush x =>
    cases h
    exact .same rfl
  | decrSub k =>
    cases h
    exact .nobody le_rfl le_rfl rfl
  | decrLoad k =>
    obtain ⟨-, h⟩ := Option.ite_none_right_eq_some.1 h
    cases h
    exact .same rfl
  | decrSet k =>
    cases h
    exact .nobody le_rfl le_rfl rfl
  | leave k =>
    cases k with
    | dropReceiver =>
      obtain ⟨-, h⟩ := Option.ite_none_right_eq_some.1 h
      cases h
      refine .senders ?_
      cases hw : g.sendWakers with
      | none => simp [Gate.waiting, hw]
      | some ws =>
        have hsplit := List.filter_append_perm (fun x : W × Fin n => x.2 ≠ i) ws
        simpa [Gate.waiting, hw] using hsplit
    | send =>
      cases hw : c.recvWakers with
      | none =>
        simp only [resume, hw, Option.some.injEq, Prod.mk.injEq] at h
        obtain ⟨rfl, rfl⟩ := h
        exact .nobody le_rfl le_rfl rfl
      | some ws =>
        simp only [resume, hw, Option.some.injEq, Prod.mk.injEq] at h
        obtain ⟨rfl, rfl⟩ := h
        exact .receivers hw
    | dropSender =>
      cases hw : c.recvWakers with
      | none =>
        simp only [resume, hw, Option.some.injEq, Prod.mk.injEq] at h
        obtain ⟨rfl, rfl⟩ := h
        exact .nobody le_rfl le_rfl rfl
      | some ws =>
        simp only [resume, hw, Option.some.injEq, Prod.mk.injEq] at h
        obtain ⟨rfl, rfl⟩ := h
        exact .receivers hw
  | recvAdd =>
    cases h
    exact .nobody le_rfl le_rfl rfl
  | recvLoad =>
    obtain ⟨-, h⟩ := Option.ite_none_right_eq_some.1 h
    cases h
    exact .same rfl
  | recvTake =>
    cases h
    have hall : ((none : Option (List (W × Fin n))).getD [] ++ g.waiting).Perm g.waiting := .refl _
    exact .senders hall

theorem pollRecv_wakes {w : W} {r : Poll (Option α)} (h : c.pollRecv w = some (c', r)) :
    Wakes c g c' g := by
  obtain ⟨data, -, h⟩ := Option.map_eq_some_iff.1 h
  cases data with
  | cons x data =>
    simp only [Prod.mk.injEq] at h
    obtain ⟨rfl, -⟩ := h
    exact .same rfl
  | nil =>
    cases hw : c.recvWakers with
    | none =>
      simp only [hw, Prod.mk.injEq] at h
      obtain ⟨rfl, -⟩ := h
      exact .same rfl
    | some ws =>
      simp only [hw, Prod.mk.injEq] at h
      obtain ⟨rfl, -⟩ := h
      refine .nobody ?_ le_rfl rfl
      rw [hw, Option.getD_some, Option.getD_some, ← Multiset.coe_add]
      exact Multiset.le_add_right ..

theorem call_wakes {a : Call α W} (h : c.call free i g a = some (c', g')) : Wakes c g c' g' := by
  cases a with
  | clone =>
    simp only [call] at h
    split_ifs at h
    cases h
    exact .same rfl
  | dropSender =>
    simp only [call] at h
    split at h
    · cases h
    · cases h
      exact .same rfl
    · cases h
      exact .same rfl
  | close =>
    obtain ⟨-, h⟩ := Option.ite_none_right_eq_some.1 h
    cases h
    exact .same rfl
  | send x w =>
    obtain ⟨-, h⟩ := Option.ite_none_right_eq_some.1 h
    split at h
    · cases h
      exact .same rfl
    · cases h
      exact .same rfl
  | recv w =>
    obtain ⟨-, h⟩ := Option.ite_none_right_eq_some.1 h
    cases hpoll : c.pollRecv w with
    | none =>
      simp only [hpoll] at h
      cases h
      exact .nobody le_rfl le_rfl rfl
    | some r =>
      simp only [hpoll] at h
      cases h
      exact pollRecv_wakes hpoll
  | dropReceiver =>
    obtain ⟨-, h⟩ := Option.ite_none_right_eq_some.1 h
    split at h
    · cases h
      exact .same rfl
    · cases h
      exact .nobody le_rfl le_rfl rfl
  | resume =>
    obtain ⟨op, -, h⟩ := Option.bind_eq_some_iff.1 h
    exact resume_wakes h

end Channel

theorem wakes_of_reaches (h : Reaches step (fun _ _ => True) s t) :
    ∃ taken : Option (Fin n) → Multiset W,
      (∀ l, s.registered l ≤ t.registered l + taken l) ∧
      (t.gate.woken : Multiset W) = s.gate.woken + ∑ l, taken l := by
  refine Reaches.invariant (I := fun t => ∃ taken : Option (Fin n) → Multiset W,
      (∀ l, s.registered l ≤ t.registered l + taken l) ∧
      (t.gate.woken : Multiset W) = s.gate.woken + ∑ l, taken l) h
    ⟨0, fun l => by simp, by simp⟩ ?_
  rintro t ⟨k, a⟩ u ⟨taken, hlists, hwoken⟩ - hstep
  obtain ⟨⟨c, g⟩, hcall, rfl⟩ := Option.map_eq_some_iff.1 hstep
  obtain ⟨r, q, hr, hq, hw⟩ := Channel.call_wakes hcall
  refine ⟨taken + fun l => l.elim q fun m => if m = k then r else 0, fun l => ?_, ?_⟩
  · refine (hlists l).trans ?_
    rw [Pi.add_apply, add_comm (taken l), ← add_assoc]
    refine add_le_add_left ?_ (taken l)
    cases l with
    | none => exact hq
    | some m =>
      by_cases hm : m = k
      · subst hm
        simpa [State.registered] using hr
      · simp [State.registered, hm]
  · have hsum : ∑ l,
        (taken + fun l => l.elim q fun m => if m = k then r else 0 : _ → Multiset W) l =
          ∑ l, taken l + (r + q) := by
      simp only [Pi.add_apply, Finset.sum_add_distrib]
      rw [Fintype.sum_option (f := fun l => l.elim q _)]
      simp [add_comm]
    rw [hsum, ← add_assoc, ← hwoken]
    exact hw

end

omit [NeZero n] in
/-- A leaked channel is in the counter, wherever its operations are. -/
theorem Channel.Ok.counted_pos {c : Channel α W} (hc : c.Ok) (hleaked : c.leaked = true) :
    0 < c.counted := by
  have hnone := hc.leaked hleaked
  have hop := hc.op
  rw [OpOk] at hop
  rw [counted, hleaked]
  cases hc : c.op with
  | none => exact Nat.lt_add_left _ one_pos
  | some op =>
    rw [hc] at hop
    cases op with
    | decrLoad | decrSet =>
      rw [hleaked] at hop
      cases hop.2
    | recvAdd =>
      rw [hnone] at hop
      cases hop.1
    | sendLoad | sendGate | sendPush => exact Nat.lt_add_left _ one_pos
    | decrSub | leave | recvLoad | recvTake => exact one_pos

omit [NeZero n] in
/-- With a leaked channel the counter is never zero, and between operations it is more than the
number of open empty channels. -/
theorem Inv.of_leaked (hi : Inv s) (hleaked : (s.channels i).leaked = true) :
    0 < s.gate.emptyChannels ∧
      ((∀ k, (s.channels k).op = none) → s.gate.sendWakers = none ∧
        ∑ k, (s.channels k).openEmpty.toNat < s.gate.emptyChannels) := by
  refine ⟨lt_of_lt_of_le ((hi.channel i).counted_pos hleaked) (hi.counted_le i), fun hidle => ?_⟩
  constructor
  · cases hw : s.gate.sendWakers with
    | none => rfl
    | some ws =>
      have hclosed := (hi.closed_iff hidle).1 (by simp [hw]) i
      rw [hleaked] at hclosed
      cases hclosed.2
  · rw [hi.count_idle hidle]
    refine Finset.sum_lt_sum (fun k _ => Nat.le_add_right _ _) ⟨i, Finset.mem_univ i, ?_⟩
    rw [hleaked]
    exact Nat.lt_succ_self _

/-- **The gate leaks.** The last sender of an empty channel can count itself out at any time, and
then waits for the lock. If the receiver goes before the sender has it, then in every later state
the counter is positive, and between operations it is higher than the number of open empty
channels; no sender ever has to wait again, however full the other channels are. -/
theorem gate_open_after_race (h : Reachable s) (hop : (s.channels i).op = none)
    (hdata : (s.channels i).data = some []) :
    ((s.channels i).nSenders = 1 → ∃ t, step s (i, .dropSender) = some t ∧
      (t.channels i).closing = true ∧ (t.channels i).op = none ∧
        (t.channels i).data = some []) ∧
    ((s.channels i).closing = true → ∃ t, step s (i, .dropReceiver) = some t ∧
      ∀ u, Reaches step (fun _ _ => True) t u → 0 < u.gate.emptyChannels ∧
        ((∀ k, (u.channels k).op = none) → u.gate.sendWakers = none ∧
          ∑ k, (u.channels k).openEmpty.toNat < u.gate.emptyChannels)) := by
  constructor
  · intro hsenders
    refine ⟨⟨Function.update s.channels i
      { s.channels i with nSenders := 0, closing := true }, s.gate⟩, ?_, ?_⟩
    · simp [step, Channel.call, hsenders]
    · simp [hop, hdata]
  · intro hclosing
    have hreceiver : (s.channels i).receiver = true := by
      rw [(h.inv.channel i).receiver, hdata]
      rfl
    have hstep : step s (i, .dropReceiver) =
        some ⟨Function.update s.channels i ((s.channels i).hangUp []), s.gate⟩ := by
      simp [step, Channel.call, hreceiver, hop, hdata]
    refine ⟨_, hstep, fun u hu => ?_⟩
    obtain ⟨hinv, hleaked⟩ := forever_of_effect (i := i) (p := fun c => c.leaked = true)
      (h.inv.step hstep) (by simp [Channel.hangUp, hclosing]) (fun heffect => heffect.leaks) hu
    exact hinv.of_leaked hleaked

/-- The last sender of the second channel waits for the lock. -/
def duringRace : State Nat Unit 2 :=
  (run step (fun _ _ => True) (channels Nat Unit 2) [(Fin.last 1, .dropSender)]).getD
    (channels Nat Unit 2)

theorem gate_open_after_race_two : Reachable duringRace ∧
    ∃ t, step duringRace (1, .dropReceiver) = some t ∧
      ∀ u, Reaches step (fun _ _ => True) t u → 0 < u.gate.emptyChannels ∧
        ((∀ k, (u.channels k).op = none) → u.gate.sendWakers = none ∧
          ∑ k, (u.channels k).openEmpty.toNat < u.gate.emptyChannels) := by
  have hreachable : Reachable duringRace := reaches_getD_run
  exact ⟨hreachable, (gate_open_after_race hreachable (by decide) (by decide)).2 (by decide)⟩

end PredicateTransfer.DistributorChannels
