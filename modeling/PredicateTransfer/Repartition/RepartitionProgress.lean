import PredicateTransfer.Repartition.RepartitionRuns

/-!
# A repartition comes to its end

Every step takes a weight down, so no run is longer than the weight at its start. And while it has
not come to its end, something can go on: a send waits only while its channel has something to
receive, and a marker is never ahead of the batch that it stands for.
-/

namespace PredicateTransfer.Repartition

open BatchPartitioner CountingGate Runs

variable {ρ ε : Type} {cfg : Config ρ ε} {s s' : State cfg} {i : Fin cfg.inputs} {k : Nat × Nat}
  {streams : Fin cfg.inputs → List (Except ε (List ρ))} {o : Nat}

/-! ## Something can go on -/

/-- All tasks have told their end, and all streams that were not dropped have ended. -/
def State.Finished (s : State cfg) : Prop :=
  (∀ i, ∃ error handled, s.tasks i = .notifying error [] handled) ∧
    ∀ k, (s.lanes k).receiver = true → (s.lanes k).ended = true

/-- A stream with something in its channel, or without senders, can go on. -/
theorem recv_ne_none {f : Feed ρ ε} (hok : LaneOk (s.lanes k) f)
    (hreceiver : (s.lanes k).receiver = true) (hended : (s.lanes k).ended = false)
    (h : (s.lanes k).queue ≠ [] ∨ s.closed k = true) : s.recv k ≠ none := by
  have hspill := hok.spill_ne_nil
  unfold State.recv
  simp only [hreceiver, hended, Bool.not_false, Bool.and_self, if_true]
  split
  · simp
  · simp
  · simp
  · simp
  · rename_i hq
    rw [if_pos (h.resolve_left fun hne => hne hq)]
    simp
  · simp
  · rename_i hstate hnil
    exact absurd hnil (hspill hstate)

theorem not_blocked (hinv : Inv streams s) (hrecv : ∀ k, s.recv k = none) (i : Fin cfg.inputs) :
    s.blocked i = false := by
  have hsend : ∀ {o}, o < cfg.outputs → (s.tasks i).told o = false →
      ((s.lanes (cfg.sender i, o)).receiver && s.gateClosed (cfg.sender i)) = false := by
    intro o ho htold
    by_contra hblocked
    rw [Bool.not_eq_false, Bool.and_eq_true, State.gateClosed, decide_eq_true_iff] at hblocked
    obtain ⟨hreceiver, hgate⟩ := hblocked
    have hopen : s.closed (cfg.sender i, o) = false := by
      rw [State.closed, decide_eq_false_iff_not]
      intro hall
      have htrue := hall i rfl
      rw [htold] at htrue
      cases htrue
    have hok := hinv.lane hreceiver
    have hended : (s.lanes (cfg.sender i, o)).ended = false := by
      by_contra hended
      rw [Bool.not_eq_false] at hended
      have hclosed := (opened_feed s _).1 (hok.ended hended).1
      rw [hopen] at hclosed
      cases hclosed
    exact recv_ne_none hok hreceiver hended (.inl (hgate o ho hreceiver hopen)) (hrecv _)
  have htask := hinv.task i
  unfold State.blocked
  split
  · rename_i p o msg ht
    rw [ht] at htask
    exact hsend htask.2.1 (by rw [ht]; rfl)
  · rename_i error o left handled ht
    rw [ht] at htask
    exact hsend (ReturnedOk.left_lt htask o (by simp)) (by simp [ht, Task.told])
  · rfl
  · rfl

theorem finished_of_stuck (hinv : Inv streams s)
    (htask : ∀ i granted, s.task i granted = none ∨ s.blocked i = true)
    (hrecv : ∀ k, s.recv k = none) : s.Finished := by
  have htasks : ∀ i, ∃ error handled, s.tasks i = .notifying error [] handled := by
    intro i
    have hnone := (htask i true).resolve_right (by simp [not_blocked hinv hrecv i])
    unfold State.task at hnone
    split at hnone
    · split at hnone
      · cases hnone
      · dsimp only at hnone
        split_ifs at hnone
    · dsimp only at hnone
      split_ifs at hnone
      split at hnone <;> cases hnone
    · dsimp only at hnone
      split_ifs at hnone
    · rename_i error handled ht
      exact ⟨error, handled, ht⟩
  refine ⟨htasks, fun k hreceiver => ?_⟩
  by_contra hended
  rw [Bool.not_eq_true] at hended
  refine recv_ne_none (hinv.lane hreceiver) hreceiver hended (.inr ?_) (hrecv k)
  rw [State.closed, decide_eq_true_iff]
  intro i _
  obtain ⟨error, handled, ht⟩ := htasks i
  simp [ht, Task.told]

/-! ## Every step takes the weight down -/

/-- A message is worth the two turns that it takes the stream at most. -/
def Lane.weight (l : Lane ρ ε) : Nat :=
  if l.receiver then
    2 * l.queue.length + (if l.state = .readingSpilled then 1 else 0) +
      (if l.ended then 0 else 1) + 1
  else 0

/-- A send is worth one more than the message. -/
def Config.weight (cfg : Config ρ ε) : Task ρ ε → Nat
  | .pulling p =>
    4 * p.todo.length + (p.stream.length * (4 * cfg.outputs + 1) + 3 * cfg.outputs + 1)
  | .sending p _ _ =>
    4 * p.todo.length + (p.stream.length * (4 * cfg.outputs + 1) + 3 * cfg.outputs + 1) + 3
  | .notifying _ left _ => 3 * left.length

/-- The lanes that there are. -/
def Config.laneSet (cfg : Config ρ ε) : Finset (Nat × Nat) :=
  cfg.groups ×ˢ Finset.range cfg.outputs

def State.weight (s : State cfg) : Nat :=
  ∑ i, cfg.weight (s.tasks i) + ∑ k ∈ cfg.laneSet, (s.lanes k).weight

theorem mem_laneSet (hi : o < cfg.outputs) : (cfg.sender i, o) ∈ cfg.laneSet :=
  Finset.mem_product.2 ⟨sender_mem_groups i, Finset.mem_range.2 hi⟩

theorem mem_laneSet_of_hasLane (h : cfg.hasLane k = true) : k ∈ cfg.laneSet := by
  refine Finset.mem_product.2 ⟨mem_groups_of_hasLane h, Finset.mem_range.2 ?_⟩
  rw [Config.hasLane, decide_eq_true_iff] at h
  exact h.2

theorem weight_task {t : Task ρ ε} (ht : s'.tasks = Function.update s.tasks i t)
    (hl : s'.lanes = s.lanes) (h : cfg.weight t < cfg.weight (s.tasks i)) :
    s'.weight < s.weight := by
  have hsum := sum_update_add cfg.weight s.tasks i t
  rw [State.weight, State.weight, ht, hl]
  omega

theorem weight_send {t : Task ρ ε} {l : Lane ρ ε} (hk : k ∈ cfg.laneSet)
    (ht : s'.tasks = Function.update s.tasks i t) (hl : s'.lanes = Function.update s.lanes k l)
    (h : cfg.weight t + l.weight < cfg.weight (s.tasks i) + (s.lanes k).weight) :
    s'.weight < s.weight := by
  have hsum := sum_update_add cfg.weight s.tasks i t
  have hlanes := sum_update_add_of_mem Lane.weight s.lanes hk l
  rw [State.weight, State.weight, ht, hl]
  omega

theorem weight_recv {l : Lane ρ ε} (hk : k ∈ cfg.laneSet) (ht : s'.tasks = s.tasks)
    (hl : s'.lanes = Function.update s.lanes k l) (h : l.weight < (s.lanes k).weight) :
    s'.weight < s.weight := by
  have hlanes := sum_update_add_of_mem Lane.weight s.lanes hk l
  rw [State.weight, State.weight, ht, hl]
  omega

theorem weight_push {l : Lane ρ ε} (msg : Msg ρ ε) (h : l.receiver = true) :
    Lane.weight { l with queue := l.queue ++ [msg] } = l.weight + 2 := by
  simp only [Lane.weight, h, if_true, List.length_append, List.length_singleton]
  omega

theorem weight_returned (handled : List (Nat × List ρ)) (error : Option ε) :
    cfg.weight (cfg.returned i handled error) = 3 * cfg.outputs := by
  rw [Config.returned, Config.weight, (cfg.order_perm i).length_eq, List.length_range,
    Config.outputs]

theorem PullOk.weight_pull {p : Pull ρ ε} {stream : List (Except ε (List ρ))}
    (h : PullOk s i stream p) : cfg.weight (cfg.pull i p) < cfg.weight (.pulling p) := by
  have hreturned : ∀ error : Option ε,
      cfg.weight (cfg.returned i p.handled error) < cfg.weight (.pulling p) := by
    intro error
    rw [weight_returned, Config.weight]
    omega
  unfold Config.pull
  split_ifs with hlive
  · exact hreturned _
  · split
    · exact hreturned _
    · exact hreturned _
    · rename_i batch rest hstream
      have hlength : p.stream.length * (4 * cfg.outputs + 1) =
          rest.length * (4 * cfg.outputs + 1) + (4 * cfg.outputs + 1) := by
        rw [hstream, List.length_cons, Nat.succ_mul]
      split_ifs
      · simp only [Config.weight]
        omega
      · split
        · exact hreturned _
        · -- A batch has at most one part for every output.
          rename_i parts b hb
          obtain ⟨o, ho⟩ := Finset.nonempty_iff_ne_empty.2 hlive
          have hn := Nat.zero_lt_of_lt (h.live_lt o ho)
          have hparts := ((h.fits hn).partitionIter hn hb).2.2
          simp only [Config.weight]
          omega

theorem Inv.weight_task_move (h : Inv streams s) (hmove : TaskMove s i s') :
    s'.weight < s.weight := by
  have htask := h.task i
  cases hmove with
  | pull ht htodo =>
    rw [ht] at htask
    refine weight_task rfl rfl ?_
    rw [ht]
    exact PullOk.weight_pull htask
  | skip ht htodo hlive | grant ht htodo hlive =>
    refine weight_task rfl rfl ?_
    simp only [ht, Config.weight, Pull.take, htodo, List.length_cons]
    omega
  | spill ht htodo hlive hl =>
    rw [ht] at htask
    refine weight_send (mem_laneSet (PullOk.live_lt htask _ hlive)) rfl rfl ?_
    simp only [ht, hl, Config.weight, Pull.take, htodo, List.length_cons, Lane.weight]
    omega
  | send ht hl hrecv =>
    rw [ht] at htask
    refine weight_send (mem_laneSet htask.2.1) rfl rfl ?_
    rw [weight_push _ hrecv, ht, hl]
    simp only [Config.weight]
    omega
  | hungUp ht hrecv | hungUpSpilled ht hmsg hrecv =>
    refine weight_task rfl rfl ?_
    simp only [ht, Config.weight]
    omega
  | notify ht hl hrecv =>
    rw [ht] at htask
    refine weight_send (mem_laneSet (ReturnedOk.left_lt htask _ (by simp))) rfl rfl ?_
    rw [weight_push _ hrecv, ht, hl]
    simp only [Config.weight, List.length_cons]
    omega
  | ignored ht hrecv =>
    refine weight_task rfl rfl ?_
    simp only [ht, Config.weight, List.length_cons]
    omega

theorem weight_recv_move (hk : k ∈ cfg.laneSet) (hreceiver : (s.lanes k).receiver = true)
    (hended : (s.lanes k).ended = false) (hmove : RecvMove s k (s.lanes k) s') :
    s'.weight < s.weight := by
  cases hmove with
  | memory hstate hq | error hstate hq =>
    refine weight_recv hk rfl rfl ?_
    simp [Lane.weight, hreceiver, hended, hstate, hq]
  | spilled hstate hq =>
    refine weight_recv hk rfl rfl ?_
    simp [Lane.weight, hreceiver, hended, hstate, hq]
    omega
  | done hstate hq =>
    refine weight_recv hk rfl rfl ?_
    simp only [Lane.weight, hreceiver, hended, hstate, hq, if_true, List.length_cons]
    split_ifs <;> simp_all
  | closed hstate hq hclosed =>
    refine weight_recv hk rfl rfl ?_
    simp [Lane.weight, hreceiver, hended, hstate, hq]
  | batch hstate hspill | drained hstate hspill =>
    refine weight_recv hk rfl rfl ?_
    simp [Lane.weight, hreceiver, hended, hstate]

theorem Inv.weight_step {a : Call cfg.inputs} (h : Inv streams s)
    (hstep : Repartition.step s a = some s') : s'.weight < s.weight := by
  rcases step_cases hstep with ⟨i, hmove⟩ | ⟨k, hrecv, hended, hmove⟩ | ⟨k, hrecv, rfl⟩
  · exact h.weight_task_move hmove
  · exact weight_recv_move (mem_laneSet_of_hasLane (h.hasLane hrecv)) hrecv hended hmove
  · refine weight_recv (mem_laneSet_of_hasLane (h.hasLane hrecv)) rfl rfl ?_
    simp [Lane.weight, hrecv]

/-! ## Runs end -/

/-- The longest that a repartition can take. -/
def Config.bound (cfg : Config ρ ε) (streams : Fin cfg.inputs → List (Except ε (List ρ))) : Nat :=
  ∑ i, ((streams i).length * (4 * cfg.outputs + 1) + 3 * cfg.outputs + 1) + 2 * cfg.laneSet.card

theorem weight_init : (State.init cfg streams).weight ≤ cfg.bound streams := by
  refine Nat.add_le_add (Finset.sum_le_sum fun i _ => ?_) ?_
  · show cfg.weight (cfg.start i (streams i)) ≤ _
    unfold Config.start
    split
    · simp only [Config.weight, List.length_nil]
      omega
    · rw [weight_returned]
      omega
  · rw [mul_comm, ← smul_eq_mul]
    refine Finset.sum_le_card_nsmul _ _ _ fun k _ => ?_
    simp only [State.init, Lane.new, Lane.weight]
    split_ifs <;> simp_all

/-- **A repartition comes to its end.** No run is longer than the bound, and where none of the tasks
and streams can go on, all tasks are done and all streams have ended. -/
theorem repartition_completes {calls : List (Call cfg.inputs)}
    (h : run step (fun _ _ => True) (State.init cfg streams) calls = some s) :
    calls.length ≤ cfg.bound streams ∧
      ((∀ i granted, s.task i granted = none ∨ s.blocked i = true) → (∀ k, s.recv k = none) →
        s.Finished) := by
  refine ⟨?_, finished_of_stuck (Reachable.inv (reaches_of_run h)).1⟩
  obtain ⟨m, -, hle⟩ := bounded_of_run (I := fun s m => Inv streams s ∧ s.weight = m)
    ⟨inv_init, rfl⟩
    (fun hinv hstep => ⟨_, hinv.2 ▸ hinv.1.weight_step hstep, hinv.1.step hstep, rfl⟩) h
  exact (Nat.le_of_add_right_le hle).trans weight_init

theorem repartition_completes_parity : ∃ s : State (byParity false),
    run step (fun _ _ => True) (State.init (byParity false) numbers) (sendAll ++ recvOdd) = some s ∧
      (sendAll ++ recvOdd).length ≤ (byParity false).bound numbers := by
  obtain ⟨s, hs⟩ := Option.isSome_iff_exists.1 (show (run step (fun _ _ => True)
    (State.init (byParity false) numbers) (sendAll ++ recvOdd)).isSome = true by decide)
  exact ⟨s, hs, (repartition_completes hs).1⟩

end PredicateTransfer.Repartition
