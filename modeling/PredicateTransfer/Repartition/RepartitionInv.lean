import PredicateTransfer.Repartition.RepartitionSteps

/-!
# What holds during a repartition

The invariant of all lanes and tasks (`Inv`). A step of a task changes what it contributes to at
most one lane, and keeps that lane in order; or it drops something for a stream that is gone. A
step of a stream concerns its lane only.
-/

namespace PredicateTransfer.Repartition

open BatchPartitioner CountingGate

variable {ρ ε : Type} {cfg : Config ρ ε} {s s' : State cfg} {i : Fin cfg.inputs} {k : Nat × Nat}
  {streams : Fin cfg.inputs → List (Except ε (List ρ))}

/-- Every lane whose stream is there fits its tasks, and every task has yet to send what it has
not. -/
structure Inv (streams : Fin cfg.inputs → List (Except ε (List ρ))) (s : State cfg) : Prop where
  lane : ∀ {k}, (s.lanes k).receiver = true → LaneOk (s.lanes k) (s.feed k)
  hasLane : ∀ {k}, (s.lanes k).receiver = true → cfg.hasLane k = true
  task : ∀ i, TaskOk s i (streams i) (s.tasks i)

/-! ## The lanes -/

/-- A step of a task that changes what it contributes to one lane, and that lane. -/
theorem laneOk_of_send {t : Task ρ ε} {l : Lane ρ ε} {o : Nat}
    (h : LaneOk (s.lanes k) (s.feed k)) (ht : s'.tasks = Function.update s.tasks i t)
    (hl : s'.lanes = Function.update s.lanes (cfg.sender i, o) l)
    (hself : Keeps (s.tasks i) t (s.lanes (cfg.sender i, o)) l o)
    (hother : ∀ {o'}, o ≠ o' → t.feed o' = (s.tasks i).feed o') :
    LaneOk (s'.lanes k) (s'.feed k) := by
  by_cases hk : k = (cfg.sender i, o)
  · subst hk
    refine laneOk_of_task h ht (fun hi => absurd rfl hi) fun _ => ?_
    rw [hl, Function.update_self]
    exact hself
  · have hlane : s'.lanes k = s.lanes k := by rw [hl, Function.update_of_ne hk]
    refine laneOk_of_task h ht (fun _ => hlane) fun hi => ?_
    rw [hlane]
    exact .of_eq (hother fun ho => hk (Prod.ext hi.symm ho.symm))

/-- A step of a task that loses something for a stream that was dropped. -/
theorem laneOk_of_dropped {t : Task ρ ε} {o : Nat}
    (h : LaneOk (s.lanes k) (s.feed k)) (ht : s'.tasks = Function.update s.tasks i t)
    (hl : s'.lanes = s.lanes) (hreceiver : (s.lanes k).receiver = true)
    (hdropped : (s.lanes (cfg.sender i, o)).receiver = false)
    (hother : ∀ {o'}, o ≠ o' → t.feed o' = (s.tasks i).feed o') :
    LaneOk (s'.lanes k) (s'.feed k) := by
  refine laneOk_of_task h ht (fun _ => by rw [hl]) fun hi => ?_
  rw [hl]
  refine .of_eq (hother fun ho => ?_)
  rw [show (cfg.sender i, o) = k from Prod.ext hi ho, hreceiver] at hdropped
  cases hdropped

theorem Inv.lane_task (h : Inv streams s) (hmove : TaskMove s i s')
    (hreceiver : (s.lanes k).receiver = true) : LaneOk (s'.lanes k) (s'.feed k) := by
  have hk := h.lane hreceiver
  have hlane := h.hasLane hreceiver
  have htask := h.task i
  rw [Config.hasLane, decide_eq_true_iff] at hlane
  cases hmove with
  | pull ht htodo =>
    refine laneOk_of_task hk rfl (fun _ => rfl) fun _ => .of_eq ?_
    rw [ht]
    exact feed_pull hlane.2
  | @skip p o batch todo ht htodo hlive =>
    rw [ht] at htask
    refine laneOk_of_task hk rfl (fun _ => rfl) fun hi => .of_eq ?_
    rw [ht]
    refine feed_take_other fun ho => ?_
    -- A part that is skipped is for a stream that was dropped.
    have hdropped := PullOk.hungUp htask o (ho ▸ hlane.2) hlive
    rw [show (cfg.sender i, o) = k from Prod.ext hi ho, hreceiver] at hdropped
    cases hdropped
  | @grant p o batch todo ht htodo hlive =>
    refine laneOk_of_send (o := o) (l := s.lanes (cfg.sender i, o)) hk rfl
      (Function.update_eq_self _ _).symm ?_ fun ho => ?_
    · rw [ht]
      exact keeps_grant
    · rw [ht, feed_sending_other ho, feed_take_other ho]
  | @spill p o batch todo l ht htodo hlive hl =>
    refine laneOk_of_send hk rfl rfl ?_ fun ho => ?_
    · rw [ht, hl]
      exact keeps_spill
    · rw [ht, feed_sending_other ho, feed_take_other ho]
  | @send p o msg l ht hl hrecv =>
    rw [ht] at htask
    refine laneOk_of_send hk rfl rfl ?_ fun ho => ?_
    · rw [ht, hl]
      exact keeps_send htask.2.2
    · rw [ht, feed_sending_other ho]
  | @hungUp p o batch ht hrecv =>
    refine laneOk_of_dropped hk rfl rfl hreceiver hrecv fun ho => ?_
    rw [ht, feed_sending_other ho]
    rfl
  | @hungUpSpilled p o msg ht hmsg hrecv =>
    refine laneOk_of_dropped hk rfl rfl hreceiver hrecv fun ho => ?_
    rw [ht, feed_sending_other ho]
    rfl
  | @notify error o left handled l ht hl hrecv =>
    rw [ht] at htask
    refine laneOk_of_send hk rfl rfl ?_ fun ho => ?_
    · rw [ht, hl]
      exact keeps_notify (List.nodup_cons.1 (ReturnedOk.nodup htask)).1
    · rw [ht, feed_notify_other ho]
  | @ignored error o left handled ht hrecv =>
    refine laneOk_of_dropped hk rfl rfl hreceiver hrecv fun ho => ?_
    rw [ht, feed_notify_other ho]

theorem opened_feed (s : State cfg) (k : Nat × Nat) :
    (s.feed k).opened = 0 ↔ s.closed k = true := by
  rw [State.feed, Feed.opened_sum, Finset.sum_eq_zero_iff, State.closed, decide_eq_true_iff]
  refine forall_congr' fun i => ?_
  simp only [Finset.mem_univ, true_implies]
  by_cases hi : cfg.sender i = k.1
  · simp [hi, Task.feed]
  · simp [hi]

theorem LaneOk.recv {l : Lane ρ ε} (h : LaneOk l (s.feed k)) (hended : l.ended = false)
    (hmove : RecvMove s k l s') :
    ∃ l', s'.tasks = s.tasks ∧ s'.lanes = Function.update s.lanes k l' ∧ LaneOk l' (s.feed k) := by
  cases hmove with
  | memory hstate hq => exact ⟨_, rfl, rfl, h.recv_memory hended hq⟩
  | spilled hstate hq => exact ⟨_, rfl, rfl, h.recv_spilled hended hstate hq⟩
  | error hstate hq => exact ⟨_, rfl, rfl, h.recv_error hended hq⟩
  | done hstate hq => exact ⟨_, rfl, rfl, h.recv_done hstate hq⟩
  | closed hstate hq hclosed =>
    exact ⟨_, rfl, rfl, h.recv_closed ((opened_feed s k).2 hclosed) hstate hq⟩
  | batch hstate hspill => exact ⟨_, rfl, rfl, h.recv_batch hended hstate hspill⟩
  | drained hstate hspill => exact absurd hspill (h.spill_ne_nil hstate)

/-! ## The tasks -/

theorem Inv.task_move (h : Inv streams s) (hmove : TaskMove s i s') (j : Fin cfg.inputs) :
    TaskOk s j (streams j) (s'.tasks j) := by
  have hset : ∀ {t : Task ρ ε}, TaskOk s i (streams i) t →
      TaskOk s j (streams j) (Function.update s.tasks i t j) := by
    intro t ht
    by_cases hj : j = i
    · subst hj
      rwa [Function.update_self]
    · rw [Function.update_of_ne hj]
      exact h.task j
  have hi := h.task i
  cases hmove with
  | pull ht htodo =>
    rw [ht] at hi
    exact hset (PullOk.pull hi htodo)
  | skip ht htodo hlive =>
    rw [ht] at hi
    exact hset (PullOk.take hi htodo)
  | grant ht htodo hlive | spill ht htodo hlive hl =>
    rw [ht] at hi
    exact hset ⟨PullOk.take hi htodo, PullOk.live_lt hi _ hlive, rfl⟩
  | send ht hl hrecv =>
    rw [ht] at hi
    exact hset hi.1
  | hungUp ht hrecv | hungUpSpilled ht hmsg hrecv =>
    rw [ht] at hi
    exact hset (hi.1.erase hrecv)
  | notify ht hl hrecv | ignored ht hrecv =>
    rw [ht] at hi
    exact hset (ReturnedOk.tail hi)

/-! ## Every step -/

theorem feed_start {stream : List (Except ε (List ρ))} {o : Nat} (ho : o < cfg.outputs) :
    (cfg.start i stream).feed o = ⟨0, 0, 0, 1, 0⟩ := by
  have hmem : o ∈ cfg.order i := (cfg.order_perm i).mem_iff.2 (List.mem_range.2 ho)
  unfold Config.start
  split
  · rfl
  · simp [Config.returned, Task.feed, Task.handled, sentTo, Task.waiting, Task.told, Task.failed,
      hmem]

/-- A lane waits for as many tasks as feed it. -/
theorem remaining_new (hk : cfg.hasLane k = true) :
    ∑ i, (if cfg.sender i = k.1 then 1 else 0) = (Lane.new cfg k).remainingPartitions := by
  rw [Config.hasLane, decide_eq_true_iff] at hk
  obtain ⟨⟨i, hi⟩, -⟩ := hk
  cases horder : cfg.preserveOrder with
  | false =>
    have hall : ∀ j : Fin cfg.inputs, cfg.sender j = k.1 := by
      intro j
      simp [← hi, Config.sender, horder]
    simp [hall, Lane.new, horder]
  | true =>
    have honly : ∀ j : Fin cfg.inputs, cfg.sender j = k.1 ↔ j = i := by
      intro j
      simp [← hi, Config.sender, horder, Fin.ext_iff]
    simp [honly, Lane.new, horder]

theorem feed_init (hk : cfg.hasLane k = true) :
    (State.init cfg streams).feed k = ⟨0, 0, 0, (Lane.new cfg k).remainingPartitions, 0⟩ := by
  have hlt : k.2 < cfg.outputs := by
    rw [Config.hasLane, decide_eq_true_iff] at hk
    exact hk.2
  have hfeed : (State.init cfg streams).feed k =
      ∑ i, ⟨0, 0, 0, if cfg.sender i = k.1 then 1 else 0, 0⟩ := by
    refine Finset.sum_congr rfl fun i _ => ?_
    rw [show (State.init cfg streams).tasks i = cfg.start i (streams i) from rfl, feed_start hlt]
    split_ifs <;> rfl
  rw [hfeed]
  ext1
  · rw [Feed.sent_sum, Finset.sum_const_zero]
  · rw [Feed.inMemory_sum, Finset.sum_const_zero]
  · rw [Feed.inSpilled_sum, Finset.sum_const_zero]
  · rw [Feed.opened_sum]
    exact remaining_new hk
  · rw [Feed.failed_sum, Finset.sum_const_zero]

theorem inv_init : Inv streams (State.init cfg streams) := by
  refine ⟨fun {k} hreceiver => ?_, fun hreceiver => hreceiver, fun i => taskOk_start⟩
  rw [feed_init hreceiver]
  exact ⟨by simp [State.init, Lane.new, Lane.returned, Lane.queued], by
    simp [State.init, Lane.new, Lane.markers], by simp [State.init, Lane.new], by
    simp [State.init, Lane.new, Lane.errors], fun _ => .inl rfl, fun h => (by cases h)⟩

theorem Inv.step {a : Call cfg.inputs} (h : Inv streams s)
    (hstep : Repartition.step s a = some s') : Inv streams s' := by
  have hreceiver : ∀ k, (s'.lanes k).receiver = true → (s.lanes k).receiver = true :=
    fun k => receiver_of_step hstep
  have hhas : ∀ {k}, (s'.lanes k).receiver = true → cfg.hasLane k = true :=
    fun hk => h.hasLane (hreceiver _ hk)
  rcases step_cases hstep with ⟨i, hmove⟩ | ⟨k', hrecv, hended, hmove⟩ | ⟨k', hrecv, rfl⟩
  · exact ⟨fun hk => h.lane_task hmove (hreceiver _ hk), hhas,
      fun j => (h.task_move hmove j).mono hreceiver⟩
  · obtain ⟨l', htasks, hlanes, hok⟩ := (h.lane hrecv).recv hended hmove
    refine ⟨fun {k} hk => ?_, hhas, fun j => ?_⟩
    · rw [feed_congr htasks, hlanes]
      by_cases hkk : k = k'
      · subst hkk
        rwa [Function.update_self]
      · rw [Function.update_of_ne hkk]
        exact h.lane (hreceiver _ hk)
    · rw [htasks]
      exact (h.task j).mono hreceiver
  · refine ⟨fun {k} hk => ?_, hhas, fun j => (h.task j).mono hreceiver⟩
    have hkk : k ≠ k' := by
      rintro rfl
      simp at hk
    rw [feed_congr rfl, lanes_setLane, Function.update_of_ne hkk]
    exact h.lane (hreceiver _ hk)

end PredicateTransfer.Repartition
