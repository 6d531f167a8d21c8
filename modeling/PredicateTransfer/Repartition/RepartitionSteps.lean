import PredicateTransfer.Lib.CountingGate
import PredicateTransfer.Repartition.RepartitionLanes

/-!
# The steps of a repartition

What a step can do (`TaskMove`, `RecvMove`, `step_cases`), what a task contributes to a lane
(`Task.feed`) with what its steps keep of the lane (`Keeps`), and what a task has yet to send
(`TaskOk`).
-/

namespace PredicateTransfer.Repartition

open BatchPartitioner CountingGate

variable {ρ ε : Type} {cfg : Config ρ ε} {s s' : State cfg} {i : Fin cfg.inputs} {k : Nat × Nat}

/-! ## What a step does -/

section
variable (s) (i : Fin cfg.inputs) (o : Nat) (t : Task ρ ε) (l : Lane ρ ε) (batch : List ρ)

@[simp] theorem tasks_setTask : (s.setTask i t).tasks = Function.update s.tasks i t := rfl
@[simp] theorem lanes_setTask : (s.setTask i t).lanes = s.lanes := rfl
@[simp] theorem reservation_setTask : (s.setTask i t).reservation = s.reservation := rfl
@[simp] theorem panicked_setTask : (s.setTask i t).panicked = s.panicked := rfl
@[simp] theorem tasks_setLane : (s.setLane k l).tasks = s.tasks := rfl
@[simp] theorem lanes_setLane : (s.setLane k l).lanes = Function.update s.lanes k l := rfl
@[simp] theorem reservation_setLane : (s.setLane k l).reservation = s.reservation := rfl
@[simp] theorem panicked_setLane : (s.setLane k l).panicked = s.panicked := rfl
@[simp] theorem tasks_grow : (s.grow o batch).tasks = s.tasks := rfl
@[simp] theorem lanes_grow : (s.grow o batch).lanes = s.lanes := rfl
@[simp] theorem panicked_grow : (s.grow o batch).panicked = s.panicked := rfl
@[simp] theorem tasks_shrink : (s.shrink o batch).tasks = s.tasks := rfl
@[simp] theorem lanes_shrink : (s.shrink o batch).lanes = s.lanes := rfl

end

/-- What a task does next. -/
inductive TaskMove (s : State cfg) (i : Fin cfg.inputs) : State cfg → Prop
  | pull {p : Pull ρ ε} (ht : s.tasks i = .pulling p) (htodo : p.todo = []) :
      TaskMove s i (s.setTask i (cfg.pull i p))
  | skip {p : Pull ρ ε} {o : Nat} {batch : List ρ} {todo : List (Nat × List ρ)}
      (ht : s.tasks i = .pulling p) (htodo : p.todo = (o, batch) :: todo) (hlive : o ∉ p.live) :
      TaskMove s i (s.setTask i (.pulling (p.take (o, batch) todo)))
  | grant {p : Pull ρ ε} {o : Nat} {batch : List ρ} {todo : List (Nat × List ρ)}
      (ht : s.tasks i = .pulling p) (htodo : p.todo = (o, batch) :: todo) (hlive : o ∈ p.live) :
      TaskMove s i ((s.grow o batch).setTask i
        (.sending (p.take (o, batch) todo) o (.memory batch)))
  | spill {p : Pull ρ ε} {o : Nat} {batch : List ρ} {todo : List (Nat × List ρ)} {l : Lane ρ ε}
      (ht : s.tasks i = .pulling p) (htodo : p.todo = (o, batch) :: todo) (hlive : o ∈ p.live)
      (hl : s.lanes (cfg.sender i, o) = l) :
      TaskMove s i ((s.setLane (cfg.sender i, o) { l with spill := l.spill ++ [batch] }).setTask i
        (.sending (p.take (o, batch) todo) o .spilled))
  | send {p : Pull ρ ε} {o : Nat} {msg : Msg ρ ε} {l : Lane ρ ε}
      (ht : s.tasks i = .sending p o msg) (hl : s.lanes (cfg.sender i, o) = l)
      (hreceiver : l.receiver = true) :
      TaskMove s i ((s.setLane (cfg.sender i, o) { l with queue := l.queue ++ [msg] }).setTask i
        (.pulling p))
  | hungUp {p : Pull ρ ε} {o : Nat} {batch : List ρ} (ht : s.tasks i = .sending p o (.memory batch))
      (hreceiver : (s.lanes (cfg.sender i, o)).receiver = false) :
      TaskMove s i ((s.shrink o batch).setTask i (.pulling { p with live := p.live.erase o }))
  | hungUpSpilled {p : Pull ρ ε} {o : Nat} {msg : Msg ρ ε} (ht : s.tasks i = .sending p o msg)
      (hmsg : msg.batch? = none) (hreceiver : (s.lanes (cfg.sender i, o)).receiver = false) :
      TaskMove s i (s.setTask i (.pulling { p with live := p.live.erase o }))
  | notify {error : Option ε} {o : Nat} {left : List Nat} {handled : List (Nat × List ρ)}
      {l : Lane ρ ε} (ht : s.tasks i = .notifying error (o :: left) handled)
      (hl : s.lanes (cfg.sender i, o) = l) (hreceiver : l.receiver = true) :
      TaskMove s i ((s.setLane (cfg.sender i, o)
        { l with queue := l.queue ++ [Msg.ending error] }).setTask i
          (.notifying error left handled))
  | ignored {error : Option ε} {o : Nat} {left : List Nat} {handled : List (Nat × List ρ)}
      (ht : s.tasks i = .notifying error (o :: left) handled)
      (hreceiver : (s.lanes (cfg.sender i, o)).receiver = false) :
      TaskMove s i (s.setTask i (.notifying error left handled))

/-- What a stream does with its lane, and the memory that it gives back. -/
inductive RecvMove (s : State cfg) (k : Nat × Nat) (l : Lane ρ ε) : State cfg → Prop
  | memory {batch : List ρ} {queue : List (Msg ρ ε)} (hstate : l.state = .readingMemory)
      (hq : l.queue = .memory batch :: queue) :
      RecvMove s k l ((s.shrink k.2 batch).setLane k
        { l with queue := queue, out := l.out ++ [.ok batch] })
  | spilled {queue : List (Msg ρ ε)} (hstate : l.state = .readingMemory)
      (hq : l.queue = .spilled :: queue) :
      RecvMove s k l (s.setLane k { l with queue := queue, state := .readingSpilled })
  | error {e : ε} {queue : List (Msg ρ ε)} (hstate : l.state = .readingMemory)
      (hq : l.queue = .error e :: queue) :
      RecvMove s k l (s.setLane k { l with queue := queue, out := l.out ++ [.error e] })
  | done {queue : List (Msg ρ ε)} (hstate : l.state = .readingMemory)
      (hq : l.queue = .done :: queue) :
      RecvMove s k l { s.setLane k { l with
          queue := queue
          remainingPartitions := l.remainingPartitions - 1
          ended := l.remainingPartitions - 1 = 0 } with
        panicked := s.panicked || l.remainingPartitions = 0 }
  | closed (hstate : l.state = .readingMemory) (hq : l.queue = []) (hclosed : s.closed k = true) :
      RecvMove s k l (s.setLane k { l with ended := true })
  | batch {batch : List ρ} {spill : List (List ρ)} (hstate : l.state = .readingSpilled)
      (hspill : l.spill = batch :: spill) :
      RecvMove s k l (s.setLane k { l with
        spill := spill
        state := .readingMemory
        out := l.out ++ [.ok batch] })
  | drained (hstate : l.state = .readingSpilled) (hspill : l.spill = []) :
      RecvMove s k l (s.setLane k { l with state := .readingMemory })

theorem taskMove_of_task {granted : Bool} (h : s.task i granted = some s') : TaskMove s i s' := by
  unfold State.task at h
  split at h
  · rename_i p ht
    split at h
    · rename_i htodo
      cases h
      exact .pull ht htodo
    · rename_i o batch todo htodo
      dsimp only at h
      split_ifs at h with hlive hgranted
      · cases h
        exact .grant ht htodo hlive
      · cases h
        exact .spill ht htodo hlive rfl
      · cases h
        exact .skip ht htodo hlive
  · rename_i p o msg ht
    dsimp only at h
    split_ifs at h with hreceiver
    · cases h
      exact .send ht rfl hreceiver
    · rw [Bool.not_eq_true] at hreceiver
      split at h
      · cases h
        exact .hungUp ht hreceiver
      · rename_i hmsg
        cases h
        refine .hungUpSpilled ht ?_ hreceiver
        cases msg with
        | memory batch => exact absurd rfl (hmsg batch)
        | spilled | error | done => rfl
  · rename_i error o left handled ht
    dsimp only at h
    split_ifs at h with hreceiver
    · cases h
      exact .notify ht rfl hreceiver
    · rw [Bool.not_eq_true] at hreceiver
      cases h
      exact .ignored ht hreceiver
  · cases h

theorem recvMove_of_recv (h : s.recv k = some s') :
    (s.lanes k).receiver = true ∧ (s.lanes k).ended = false ∧ RecvMove s k (s.lanes k) s' := by
  unfold State.recv at h
  dsimp only at h
  by_cases hopen : ((s.lanes k).receiver && !(s.lanes k).ended) = true
  swap
  · rw [if_neg hopen] at h
    cases h
  rw [if_pos hopen] at h
  rw [Bool.and_eq_true, Bool.not_eq_true'] at hopen
  refine ⟨hopen.1, hopen.2, ?_⟩
  split at h
  · rename_i batch queue hstate hq
    cases h
    exact .memory hstate hq
  · rename_i queue hstate hq
    cases h
    exact .spilled hstate hq
  · rename_i e queue hstate hq
    cases h
    exact .error hstate hq
  · rename_i queue hstate hq
    cases h
    exact .done hstate hq
  · rename_i hstate hq
    split_ifs at h with hclosed
    cases h
    exact .closed hstate hq hclosed
  · rename_i batch spill hstate hspill
    cases h
    exact .batch hstate hspill
  · rename_i hstate hspill
    split_ifs at h
    cases h
    exact .drained hstate hspill

/-- What a step does: a task or a stream goes on, or a stream is dropped. -/
theorem step_cases {a : Call cfg.inputs} (h : step s a = some s') :
    (∃ i, TaskMove s i s') ∨
    (∃ k, (s.lanes k).receiver = true ∧ (s.lanes k).ended = false ∧ RecvMove s k (s.lanes k) s') ∨
    ∃ k, (s.lanes k).receiver = true ∧
      s' = s.setLane k { s.lanes k with receiver := false, queue := [] } := by
  cases a with
  | task i granted => exact .inl ⟨i, taskMove_of_task h⟩
  | recv k => exact .inr (.inl ⟨k, recvMove_of_recv h⟩)
  | dropReceiver k =>
    simp only [step, State.dropReceiver] at h
    split_ifs at h with hreceiver
    cases h
    exact .inr (.inr ⟨k, hreceiver, rfl⟩)

/-- Dropped streams do not come back. -/
theorem receiver_of_step {a : Call cfg.inputs} (h : step s a = some s')
    (hreceiver : (s'.lanes k).receiver = true) : (s.lanes k).receiver = true := by
  have hset : ∀ {k' : Nat × Nat} {l : Lane ρ ε},
      (l.receiver = true → (s.lanes k').receiver = true) →
      (Function.update s.lanes k' l k).receiver = true → (s.lanes k).receiver = true := by
    intro k' l hl h
    by_cases hk : k = k'
    · subst hk
      rw [Function.update_self] at h
      exact hl h
    · rwa [Function.update_of_ne hk] at h
  rcases step_cases h with ⟨i, hmove⟩ | ⟨k', hrecv, -, hmove⟩ | ⟨k', hrecv, rfl⟩
  · cases hmove with
    | pull | skip | grant | hungUp | hungUpSpilled | ignored => exact hreceiver
    | spill _ _ _ hl | send _ hl | notify _ hl => exact hset (by simp [hl]) hreceiver
  · cases hmove <;> exact hset (fun _ => hrecv) hreceiver
  · exact hset (fun _ => hrecv) hreceiver

/-! ## What a task contributes to a lane -/

/-- The batches for an output. -/
def sentTo (xs : List (Nat × List ρ)) (o : Nat) : List (List ρ) :=
  (xs.filter (·.1 == o)).map (·.2)

@[simp] theorem sentTo_append_self (xs : List (Nat × List ρ)) (o : Nat) (batch : List ρ) :
    sentTo (xs ++ [(o, batch)]) o = sentTo xs o ++ [batch] := by
  simp [sentTo]

theorem sentTo_append_other (xs : List (Nat × List ρ)) {o o' : Nat} (batch : List ρ)
    (ho : o ≠ o') : sentTo (xs ++ [(o, batch)]) o' = sentTo xs o' := by
  simp [sentTo, ho]

namespace Task

def handled : Task ρ ε → List (Nat × List ρ)
  | .pulling p | .sending p _ _ => p.handled
  | .notifying _ _ handled => handled

/-- The message that waits to be sent. -/
def waiting (t : Task ρ ε) (o : Nat) : Option (Msg ρ ε) :=
  match t with
  | .sending _ o' msg => if o' = o then some msg else none
  | .pulling _ | .notifying _ _ _ => none

/-- The error that the output was told. -/
def failed (t : Task ρ ε) (o : Nat) : Option ε :=
  match t with
  | .notifying error left _ => if left.contains o then none else error
  | .pulling _ | .sending _ _ _ => none

def feed (t : Task ρ ε) (o : Nat) : Feed ρ ε where
  sent := (sentTo t.handled o : List _)
  inMemory := (((t.waiting o).bind Msg.batch?).toList : List _)
  inSpilled := ((t.waiting o).any Msg.isSpilled).toNat
  opened := (!t.told o).toNat
  failed := ((t.failed o).toList : List _)

end Task

/-- What the tasks of a lane contribute to it. -/
def State.feed (s : State cfg) (k : Nat × Nat) : Feed ρ ε :=
  ∑ i, if cfg.sender i = k.1 then (s.tasks i).feed k.2 else 0

/-- When a task goes on, what the others contribute stays. -/
theorem exists_feed (s : State cfg) (hi : cfg.sender i = k.1) :
    ∃ rest, s.feed k = (s.tasks i).feed k.2 + rest ∧
      ∀ {s' : State cfg} {t}, s'.tasks = Function.update s.tasks i t →
        s'.feed k = t.feed k.2 + rest := by
  obtain ⟨rest, hrest⟩ := exists_sum_update
    (fun i (t : Task ρ ε) => if cfg.sender i = k.1 then t.feed k.2 else 0) s.tasks i
  refine ⟨rest, ?_, fun {s' t} ht => ?_⟩
  · have hself := hrest (s.tasks i)
    rwa [Function.update_eq_self, if_pos hi] at hself
  · have hself := hrest t
    rw [if_pos hi] at hself
    rw [State.feed, ht, hself]

theorem feed_congr (ht : s'.tasks = s.tasks) : s'.feed k = s.feed k := by
  rw [State.feed, State.feed, ht]

/-- A task contributes nothing to the lanes of others. -/
theorem feed_other {t : Task ρ ε} (ht : s'.tasks = Function.update s.tasks i t)
    (hi : cfg.sender i ≠ k.1) : s'.feed k = s.feed k := by
  refine Finset.sum_congr rfl fun m _ => ?_
  rw [ht]
  by_cases hm : m = i
  · rw [hm, if_neg hi, if_neg hi]
  · rw [Function.update_of_ne hm]

/-! ## What the steps of a task keep of a lane -/

/-- What a step of a task has to keep. -/
def Keeps (t t' : Task ρ ε) (l l' : Lane ρ ε) (o : Nat) : Prop :=
  ∀ rest, LaneOk l (t.feed o + rest) → LaneOk l' (t'.feed o + rest)

theorem laneOk_of_task {t : Task ρ ε} (h : LaneOk (s.lanes k) (s.feed k))
    (ht : s'.tasks = Function.update s.tasks i t)
    (hother : cfg.sender i ≠ k.1 → s'.lanes k = s.lanes k)
    (hself : cfg.sender i = k.1 → Keeps (s.tasks i) t (s.lanes k) (s'.lanes k) k.2) :
    LaneOk (s'.lanes k) (s'.feed k) := by
  by_cases hi : cfg.sender i = k.1
  · obtain ⟨rest, hrest, hupdate⟩ := exists_feed s hi
    rw [hrest] at h
    rw [hupdate ht]
    exact hself hi rest h
  · rw [hother hi, feed_other ht hi]
    exact h

theorem Keeps.of_eq {t t' : Task ρ ε} {l : Lane ρ ε} {o : Nat} (h : t'.feed o = t.feed o) :
    Keeps t t' l l o := by
  intro rest hl
  rwa [h]

/-- The loop goes on, or returns with what it has sent. -/
theorem pull_cases {p : Pull ρ ε} {motive : Task ρ ε → Prop}
    (hreturned : ∀ error, motive (cfg.returned i p.handled error))
    (hpulling : ∀ stream partitioner todo,
      motive (.pulling { p with stream := stream, partitioner := partitioner, todo := todo })) :
    motive (cfg.pull i p) := by
  unfold Config.pull
  split_ifs
  · exact hreturned _
  · split
    · exact hreturned _
    · exact hreturned _
    · split_ifs
      · exact hpulling _ p.partitioner p.todo
      · split
        · exact hreturned _
        · exact hpulling _ _ _

section
variable {p : Pull ρ ε} {o o' : Nat} {batch : List ρ} {todo : List (Nat × List ρ)} {l : Lane ρ ε}
  {msg : Msg ρ ε}

theorem feed_pull (ho : o < cfg.outputs) :
    (cfg.pull i p).feed o = (Task.pulling p : Task ρ ε).feed o := by
  have hmem : o ∈ cfg.order i := (cfg.order_perm i).mem_iff.2 (List.mem_range.2 ho)
  refine pull_cases (motive := fun t => t.feed o = _) (fun error => ?_) fun _ _ _ => rfl
  simp [Config.returned, Task.feed, Task.handled, Task.waiting, Task.told, Task.failed, hmem]

theorem feed_take_other (ho : o ≠ o') : (Task.pulling (p.take (o, batch) todo)).feed o' =
    (Task.pulling p : Task ρ ε).feed o' := by
  simp [Task.feed, Task.handled, Task.waiting, Task.told, Task.failed, Pull.take,
    sentTo_append_other _ _ ho]

theorem feed_sending_other (ho : o ≠ o') : (Task.sending p o msg).feed o' =
    (Task.pulling p : Task ρ ε).feed o' := by
  simp [Task.feed, Task.handled, Task.waiting, Task.told, Task.failed, ho]

theorem feed_sending : (Task.sending p o msg).feed o =
    ⟨0, msg.batch?.toList, msg.isSpilled.toNat, 0, 0⟩ + (Task.pulling p : Task ρ ε).feed o := by
  ext1 <;> simp [Task.feed, Task.handled, Task.waiting, Task.told, Task.failed]

theorem feed_take_sending : (Task.sending (p.take (o, batch) todo) o msg).feed o =
    ⟨{batch}, msg.batch?.toList, msg.isSpilled.toNat, 0, 0⟩ + (Task.pulling p).feed o := by
  rw [feed_sending]
  ext1 <;> simp [Task.feed, Task.handled, Task.waiting, Task.told, Task.failed, Pull.take]

theorem keeps_grant :
    Keeps (.pulling p) (.sending (p.take (o, batch) todo) o (.memory batch)) l l o := by
  intro rest h
  rw [feed_take_sending, add_assoc]
  exact h.grant

theorem keeps_spill : Keeps (.pulling p) (.sending (p.take (o, batch) todo) o .spilled) l
    { l with spill := l.spill ++ [batch] } o := by
  intro rest h
  rw [feed_take_sending, add_assoc]
  exact h.spill

theorem keeps_send (hmsg : msg.isLast = false) :
    Keeps (.sending p o msg) (.pulling p) l { l with queue := l.queue ++ [msg] } o := by
  intro rest h
  have hpush : LaneOk { l with queue := l.queue ++ [msg] }
      (⟨0, 0, 0, 0, msg.error?.toList⟩ + ((Task.pulling p).feed o + rest)) :=
    LaneOk.push (by rwa [hmsg, Bool.toNat_false, ← add_assoc, ← feed_sending])
      (.inl (by simp [Task.feed, Task.told]))
  have herror : msg.error? = none := by
    cases msg <;> simp [Msg.isLast, Msg.error?] at hmsg ⊢
  rw [herror] at hpush
  exact (zero_add ((Task.pulling p).feed o + rest)) ▸ hpush

theorem keeps_notify {error : Option ε} {left : List Nat} {handled : List (Nat × List ρ)}
    (ho : o ∉ left) : Keeps (.notifying error (o :: left) handled) (.notifying error left handled) l
      { l with queue := l.queue ++ [Msg.ending error] } o := by
  intro rest h
  have hbefore : (Task.notifying error (o :: left) handled).feed o =
      ⟨0, (Msg.ending error : Msg ρ ε).batch?.toList, (Msg.ending error : Msg ρ ε).isSpilled.toNat,
        (Msg.ending error : Msg ρ ε).isLast.toNat, 0⟩ + ⟨sentTo handled o, 0, 0, 0, 0⟩ := by
    ext1 <;> cases error <;> simp [Task.feed, Task.handled, Task.waiting, Task.told, Task.failed,
      Msg.ending, Msg.batch?, Msg.isSpilled, Msg.isLast]
  have hafter : (Task.notifying error left handled).feed o =
      ⟨0, 0, 0, 0, (Msg.ending error : Msg ρ ε).error?.toList⟩ +
        ⟨sentTo handled o, 0, 0, 0, 0⟩ := by
    ext1 <;> cases error <;> simp [Task.feed, Task.handled, Task.waiting, Task.told, Task.failed,
      Msg.ending, Msg.error?, ho]
  rw [hbefore, add_assoc] at h
  rw [hafter, add_assoc]
  exact h.push (.inr (by cases error <;> rfl))

theorem feed_notify_other {error : Option ε} {left : List Nat} {handled : List (Nat × List ρ)}
    (ho : o ≠ o') : (Task.notifying error left handled).feed o' =
      (Task.notifying error (o :: left) handled).feed o' := by
  simp [Task.feed, Task.handled, Task.waiting, Task.told, Task.failed, ho.symm]

end

/-! ## What a task has yet to send -/

/-- The parts that the task of an input is to send, and how its stream ends. -/
def Config.routed (cfg : Config ρ ε) (i : Fin cfg.inputs) (stream : List (Except ε (List ρ))) :
    List (Nat × List ρ) × Option ε :=
  match BatchPartitioner.tryNew (if cfg.preserveOrder then 0 else i) cfg.inputs
    cfg.partitioning with
  | .ok partitioner => partitioner.pieces stream
  | .error e => ([], some e)

/-- A task in its loop has sent what it is to send up to what it has in hand, and it leaves out
streams that were dropped only. -/
structure PullOk (s : State cfg) (i : Fin cfg.inputs) (stream : List (Except ε (List ρ)))
    (p : Pull ρ ε) : Prop where
  routed : cfg.routed i stream =
    (p.handled ++ p.todo ++ (p.partitioner.pieces p.stream).1, (p.partitioner.pieces p.stream).2)
  live_lt : ∀ o ∈ p.live, o < cfg.outputs
  hungUp : ∀ o < cfg.outputs, o ∉ p.live → (s.lanes (cfg.sender i, o)).receiver = false
  fits : 0 < cfg.outputs → p.partitioner.Fits cfg.outputs

/-- A task that has left its loop has sent everything, or all its streams were dropped. -/
structure ReturnedOk (s : State cfg) (i : Fin cfg.inputs) (stream : List (Except ε (List ρ)))
    (error : Option ε) (left : List Nat) (handled : List (Nat × List ρ)) : Prop where
  routed : cfg.routed i stream = (handled, error) ∨
    handled <+: (cfg.routed i stream).1 ∧
      ∀ o < cfg.outputs, (s.lanes (cfg.sender i, o)).receiver = false
  left_lt : ∀ o ∈ left, o < cfg.outputs
  nodup : left.Nodup

def TaskOk (s : State cfg) (i : Fin cfg.inputs) (stream : List (Except ε (List ρ))) :
    Task ρ ε → Prop
  | .pulling p => PullOk s i stream p
  | .sending p o msg => PullOk s i stream p ∧ o < cfg.outputs ∧ msg.isLast = false
  | .notifying error left handled => ReturnedOk s i stream error left handled

section
variable {stream : List (Except ε (List ρ))}

theorem PullOk.mono {p : Pull ρ ε} (h : PullOk s i stream p)
    (hreceiver : ∀ k, (s'.lanes k).receiver = true → (s.lanes k).receiver = true) :
    PullOk s' i stream p := by
  refine ⟨h.routed, h.live_lt, fun o ho hlive => ?_, h.fits⟩
  have hdropped := h.hungUp o ho hlive
  exact Bool.eq_false_of_not_eq_true fun htrue => by simp [hreceiver _ htrue] at hdropped

theorem TaskOk.mono {t : Task ρ ε} (h : TaskOk s i stream t)
    (hreceiver : ∀ k, (s'.lanes k).receiver = true → (s.lanes k).receiver = true) :
    TaskOk s' i stream t := by
  cases t with
  | pulling p => exact PullOk.mono h hreceiver
  | sending p o msg => exact ⟨h.1.mono hreceiver, h.2⟩
  | notifying error left handled =>
    refine ⟨h.routed.imp_right fun hgone => ⟨hgone.1, fun o ho => ?_⟩, h.left_lt, h.nodup⟩
    have hdropped := hgone.2 o ho
    exact Bool.eq_false_of_not_eq_true fun htrue => by simp [hreceiver _ htrue] at hdropped

theorem taskOk_returned {handled : List (Nat × List ρ)} {error : Option ε}
    (h : cfg.routed i stream = (handled, error) ∨ handled <+: (cfg.routed i stream).1 ∧
      ∀ o < cfg.outputs, (s.lanes (cfg.sender i, o)).receiver = false) :
    TaskOk s i stream (cfg.returned i handled error) :=
  ⟨h, fun _ ho => List.mem_range.1 ((cfg.order_perm i).mem_iff.1 ho),
    (cfg.order_perm i).nodup_iff.2 List.nodup_range⟩

theorem input_lt (i : Fin cfg.inputs) :
    (if cfg.preserveOrder then 0 else (i : Nat)) < cfg.inputs := by
  have hi := i.isLt
  split_ifs <;> omega

theorem taskOk_start : TaskOk s i stream (cfg.start i stream) := by
  unfold Config.start
  split
  · rename_i b hb
    refine ⟨?_, fun o ho => Finset.mem_range.1 ho, fun o ho hlive => ?_,
      fun hn => fits_tryNew (input_lt i) hn hb⟩
    · simp [Config.routed, hb]
    · exact absurd (Finset.mem_range.2 ho) hlive
  · rename_i e he
    refine taskOk_returned (.inl ?_)
    simp [Config.routed, he]

theorem PullOk.pull {p : Pull ρ ε} (h : PullOk s i stream p) (htodo : p.todo = []) :
    TaskOk s i stream (cfg.pull i p) := by
  have hrouted := h.routed
  rw [htodo, List.append_nil] at hrouted
  unfold Config.pull
  split_ifs with hlive
  · refine taskOk_returned (.inr ⟨?_, fun o ho => h.hungUp o ho (by simp [hlive])⟩)
    rw [hrouted]
    exact List.prefix_append _ _
  · split
    · rename_i hstream
      refine taskOk_returned (.inl ?_)
      simpa [hstream, pieces] using hrouted
    · rename_i e rest hstream
      refine taskOk_returned (.inl ?_)
      simpa [hstream, pieces] using hrouted
    · rename_i batch rest hstream
      rw [hstream, pieces] at hrouted
      split_ifs with hempty
      · rw [if_pos hempty] at hrouted
        exact ⟨by simpa [htodo] using hrouted, h.live_lt, h.hungUp, h.fits⟩
      · rw [if_neg hempty] at hrouted
        split
        · rename_i e he
          refine taskOk_returned (.inl ?_)
          simpa [he] using hrouted
        · rename_i parts b hb
          exact ⟨by simpa [hb] using hrouted, h.live_lt, h.hungUp,
            fun hn => ((h.fits hn).partitionIter hn hb).1⟩

theorem PullOk.take {p : Pull ρ ε} {x : Nat × List ρ} {todo : List (Nat × List ρ)}
    (h : PullOk s i stream p) (htodo : p.todo = x :: todo) : PullOk s i stream (p.take x todo) := by
  refine ⟨?_, h.live_lt, h.hungUp, h.fits⟩
  simpa [Pull.take, htodo] using h.routed

theorem PullOk.erase {p : Pull ρ ε} {o : Nat} (h : PullOk s i stream p)
    (hreceiver : (s.lanes (cfg.sender i, o)).receiver = false) :
    PullOk s i stream { p with live := p.live.erase o } := by
  refine ⟨h.routed, fun o' ho' => h.live_lt o' (Finset.mem_of_mem_erase ho'),
    fun o' ho' hlive => ?_, h.fits⟩
  by_cases heq : o' = o
  · rw [heq]
    exact hreceiver
  · exact h.hungUp o' ho' fun hmem => hlive (Finset.mem_erase.2 ⟨heq, hmem⟩)

theorem ReturnedOk.tail {error : Option ε} {o : Nat} {left : List Nat}
    {handled : List (Nat × List ρ)} (h : ReturnedOk s i stream error (o :: left) handled) :
    ReturnedOk s i stream error left handled :=
  ⟨h.routed, fun o' ho' => h.left_lt o' (List.mem_cons_of_mem _ ho'), h.nodup.of_cons⟩

end

end PredicateTransfer.Repartition
