import PredicateTransfer.Repartition.RepartitionInv

/-!
# The memory of a repartition

The memory that is reserved for an output covers the batches that are in its channels or on their
way there, and it is exactly that until a stream is dropped with batches in its channel. So no
reservation is shrunk below zero.
-/

namespace PredicateTransfer.Repartition

open CountingGate

variable {ρ ε : Type} {cfg : Config ρ ε} {s s' : State cfg} {i : Fin cfg.inputs} {k : Nat × Nat}
  {streams : Fin cfg.inputs → List (Except ε (List ρ))} {o : Nat}

/-- The inputs that have lanes. -/
def Config.groups (cfg : Config ρ ε) : Finset Nat := Finset.univ.image cfg.sender

theorem sender_mem_groups (i : Fin cfg.inputs) : cfg.sender i ∈ cfg.groups :=
  Finset.mem_image_of_mem _ (Finset.mem_univ i)

theorem mem_groups_of_hasLane (h : cfg.hasLane k = true) : k.1 ∈ cfg.groups := by
  rw [Config.hasLane, decide_eq_true_iff] at h
  obtain ⟨⟨i, hi⟩, -⟩ := h
  exact hi ▸ sender_mem_groups i

def Config.size (cfg : Config ρ ε) (batches : List (List ρ)) : Nat :=
  (batches.map cfg.memorySize).sum

@[simp] theorem size_nil : cfg.size [] = 0 := rfl

@[simp] theorem size_singleton (batch : List ρ) : cfg.size [batch] = cfg.memorySize batch := by
  simp [Config.size]

@[simp] theorem size_append (xs ys : List (List ρ)) :
    cfg.size (xs ++ ys) = cfg.size xs + cfg.size ys := by
  simp [Config.size]

/-- The batch that memory was granted for. -/
def Task.granted (t : Task ρ ε) (o : Nat) : List (List ρ) :=
  ((t.waiting o).bind Msg.batch?).toList

namespace State

/-- The memory of the batches in the channels of an output. -/
def inChannels (s : State cfg) (o : Nat) : Nat := ∑ a ∈ cfg.groups, cfg.size (s.lanes (a, o)).queued

/-- The memory of the batches on their way there. -/
def inTasks (s : State cfg) (o : Nat) : Nat := ∑ i, cfg.size ((s.tasks i).granted o)

def held (s : State cfg) (o : Nat) : Nat := s.inChannels o + s.inTasks o

end State

theorem inTasks_update {t : Task ρ ε} (ht : s'.tasks = Function.update s.tasks i t) (o : Nat) :
    s'.inTasks o + cfg.size ((s.tasks i).granted o) = s.inTasks o + cfg.size (t.granted o) := by
  rw [State.inTasks, State.inTasks, ht]
  exact sum_update_add (fun t : Task ρ ε => cfg.size (t.granted o)) s.tasks i t

theorem inChannels_update {l : Lane ρ ε} (hk : k.1 ∈ cfg.groups)
    (hl : s'.lanes = Function.update s.lanes k l) (o : Nat) :
    s'.inChannels o + (if k.2 = o then cfg.size (s.lanes k).queued else 0) =
      s.inChannels o + if k.2 = o then cfg.size l.queued else 0 := by
  rw [State.inChannels, State.inChannels, hl]
  split_ifs with ho
  · subst ho
    rw [← Finset.add_sum_erase _ _ hk, ← Finset.add_sum_erase cfg.groups
      (fun a => cfg.size (s.lanes (a, k.2)).queued) hk, Function.update_self]
    have hrest : ∑ a ∈ cfg.groups.erase k.1,
        cfg.size (Function.update s.lanes k l (a, k.2)).queued =
          ∑ a ∈ cfg.groups.erase k.1, cfg.size (s.lanes (a, k.2)).queued := by
      refine Finset.sum_congr rfl fun a ha => ?_
      rw [Function.update_of_ne fun h => Finset.ne_of_mem_erase ha (congrArg Prod.fst h)]
    rw [hrest, Prod.mk.eta]
    omega
  · congr 1
    refine Finset.sum_congr rfl fun a _ => ?_
    rw [Function.update_of_ne fun h => ho (congrArg Prod.snd h).symm]

/-- The reservations change by what the step puts on its way or takes out. -/
def Balanced (s s' : State cfg) : Prop :=
  ∀ o, s'.held o + s.reservation o = s.held o + s'.reservation o

/-- A step that moves a batch of a task to a lane, or leaves both as they are. -/
theorem balanced_of_send {t : Task ρ ε} {l : Lane ρ ε}
    (ht : s'.tasks = Function.update s.tasks i t)
    (hl : s'.lanes = Function.update s.lanes (cfg.sender i, o) l)
    (hreservation : s'.reservation = s.reservation)
    (hself : cfg.size l.queued + cfg.size (t.granted o) =
      cfg.size (s.lanes (cfg.sender i, o)).queued + cfg.size ((s.tasks i).granted o))
    (hother : ∀ {o'}, o ≠ o' → t.granted o' = (s.tasks i).granted o') : Balanced s s' := by
  intro o'
  have htasks := inTasks_update ht o'
  have hlanes := inChannels_update (sender_mem_groups i) hl o'
  rw [State.held, State.held, hreservation]
  by_cases ho : o = o'
  · subst ho
    simp only [if_true] at hlanes
    omega
  · simp only [ho, if_false, hother ho] at hlanes htasks
    omega

/-- A step that a batch is on its way after, or no more. -/
theorem balanced_of_task {t : Task ρ ε} (ht : s'.tasks = Function.update s.tasks i t)
    (hl : s'.lanes = s.lanes)
    (hbalance : ∀ o, cfg.size (t.granted o) + s.reservation o =
      cfg.size ((s.tasks i).granted o) + s'.reservation o) : Balanced s s' := by
  intro o
  have htasks := inTasks_update ht o
  have hlanes : s'.inChannels o = s.inChannels o := by rw [State.inChannels, State.inChannels, hl]
  have hbalance := hbalance o
  rw [State.held, State.held, hlanes]
  omega

section
variable {p : Pull ρ ε} {msg : Msg ρ ε}

@[simp] theorem granted_pulling : (Task.pulling p : Task ρ ε).granted o = [] := rfl

@[simp] theorem granted_notifying {error : Option ε} {left : List Nat}
    {handled : List (Nat × List ρ)} :
    (Task.notifying error left handled : Task ρ ε).granted o = [] := rfl

theorem granted_sending (o' : Nat) : (Task.sending p o' msg).granted o =
    if o' = o then msg.batch?.toList else [] := by
  rw [Task.granted, Task.waiting]
  split_ifs <;> rfl

@[simp] theorem granted_pull : (cfg.pull i p).granted o = [] :=
  pull_cases (motive := fun t => t.granted o = []) (fun _ => rfl) fun _ _ _ => rfl

theorem queued_push (l : Lane ρ ε) (msg : Msg ρ ε) :
    Lane.queued { l with queue := l.queue ++ [msg] } = l.queued ++ msg.batch?.toList := by
  cases msg <;> simp [Lane.queued, Msg.batch?]

end

theorem granted_le_held (s : State cfg) (i : Fin cfg.inputs) (o : Nat) :
    cfg.size ((s.tasks i).granted o) ≤ s.held o := by
  have hle := Finset.single_le_sum (f := fun i => cfg.size ((s.tasks i).granted o))
    (fun _ _ => Nat.zero_le _) (Finset.mem_univ i)
  exact hle.trans (Nat.le_add_left _ _)

theorem queued_le_held (s : State cfg) (hk : k.1 ∈ cfg.groups) :
    cfg.size (s.lanes k).queued ≤ s.held k.2 := by
  have hle := Finset.single_le_sum (f := fun a => cfg.size (s.lanes (a, k.2)).queued)
    (fun _ _ => Nat.zero_le _) hk
  exact hle.trans (Nat.le_add_right _ _)

theorem balanced_task_move (hmemory : ∀ o, s.held o ≤ s.reservation o) (hmove : TaskMove s i s') :
    Balanced s s' ∧ s'.panicked = s.panicked := by
  cases hmove with
  | pull ht htodo => exact ⟨balanced_of_task rfl rfl fun o => by simp [ht], rfl⟩
  | skip ht htodo hlive => exact ⟨balanced_of_task rfl rfl fun o => by simp [ht], rfl⟩
  | @grant p o batch todo ht htodo hlive =>
    refine ⟨balanced_of_task rfl rfl fun o' => ?_, rfl⟩
    simp only [ht, granted_sending, granted_pulling, reservation_setTask, State.grow]
    by_cases ho : o = o'
    · subst ho
      simp [Msg.batch?]
      omega
    · simp [ho, Function.update_of_ne (Ne.symm ho)]
  | @spill p o batch todo l ht htodo hlive hl =>
    refine ⟨balanced_of_send rfl rfl rfl ?_ fun ho => ?_, rfl⟩
    · simp [ht, hl, granted_sending, Msg.batch?, Lane.queued]
    · simp [ht, granted_sending, ho]
  | @send p o msg l ht hl hrecv =>
    refine ⟨balanced_of_send rfl rfl rfl ?_ fun ho => ?_, rfl⟩
    · simp [ht, hl, granted_sending, queued_push]
    · simp [ht, granted_sending, ho]
  | @hungUp p o batch ht hrecv =>
    have hle := (granted_le_held s i o).trans (hmemory o)
    simp only [ht, granted_sending, if_true, Msg.batch?, Option.toList_some, size_singleton] at hle
    refine ⟨balanced_of_task rfl rfl fun o' => ?_, ?_⟩
    · simp only [ht, granted_sending, granted_pulling, reservation_setTask, State.shrink]
      by_cases ho : o = o'
      · subst ho
        simp [Msg.batch?]
        omega
      · simp [ho, Function.update_of_ne (Ne.symm ho)]
    · simp [State.shrink, hle]
  | @hungUpSpilled p o msg ht hmsg hrecv =>
    refine ⟨balanced_of_task rfl rfl fun o' => ?_, rfl⟩
    simp [ht, granted_sending, hmsg]
  | @notify error o left handled l ht hl hrecv =>
    refine ⟨balanced_of_send rfl rfl rfl ?_ fun ho => ?_, rfl⟩
    · have hnone : (Msg.ending error : Msg ρ ε).batch? = none := by cases error <;> rfl
      simp [ht, hl, queued_push, hnone]
    · simp [ht]
  | ignored ht hrecv => exact ⟨balanced_of_task rfl rfl fun o => by simp [ht], rfl⟩

theorem balanced_of_recv {l : Lane ρ ε} (ht : s'.tasks = s.tasks) (hk : k.1 ∈ cfg.groups)
    (hl : s'.lanes = Function.update s.lanes k l)
    (hself : cfg.size l.queued + s.reservation k.2 =
      cfg.size (s.lanes k).queued + s'.reservation k.2)
    (hother : ∀ {o}, k.2 ≠ o → s'.reservation o = s.reservation o) : Balanced s s' := by
  intro o
  have hlanes := inChannels_update hk hl o
  have htasks : s'.inTasks o = s.inTasks o := by rw [State.inTasks, State.inTasks, ht]
  rw [State.held, State.held, htasks]
  by_cases ho : k.2 = o
  · subst ho
    simp only [if_true] at hlanes
    omega
  · simp only [ho, if_false, hother ho] at hlanes ⊢
    omega

theorem balanced_recv_move {f : Feed ρ ε} (hmemory : ∀ o, s.held o ≤ s.reservation o)
    (hk : k.1 ∈ cfg.groups) (hok : LaneOk (s.lanes k) f) (hmove : RecvMove s k (s.lanes k) s') :
    Balanced s s' ∧ s'.panicked = s.panicked := by
  cases hmove with
  | @memory batch queue hstate hq =>
    have hle := (queued_le_held s hk).trans (hmemory k.2)
    have hqueued : (s.lanes k).queued = batch :: queue.filterMap Msg.batch? := by
      simp [Lane.queued, hq, Msg.batch?]
    have hsize : cfg.size (s.lanes k).queued =
        cfg.memorySize batch + cfg.size (queue.filterMap Msg.batch?) := by
      simp [hqueued, Config.size]
    refine ⟨balanced_of_recv rfl hk rfl ?_ fun ho => ?_, ?_⟩
    · rw [hsize]
      simp only [reservation_setLane, State.shrink, Function.update_self, Lane.queued]
      omega
    · simp [State.shrink, Function.update_of_ne (Ne.symm ho)]
    · simp only [panicked_setLane, State.shrink, Bool.or_eq_left_iff_imp, decide_eq_true_iff]
      omega
  | spilled hstate hq | error hstate hq =>
    exact ⟨balanced_of_recv rfl hk rfl (by simp [Lane.queued, hq, List.filterMap_cons, Msg.batch?])
      fun _ => rfl, rfl⟩
  | done hstate hq =>
    have hpos := hok.remaining_pos hq
    refine ⟨balanced_of_recv rfl hk rfl (by simp [Lane.queued, hq, List.filterMap_cons, Msg.batch?])
      fun _ => rfl, ?_⟩
    simp [hpos]
  | closed hstate hq hclosed => exact ⟨balanced_of_recv rfl hk rfl rfl fun _ => rfl, rfl⟩
  | batch hstate hspill | drained hstate hspill =>
    exact ⟨balanced_of_recv rfl hk rfl rfl fun _ => rfl, rfl⟩

/-- The reservations cover what is held. -/
structure MemoryOk (s : State cfg) : Prop where
  held_le : ∀ o, s.held o ≤ s.reservation o
  held_eq : ∀ {o}, (∀ a ∈ cfg.groups, (s.lanes (a, o)).receiver = true) →
    s.held o = s.reservation o
  panicked : s.panicked = false

theorem memoryOk_init : MemoryOk (State.init cfg streams) := by
  have hheld : ∀ o, (State.init cfg streams).held o = 0 := by
    intro o
    have htasks : ∀ i, ((State.init cfg streams).tasks i).granted o = [] := by
      intro i
      show (cfg.start i (streams i)).granted o = []
      unfold Config.start
      split <;> rfl
    have hlanes : ∀ k, ((State.init cfg streams).lanes k).queued = [] := fun _ => rfl
    simp [State.held, State.inTasks, htasks, State.inChannels, hlanes]
  exact ⟨fun o => (hheld o).le, fun {o} _ => hheld o, rfl⟩

theorem MemoryOk.balanced (h : MemoryOk s) (hbalanced : Balanced s s')
    (hpanicked : s'.panicked = s.panicked)
    (hreceiver : ∀ k, (s'.lanes k).receiver = true → (s.lanes k).receiver = true) :
    MemoryOk s' := by
  refine ⟨fun o => ?_, fun {o} hall => ?_, hpanicked.trans h.panicked⟩
  · have hle := h.held_le o
    have := hbalanced o
    omega
  · have heq := h.held_eq fun a ha => hreceiver _ (hall a ha)
    have := hbalanced o
    omega

/-- A channel that is dropped holds nothing any more. -/
theorem held_drop {l : Lane ρ ε} (ht : s'.tasks = s.tasks) (hk : k.1 ∈ cfg.groups)
    (hl : s'.lanes = Function.update s.lanes k l) (hq : l.queue = []) (o : Nat) :
    s'.held o ≤ s.held o ∧ (k.2 ≠ o → s'.held o = s.held o) := by
  have hlanes := inChannels_update hk hl o
  have htasks : s'.inTasks o = s.inTasks o := by rw [State.inTasks, State.inTasks, ht]
  have hqueued : l.queued = [] := by rw [Lane.queued, hq, List.filterMap_nil]
  rw [State.held, State.held, htasks]
  simp only [hqueued, size_nil, ite_self] at hlanes
  refine ⟨by omega, fun ho => ?_⟩
  simp only [ho, if_false] at hlanes
  omega

theorem MemoryOk.step {a : Call cfg.inputs} (h : MemoryOk s) (hinv : Inv streams s)
    (hstep : Repartition.step s a = some s') : MemoryOk s' := by
  have hreceiver : ∀ k, (s'.lanes k).receiver = true → (s.lanes k).receiver = true :=
    fun k => receiver_of_step hstep
  rcases step_cases hstep with ⟨i, hmove⟩ | ⟨k, hrecv, hended, hmove⟩ | ⟨k, hrecv, rfl⟩
  · obtain ⟨hbalanced, hpanicked⟩ := balanced_task_move h.held_le hmove
    exact h.balanced hbalanced hpanicked hreceiver
  · obtain ⟨hbalanced, hpanicked⟩ := balanced_recv_move h.held_le
      (mem_groups_of_hasLane (hinv.hasLane hrecv)) (hinv.lane hrecv) hmove
    exact h.balanced hbalanced hpanicked hreceiver
  · -- What is lost with the channel stays reserved.
    have hk := mem_groups_of_hasLane (hinv.hasLane hrecv)
    have hheld := held_drop (tasks_setLane s _) hk
      (lanes_setLane s { s.lanes k with receiver := false, queue := [] }) rfl
    refine ⟨fun o => (hheld o).1.trans (h.held_le o), fun {o} hall => ?_, h.panicked⟩
    by_cases ho : k.2 = o
    · subst ho
      have hdropped := hall k.1 hk
      simp at hdropped
    · rw [(hheld o).2 ho]
      exact h.held_eq fun a ha => hreceiver _ (hall a ha)

end PredicateTransfer.Repartition
