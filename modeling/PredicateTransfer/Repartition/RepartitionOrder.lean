import PredicateTransfer.Repartition.RepartitionInv

/-!
# The order of a repartition

A lane that only one input sends to keeps the order, also when some batches go through the spill
pool: the channel has a marker where each of them belongs.
-/

namespace PredicateTransfer.Repartition

variable {ρ ε : Type} {cfg : Config ρ ε} {s s' : State cfg} {i : Fin cfg.inputs} {k : Nat × Nat}
  {streams : Fin cfg.inputs → List (Except ε (List ρ))} {o : Nat}

/-- The input has its lanes for itself. -/
def Config.Sole (cfg : Config ρ ε) (i : Fin cfg.inputs) : Prop :=
  ∀ j, cfg.sender j = cfg.sender i → j = i

theorem sole_of_preserveOrder (h : cfg.preserveOrder = true) (i : Fin cfg.inputs) : cfg.Sole i := by
  intro j hj
  simpa [Config.sender, h, Fin.ext_iff] using hj

theorem sole_of_one (h : cfg.inputs = 1) (i : Fin cfg.inputs) : cfg.Sole i := by
  intro j _
  exact Fin.ext (by omega)

theorem feed_sole (hi : cfg.Sole i) : s.feed (cfg.sender i, o) = (s.tasks i).feed o := by
  rw [State.feed, Finset.sum_eq_single i (fun j _ hj => if_neg fun h => hj (hi j h))
    (fun h => absurd (Finset.mem_univ i) h), if_pos rfl]

/-- The lane of an input and an output is in the order of what the input's task has sent. -/
def State.InOrderAt (s : State cfg) (i : Fin cfg.inputs) (o : Nat) : Prop :=
  InOrder (s.lanes (cfg.sender i, o)) (sentTo (s.tasks i).handled o) ((s.tasks i).waiting o)

def OrderOk (s : State cfg) : Prop :=
  ∀ {i}, cfg.Sole i → ∀ {o}, (s.lanes (cfg.sender i, o)).receiver = true → s.InOrderAt i o

theorem orderOk_init : OrderOk (State.init cfg streams) := by
  intro i _ o _
  show InOrder _ (sentTo (cfg.start i (streams i)).handled o) ((cfg.start i (streams i)).waiting o)
  unfold Config.start
  split <;> rfl

/-- A step of a task that changes what it has for one output, and the lane of that output. -/
theorem inOrderAt_of_send {t : Task ρ ε} {l : Lane ρ ε} {o' : Nat} (h : s.InOrderAt i o)
    (ht : s'.tasks = Function.update s.tasks i t)
    (hl : s'.lanes = Function.update s.lanes (cfg.sender i, o') l)
    (hself : o' = o → InOrder l (sentTo t.handled o) (t.waiting o))
    (hother : o' ≠ o → sentTo t.handled o = sentTo (s.tasks i).handled o ∧
      t.waiting o = (s.tasks i).waiting o) : s'.InOrderAt i o := by
  rw [State.InOrderAt, ht, hl, Function.update_self]
  by_cases ho : o' = o
  · rw [ho, Function.update_self]
    exact hself ho
  · rw [Function.update_of_ne fun heq => ho (congrArg Prod.snd heq).symm, (hother ho).1,
      (hother ho).2]
    exact h

theorem pull_handled {p : Pull ρ ε} : (cfg.pull i p).handled = p.handled :=
  pull_cases (motive := fun t => t.handled = p.handled) (fun _ => rfl) fun _ _ _ => rfl

theorem pull_waiting {p : Pull ρ ε} : (cfg.pull i p).waiting o = none :=
  pull_cases (motive := fun t => t.waiting o = none) (fun _ => rfl) fun _ _ _ => rfl

theorem inOrderAt_self (hinv : Inv streams s) (hsole : cfg.Sole i) (hmove : TaskMove s i s')
    (hreceiver : (s.lanes (cfg.sender i, o)).receiver = true) (h : s.InOrderAt i o) :
    s'.InOrderAt i o := by
  have hlane := hinv.hasLane hreceiver
  have hok := hinv.lane hreceiver
  have htask := hinv.task i
  have horder := h
  rw [Config.hasLane, decide_eq_true_iff] at hlane
  rw [feed_sole hsole] at hok
  rw [State.InOrderAt] at horder
  have hsame : s.lanes = Function.update s.lanes (cfg.sender i, o) (s.lanes (cfg.sender i, o)) :=
    (Function.update_eq_self _ _).symm
  cases hmove with
  | pull ht htodo =>
    rw [ht] at horder
    exact inOrderAt_of_send h rfl hsame (fun _ => by rwa [pull_handled, pull_waiting])
      fun ho => absurd rfl ho
  | @skip p o' batch todo ht htodo hlive =>
    rw [ht] at horder htask
    -- A part that is skipped is for a stream that was dropped.
    have ho : o' ≠ o := by
      rintro rfl
      have hdropped := PullOk.hungUp htask o' hlane.2 hlive
      rw [hreceiver] at hdropped
      cases hdropped
    refine inOrderAt_of_send h rfl hsame (fun _ => ?_) fun ho => absurd rfl ho
    simp only [Task.handled, Pull.take, sentTo_append_other _ _ ho]
    exact horder
  | @grant p o' batch todo ht htodo hlive =>
    refine inOrderAt_of_send h rfl (Function.update_eq_self (cfg.sender i, o') s.lanes).symm
      (fun ho => ?_) fun ho => ?_
    · subst ho
      rw [ht] at horder
      simpa [Task.handled, Pull.take, Task.waiting] using horder.grant
    · simp [ht, Task.handled, Pull.take, Task.waiting, sentTo_append_other _ _ ho, ho]
  | @spill p o' batch todo l ht htodo hlive hl =>
    refine inOrderAt_of_send h rfl rfl (fun ho => ?_) fun ho => ?_
    · subst ho
      rw [ht, hl] at horder
      have hmarkers := hok.markers
      rw [ht, hl] at hmarkers
      have hspill : InOrder { l with spill := l.spill ++ [batch] } _ (some .spilled) :=
        horder.spill hmarkers
      simpa [Task.handled, Pull.take, Task.waiting] using hspill
    · simp [ht, Task.handled, Pull.take, Task.waiting, sentTo_append_other _ _ ho, ho]
  | @send p o' msg l ht hl hrecv =>
    refine inOrderAt_of_send h rfl rfl (fun ho => ?_) fun ho => ?_
    · subst ho
      rw [ht, hl] at horder
      simp only [Task.handled, Task.waiting, if_true] at horder ⊢
      exact horder.push
    · simp [ht, Task.handled, Task.waiting, ho]
  | @hungUp p o' batch ht hrecv | @hungUpSpilled p o' msg ht hmsg hrecv =>
    refine inOrderAt_of_send h rfl (Function.update_eq_self (cfg.sender i, o') s.lanes).symm
      (fun ho => ?_) fun ho => ?_
    · rw [ho, hreceiver] at hrecv
      cases hrecv
    · simp [ht, Task.handled, Task.waiting, ho]
  | @notify error o' left handled l ht hl hrecv =>
    refine inOrderAt_of_send h rfl rfl (fun ho => ?_) fun ho => ?_
    · subst ho
      rw [ht, hl] at horder
      exact horder.push_last (by cases error <;> rfl)
    · simp [ht, Task.handled, Task.waiting]
  | ignored ht hrecv =>
    rw [ht] at horder
    exact inOrderAt_of_send h rfl hsame (fun _ => horder) fun ho => absurd rfl ho

/-- The lanes of an input that has them for itself do not change when another task goes on. -/
theorem inOrderAt_other {j : Fin cfg.inputs} (hsole : cfg.Sole i) (hj : j ≠ i)
    (hmove : TaskMove s j s') (h : s.InOrderAt i o) : s'.InOrderAt i o := by
  have hsender : ∀ o', (cfg.sender i, o) ≠ (cfg.sender j, o') := fun o' heq =>
    hj (hsole j (congrArg Prod.fst heq).symm)
  cases hmove <;>
    simpa [State.InOrderAt, Function.update_of_ne hj.symm, Function.update_of_ne (hsender _)]
      using h

theorem InOrder.recv {l : Lane ρ ε} {f : Feed ρ ε} {sent : List (List ρ)}
    {waiting : Option (Msg ρ ε)} (h : InOrder l sent waiting) (hok : LaneOk l f)
    (hmove : RecvMove s k l s') :
    ∃ l', s'.tasks = s.tasks ∧ s'.lanes = Function.update s.lanes k l' ∧
      InOrder l' sent waiting := by
  cases hmove with
  | memory hstate hq => exact ⟨_, rfl, rfl, h.recv_memory hstate hq⟩
  | spilled hstate hq => exact ⟨_, rfl, rfl, h.recv_spilled hstate hq⟩
  | error hstate hq => exact ⟨_, rfl, rfl, h.recv_error hstate hq⟩
  | done hstate hq => exact ⟨_, rfl, rfl, h.recv_done hstate hq⟩
  | closed hstate hq hclosed => exact ⟨_, rfl, rfl, h⟩
  | batch hstate hspill => exact ⟨_, rfl, rfl, h.recv_batch hstate hspill⟩
  | drained hstate hspill => exact absurd hspill (hok.spill_ne_nil hstate)

theorem OrderOk.step {a : Call cfg.inputs} (h : OrderOk s) (hinv : Inv streams s)
    (hstep : Repartition.step s a = some s') : OrderOk s' := by
  intro i hsole o hk
  have hreceiver := receiver_of_step hstep hk
  have horder := h hsole hreceiver
  rcases step_cases hstep with ⟨j, hmove⟩ | ⟨k, hrecv, hended, hmove⟩ | ⟨k, hrecv, rfl⟩
  · by_cases hj : j = i
    · subst hj
      exact inOrderAt_self hinv hsole hmove hreceiver horder
    · exact inOrderAt_other hsole hj hmove horder
  · by_cases hkk : (cfg.sender i, o) = k
    · subst hkk
      obtain ⟨l', htasks, hlanes, hl'⟩ := InOrder.recv horder (hinv.lane hrecv) hmove
      rwa [State.InOrderAt, htasks, hlanes, Function.update_self]
    · obtain ⟨l', htasks, hlanes, -⟩ := (hinv.lane hrecv).recv hended hmove
      rwa [State.InOrderAt, htasks, hlanes, Function.update_of_ne hkk]
  · have hkk : (cfg.sender i, o) ≠ k := by
      rintro rfl
      simp at hk
    rwa [State.InOrderAt, tasks_setLane, lanes_setLane, Function.update_of_ne hkk]

end PredicateTransfer.Repartition
