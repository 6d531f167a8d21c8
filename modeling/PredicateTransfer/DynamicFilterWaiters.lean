import PredicateTransfer.BuildAccumulator
import PredicateTransfer.Lib.Channels

/-!
# Waiting for a dynamic filter

A dynamic filter is changed under a lock; after the lock is released, the new state is broadcast in
a watch channel, any with the laws of `Watch`: it keeps the last value only, and a value that is
sent while nobody is subscribed is not even kept. `wait_complete` reads the filter first and
subscribes if it is not complete; `wait_update` subscribes and waits for a later generation than
the channel has.

A run of `step` is any interleaving of these accesses, and a wait may be dropped at any time. Waits
end for a good reason only (`waits_end_rightly`). A completion that is broadcast to somebody ends
all waits for it, unless an update is broadcast after it (`completion_reaches_waiters`). A wait for
completion never ends without another completion exactly when none is in the channel or about to be
broadcast (`waits_forever_iff`). This happens if the filter is completed while a single waiter is
between its check and its subscription (`completion_lost`).
-/

namespace PredicateTransfer.DynamicFilterWaiters

open Runs

variable {S : Sig}

/-! ## States -/

inductive FilterState where
  | inProgress (generation : Nat)
  | complete (generation : Nat)
  deriving DecidableEq, Repr

namespace FilterState

def generation : FilterState → Nat
  | .inProgress generation | .complete generation => generation

def isComplete : FilterState → Bool
  | .inProgress _ => false
  | .complete _ => true

end FilterState

/-- Where a task is in a call. -/
inductive Task where
  | idle
  /-- `update` and `mark_complete` have released the lock. -/
  | broadcasting (state : FilterState)
  /-- `wait_complete` has read that the filter is not complete. -/
  | checked
  | waitComplete
  /-- `wait_update` has not read the generation yet. -/
  | subscribed
  | waitUpdate (generation : Nat)
  /-- `wait_complete` has returned. -/
  | completed
  /-- `wait_update` has returned, with the generation that it began with. -/
  | updated (generation : Nat)
  deriving DecidableEq, Repr

namespace Task

/-- The task has a receiver of the channel. -/
def hasReceiver : Task → Bool
  | .waitComplete | .subscribed | .waitUpdate _ => true
  | _ => false

/-- The task is at the `await` of a wait. -/
def waiting : Task → Bool
  | .waitComplete | .waitUpdate _ => true
  | _ => false

/-- The task is in no call. -/
def ready : Task → Bool
  | .idle | .completed | .updated _ => true
  | _ => false

end Task

structure State (S : Sig) (T : Watch FilterState) (ι : Type) where
  inner : DynamicFilter S
  stateWatch : T.Channel
  tasks : ι → Task

variable {T : Watch FilterState} {ι : Type}

/-- `DynamicFilterPhysicalExpr::new`. -/
def State.new (S : Sig) (T : Watch FilterState) (ι : Type) : State S T ι :=
  ⟨.new, T.new (.inProgress 1), fun _ => .idle⟩

/-- The value in the channel. -/
def State.watch (s : State S T ι) : FilterState := T.borrow s.stateWatch

def State.setTask [DecidableEq ι] (s : State S T ι) (i : ι) (t : Task) : State S T ι :=
  { s with tasks := Function.update s.tasks i t }

/-- The tasks that are subscribed. -/
def State.receivers [Fintype ι] (s : State S T ι) : Nat :=
  (Finset.univ.filter fun k => (s.tasks k).hasReceiver = true).card

/-- `state_watch.send`. -/
def State.send [Fintype ι] (s : State S T ι) (state : FilterState) : State S T ι :=
  { s with stateWatch := T.send s.stateWatch s.receivers state }

/-! ## Steps -/

/-- A task begins a call, or goes on with it, or drops the future of a wait. -/
inductive Call (S : Sig) (ι : Type) where
  | update (i : ι) (expr : Predicate S)
  | markComplete (i : ι)
  | waitComplete (i : ι)
  | waitUpdate (i : ι)
  | resume (i : ι)
  | dropWait (i : ι)

/-- The next access of a task to the channel, none if it has to wait. -/
def State.resume [DecidableEq ι] [Fintype ι] (s : State S T ι) (i : ι) : Option (State S T ι) :=
  match s.tasks i with
  | .broadcasting state => some ((s.send state).setTask i .idle)
  | .checked => some (s.setTask i .waitComplete)
  | .waitComplete => if s.watch.isComplete then some (s.setTask i .completed) else none
  | .subscribed => some (s.setTask i (.waitUpdate s.watch.generation))
  | .waitUpdate generation =>
    if generation < s.watch.generation then some (s.setTask i (.updated generation)) else none
  | .idle | .completed | .updated _ => none

def step [DecidableEq ι] [Fintype ι] (s : State S T ι) : Call S ι → Option (State S T ι)
  | .update i expr =>
    if (s.tasks i).ready then
      let inner := s.inner.update expr
      some ({ s with inner }.setTask i (.broadcasting (.inProgress inner.generation)))
    else none
  | .markComplete i =>
    if (s.tasks i).ready then
      some ({ s with inner := s.inner.markComplete }.setTask i
        (.broadcasting (.complete s.inner.generation)))
    else none
  | .waitComplete i =>
    if (s.tasks i).ready then
      some (s.setTask i (if s.inner.isComplete then .completed else .checked))
    else none
  | .waitUpdate i => if (s.tasks i).ready then some (s.setTask i .subscribed) else none
  | .resume i => s.resume i
  | .dropWait i => if (s.tasks i).waiting then some (s.setTask i .idle) else none

/-- The states of a filter. -/
def Reachable [DecidableEq ι] [Fintype ι] (s : State S T ι) : Prop :=
  Reaches step (fun _ _ => True) (State.new S T ι) s

/-- What a step does. -/
inductive Moves [DecidableEq ι] [Fintype ι] (s : State S T ι) : Call S ι → State S T ι → Prop
  | update {i : ι} (expr : Predicate S) (hi : (s.tasks i).ready = true) :
      Moves s (.update i expr) ({ s with inner := s.inner.update expr }.setTask i
        (.broadcasting (.inProgress (s.inner.generation + 1))))
  | markComplete {i : ι} (hi : (s.tasks i).ready = true) :
      Moves s (.markComplete i) ({ s with inner := s.inner.markComplete }.setTask i
        (.broadcasting (.complete s.inner.generation)))
  | findComplete {i : ι} (hi : (s.tasks i).ready = true) (hc : s.inner.isComplete = true) :
      Moves s (.waitComplete i) (s.setTask i .completed)
  | check {i : ι} (hi : (s.tasks i).ready = true) : Moves s (.waitComplete i) (s.setTask i .checked)
  | waitUpdate {i : ι} (hi : (s.tasks i).ready = true) :
      Moves s (.waitUpdate i) (s.setTask i .subscribed)
  | broadcast {i : ι} {state : FilterState} (hi : s.tasks i = .broadcasting state) :
      Moves s (.resume i) ((s.send state).setTask i .idle)
  | subscribe {i : ι} (hi : s.tasks i = .checked) : Moves s (.resume i) (s.setTask i .waitComplete)
  | complete {i : ι} (hi : s.tasks i = .waitComplete) (hc : s.watch.isComplete = true) :
      Moves s (.resume i) (s.setTask i .completed)
  | borrow {i : ι} (hi : s.tasks i = .subscribed) :
      Moves s (.resume i) (s.setTask i (.waitUpdate s.watch.generation))
  | seeUpdate {i : ι} {generation : Nat} (hi : s.tasks i = .waitUpdate generation)
      (hlt : generation < s.watch.generation) :
      Moves s (.resume i) (s.setTask i (.updated generation))
  | dropWait {i : ι} (hi : (s.tasks i).waiting = true) :
      Moves s (.dropWait i) (s.setTask i .idle)

theorem moves_of_resume [DecidableEq ι] [Fintype ι] {s t : State S T ι} {i : ι}
    (h : s.resume i = some t) : Moves s (.resume i) t := by
  rw [State.resume] at h
  cases hi : s.tasks i with
  | broadcasting state =>
    rw [hi] at h
    cases h
    exact .broadcast hi
  | checked =>
    rw [hi] at h
    cases h
    exact .subscribe hi
  | waitComplete =>
    rw [hi] at h
    obtain ⟨hc, h⟩ := Option.ite_none_right_eq_some.1 h
    cases h
    exact .complete hi hc
  | subscribed =>
    rw [hi] at h
    cases h
    exact .borrow hi
  | waitUpdate generation =>
    rw [hi] at h
    obtain ⟨hlt, h⟩ := Option.ite_none_right_eq_some.1 h
    cases h
    exact .seeUpdate hi hlt
  | idle => rw [hi] at h; cases h
  | completed => rw [hi] at h; cases h
  | updated generation => rw [hi] at h; cases h

theorem moves_of_step [DecidableEq ι] [Fintype ι] {s t : State S T ι} {a : Call S ι}
    (h : step s a = some t) : Moves s a t := by
  cases a with
  | update i expr =>
    obtain ⟨hi, h⟩ := Option.ite_none_right_eq_some.1 h
    cases h
    exact .update expr hi
  | markComplete i =>
    obtain ⟨hi, h⟩ := Option.ite_none_right_eq_some.1 h
    cases h
    exact .markComplete hi
  | waitComplete i =>
    obtain ⟨hi, h⟩ := Option.ite_none_right_eq_some.1 h
    cases h
    by_cases hc : s.inner.isComplete = true
    · rw [if_pos hc]
      exact .findComplete hi hc
    · rw [if_neg hc]
      exact .check hi
  | waitUpdate i =>
    obtain ⟨hi, h⟩ := Option.ite_none_right_eq_some.1 h
    cases h
    exact .waitUpdate hi
  | resume i => exact moves_of_resume h
  | dropWait i =>
    obtain ⟨hi, h⟩ := Option.ite_none_right_eq_some.1 h
    cases h
    exact .dropWait hi

/-! ## What a state says about the filter -/

/-- The filter was `f` before. -/
structure Later (f f' : DynamicFilter S) : Prop where
  generation : f.generation ≤ f'.generation
  isComplete : f.isComplete = true → f'.isComplete = true

/-- The state is one that the filter has had. -/
structure FilterState.Fits (f : DynamicFilter S) (state : FilterState) : Prop where
  generation : state.generation ≤ f.generation
  isComplete : state.isComplete = true → f.isComplete = true

def Task.Fits (f : DynamicFilter S) : Task → Prop
  | .broadcasting state => state.Fits f
  | .completed => f.isComplete = true
  | .waitUpdate generation => generation ≤ f.generation
  | .updated generation => generation < f.generation
  | _ => True

variable {f f' : DynamicFilter S}

theorem FilterState.Fits.mono {state : FilterState} (h : state.Fits f) (hlater : Later f f') :
    state.Fits f' :=
  ⟨h.generation.trans hlater.generation, fun hc => hlater.isComplete (h.isComplete hc)⟩

theorem Task.Fits.mono {t : Task} (h : t.Fits f) (hlater : Later f f') : t.Fits f' := by
  cases t with
  | broadcasting state => exact FilterState.Fits.mono h hlater
  | completed => exact hlater.isComplete h
  | waitUpdate generation => exact le_trans h hlater.generation
  | updated generation => exact lt_of_lt_of_le h hlater.generation
  | idle => trivial
  | checked => trivial
  | waitComplete => trivial
  | subscribed => trivial

/-- The channel and the tasks know nothing that was not so. -/
structure Inv (s : State S T ι) : Prop where
  watch : s.watch.Fits s.inner
  tasks : ∀ i, (s.tasks i).Fits s.inner

variable {s t : State S T ι} {i k : ι}

theorem inv_new : Inv (State.new S T ι) where
  watch := by
    rw [State.watch, State.new, T.borrow_new]
    exact ⟨le_rfl, fun h => by cases h⟩
  tasks _ := trivial

/-- A later filter fits all that was known. -/
theorem Inv.later (h : Inv s) (hlater : Later s.inner f) : Inv { s with inner := f } where
  watch := h.watch.mono hlater
  tasks i := (h.tasks i).mono hlater

/-- No completion is in the channel or about to be broadcast. -/
structure Quiet (s : State S T ι) : Prop where
  watch : s.watch.isComplete = false
  tasks : ∀ k state, s.tasks k = .broadcasting state → state.isComplete = false

/-- Whoever broadcasts a completion has completed the filter. -/
theorem Inv.quiet (h : Inv s) (hopen : s.inner.isComplete = false) : Quiet s := by
  have hfalse : ∀ state : FilterState, state.Fits s.inner → state.isComplete = false := by
    intro state hfits
    by_contra hc
    have hcomplete := hfits.isComplete (Bool.eq_true_of_not_eq_false hc)
    rw [hopen] at hcomplete
    cases hcomplete
  refine ⟨hfalse _ h.watch, fun k state hk => hfalse state ?_⟩
  have hfits := h.tasks k
  rwa [hk] at hfits

theorem ne_waitComplete_of_ready (h : (s.tasks k).ready = true) : s.tasks k ≠ .waitComplete := by
  intro hk
  rw [hk] at h
  cases h

section
variable [DecidableEq ι]

@[simp] theorem setTask_self (x : Task) : (s.setTask i x).tasks i = x := Function.update_self ..

theorem setTask_of_ne (h : k ≠ i) (x : Task) : (s.setTask i x).tasks k = s.tasks k :=
  Function.update_of_ne h ..

theorem Inv.setTask (h : Inv s) {x : Task} (hx : x.Fits s.inner) : Inv (s.setTask i x) where
  watch := h.watch
  tasks k := by
    by_cases hk : k = i
    · subst hk
      rw [setTask_self]
      exact hx
    · rw [setTask_of_ne hk]
      exact h.tasks k

theorem Quiet.setTask (h : Quiet s) {x : Task}
    (hx : ∀ state, x = .broadcasting state → state.isComplete = false) : Quiet (s.setTask i x) where
  watch := h.watch
  tasks k state hk := by
    by_cases hki : k = i
    · subst hki
      rw [setTask_self] at hk
      exact hx state hk
    · rw [setTask_of_ne hki] at hk
      exact h.tasks k state hk

end

variable [Fintype ι]

/-- A value that is sent is kept or lost. -/
theorem send_induct {P : FilterState → Prop} {state : FilterState} (hkept : P state)
    (hlost : P s.watch) : P (s.send state).watch :=
  Watch.borrow_send_induct hkept hlost

/-- Somebody hears it. -/
theorem send_of_receiver (h : (s.tasks i).hasReceiver = true) (state : FilterState) :
    (s.send state).watch = state := by
  refine T.borrow_send _ _ _ (Finset.card_pos.2 ⟨i, ?_⟩)
  exact Finset.mem_filter.2 ⟨Finset.mem_univ i, h⟩

/-- Nobody hears it. -/
theorem send_of_no_receiver (h : ∀ k, (s.tasks k).hasReceiver = false) (state : FilterState) :
    (s.send state).watch = s.watch := by
  have hnone : s.receivers = 0 := by
    rw [State.receivers, Finset.card_eq_zero, Finset.filter_eq_empty_iff]
    intro k _
    rw [h k]
    exact Bool.false_ne_true
  rw [State.watch, State.send, hnone, T.borrow_send_zero]
  rfl

theorem Inv.send (h : Inv s) {state : FilterState} (hstate : state.Fits s.inner) :
    Inv (s.send state) where
  watch := send_induct (P := fun state => state.Fits s.inner) hstate h.watch
  tasks := h.tasks

theorem Quiet.send (h : Quiet s) {state : FilterState} (hstate : state.isComplete = false) :
    Quiet (s.send state) where
  watch := send_induct (P := fun state => state.isComplete = false) hstate h.watch
  tasks := h.tasks

variable [DecidableEq ι]

theorem Inv.moves {a : Call S ι} (h : Inv s) (hmoves : Moves s a t) : Inv t := by
  cases hmoves with
  | update expr _ =>
    have hlater : Later s.inner (s.inner.update expr) := ⟨Nat.le_succ _, id⟩
    exact (h.later hlater).setTask ⟨le_rfl, fun hc => by cases hc⟩
  | markComplete _ =>
    have hlater : Later s.inner s.inner.markComplete := ⟨le_rfl, fun _ => rfl⟩
    exact (h.later hlater).setTask ⟨le_rfl, fun _ => rfl⟩
  | findComplete _ hc => exact h.setTask hc
  | check _ => exact h.setTask trivial
  | waitUpdate _ => exact h.setTask trivial
  | @broadcast i state hi =>
    have hfits := h.tasks i
    rw [hi] at hfits
    exact (h.send hfits).setTask trivial
  | subscribe _ => exact h.setTask trivial
  | complete _ hc => exact h.setTask (h.watch.isComplete hc)
  | borrow _ => exact h.setTask h.watch.generation
  | seeUpdate _ hlt => exact h.setTask (lt_of_lt_of_le hlt h.watch.generation)
  | dropWait _ => exact h.setTask trivial

theorem Reachable.inv (h : Reachable s) : Inv s :=
  Reaches.invariant h inv_new fun hinv _ hstep => hinv.moves (moves_of_step hstep)

/-- **Waits end for a good reason only.** A task that has waited for completion finds the filter
complete, and one that has waited for an update finds a later generation than it began with. -/
theorem waits_end_rightly (h : Reachable s) :
    (∀ i, s.tasks i = .completed → s.inner.isComplete = true) ∧
      ∀ i generation, s.tasks i = .updated generation → generation < s.inner.generation := by
  refine ⟨fun i hi => ?_, fun i generation hi => ?_⟩
  · have hfits := h.inv.tasks i
    rwa [hi] at hfits
  · have hfits := h.inv.tasks i
    rwa [hi] at hfits

/-- One task waits for completion. -/
def beforeCompletion : State rowSig (.ofCell _) Bool :=
  (run step (fun _ _ => True) (State.new rowSig (.ofCell _) Bool)
    [.waitComplete false, .resume false]).getD (State.new rowSig (.ofCell _) Bool)

/-- The other completes the filter and is about to say so. -/
def duringCompletion : State rowSig (.ofCell _) Bool :=
  (run step (fun _ _ => True) beforeCompletion [.markComplete true]).getD beforeCompletion

def afterCompletion : State rowSig (.ofCell _) Bool :=
  (run step (fun _ _ => True) duringCompletion [.resume true, .resume false]).getD duringCompletion

theorem waits_end_rightly_two :
    afterCompletion.tasks false = .completed ∧ afterCompletion.inner.isComplete = true := by
  have hreachable : Reachable afterCompletion :=
    Reaches.trans (t := duringCompletion)
      (Reaches.trans (t := beforeCompletion) reaches_getD_run reaches_getD_run) reaches_getD_run
  have hcompleted : afterCompletion.tasks false = .completed := by decide
  exact ⟨hcompleted, (waits_end_rightly hreachable).1 false hcompleted⟩

/-! ## Waits that end -/

/-- A wait for completion ends when there is one in the channel. -/
theorem step_waitComplete (hi : s.tasks i = .waitComplete) (hc : s.watch.isComplete = true) :
    step s (.resume i) = some (s.setTask i .completed) := by
  rw [step, State.resume, hi]
  exact if_pos hc

theorem step_broadcasting {state : FilterState} (hk : s.tasks k = .broadcasting state) :
    step s (.resume k) = some ((s.send state).setTask k .idle) := by
  rw [step, State.resume, hk]

/-- No broadcast of an update. -/
def NoUpdate (s : State S T ι) (a : Call S ι) : Prop :=
  ∀ k state, a = .resume k → s.tasks k = .broadcasting state → state.isComplete = true

theorem Moves.watch_isComplete {a : Call S ι} (h : Moves s a t) (hguard : NoUpdate s a)
    (hc : s.watch.isComplete = true) : t.watch.isComplete = true := by
  cases h with
  | @broadcast k state hk =>
    have hstate := hguard k state rfl hk
    exact send_induct (P := fun state => state.isComplete = true) hstate hc
  | _ => exact hc

/-- **A completion ends all waits.** Once a completion is broadcast while a task is subscribed,
for whatever it waits, and until an update is broadcast, every task that waits for completion
returns when it is polled. -/
theorem completion_reaches_waiters {state : FilterState} (hi : (s.tasks i).hasReceiver = true)
    (hk : s.tasks k = .broadcasting state) (hstate : state.isComplete = true) :
    ∃ t, step s (.resume k) = some t ∧ ∀ u, Reaches step NoUpdate t u →
      ∀ j, u.tasks j = .waitComplete →
        ∃ v, step u (.resume j) = some v ∧ v.tasks j = .completed := by
  refine ⟨_, step_broadcasting hk, fun u hu j hj => ?_⟩
  have hsent : (s.send state).watch.isComplete = true := by
    rw [send_of_receiver hi]
    exact hstate
  have hc : u.watch.isComplete = true :=
    Reaches.invariant (I := fun u => u.watch.isComplete = true) hu hsent
      fun hc hguard hstep => (moves_of_step hstep).watch_isComplete hguard hc
  exact ⟨_, step_waitComplete hj hc, setTask_self _⟩

theorem completion_reaches_waiters_two :
    duringCompletion.tasks false = .waitComplete ∧
    ∃ t, step duringCompletion (.resume true) = some t ∧ ∀ u, Reaches step NoUpdate t u →
      ∀ j, u.tasks j = .waitComplete →
        ∃ v, step u (.resume j) = some v ∧ v.tasks j = .completed := by
  have hwaits : duringCompletion.tasks false = .waitComplete := by decide
  have hbroadcasts : duringCompletion.tasks true = .broadcasting (.complete 1) := by decide
  exact ⟨hwaits, completion_reaches_waiters (i := false) rfl hbroadcasts rfl⟩

/-! ## Waits that do not end -/

/-- The filter is not completed again, and the task does not drop its wait. -/
structure NoRelief (i : ι) (_ : State S T ι) (a : Call S ι) : Prop where
  notMarked : ∀ k, a ≠ .markComplete k
  notDropped : a ≠ .dropWait i

omit [Fintype ι] [DecidableEq ι] in
theorem noRelief_resume : NoRelief i s (.resume k) where
  notMarked _ h := by cases h
  notDropped h := by cases h

theorem Quiet.moves {a : Call S ι} (h : Quiet s) (hguard : NoRelief i s a)
    (hmoves : Moves s a t) : Quiet t := by
  cases hmoves with
  | update expr _ =>
    have hquiet : Quiet { s with inner := s.inner.update expr } := ⟨h.watch, h.tasks⟩
    exact hquiet.setTask fun _ hx => by cases hx; rfl
  | markComplete _ => exact absurd rfl (hguard.notMarked _)
  | @broadcast k state hk => exact (h.send (h.tasks k state hk)).setTask fun _ hx => by cases hx
  | _ => exact h.setTask fun _ hx => by cases hx

/-- A task that waits goes on waiting where there is no completion. -/
theorem Quiet.waits {a : Call S ι} (h : Quiet s) (hi : s.tasks i = .waitComplete)
    (hguard : NoRelief i s a) (hmoves : Moves s a t) : t.tasks i = .waitComplete := by
  have hother : ∀ {s' : State S T ι} {k : ι} {x : Task}, s'.tasks = s.tasks →
      s.tasks k ≠ .waitComplete → (s'.setTask k x).tasks i = .waitComplete := by
    intro s' k x hs' hk
    have hne : i ≠ k := fun hik => hk (hik ▸ hi)
    rw [setTask_of_ne hne, hs', hi]
  cases hmoves with
  | update expr hk => exact hother rfl (ne_waitComplete_of_ready hk)
  | markComplete hk => exact hother rfl (ne_waitComplete_of_ready hk)
  | findComplete hk _ => exact hother rfl (ne_waitComplete_of_ready hk)
  | check hk => exact hother rfl (ne_waitComplete_of_ready hk)
  | waitUpdate hk => exact hother rfl (ne_waitComplete_of_ready hk)
  | broadcast hk => exact hother rfl (by simp [hk])
  | subscribe hk => exact hother rfl (by simp [hk])
  | complete _ hc => exact absurd hc (by simp [h.watch])
  | borrow hk => exact hother rfl (by simp [hk])
  | seeUpdate hk _ => exact hother rfl (by simp [hk])
  | @dropWait k _ =>
    have hne : i ≠ k := fun hik => hguard.notDropped (hik ▸ rfl)
    rw [setTask_of_ne hne, hi]

theorem Quiet.waits_forever (h : Quiet s) (hi : s.tasks i = .waitComplete)
    (ht : Reaches step (NoRelief i) s t) : t.tasks i = .waitComplete := by
  have hinv : Quiet t ∧ t.tasks i = .waitComplete :=
    Reaches.invariant (I := fun t => Quiet t ∧ t.tasks i = .waitComplete) ht ⟨h, hi⟩
      fun hinv hguard hstep => ⟨hinv.1.moves hguard (moves_of_step hstep),
        hinv.1.waits hinv.2 hguard (moves_of_step hstep)⟩
  exact hinv.2

/-- **When a wait for completion does not end**: unless the filter is completed again or the wait is
dropped, exactly when no completion is in the channel and none is about to be broadcast, even if
the filter is complete. -/
theorem waits_forever_iff (hi : s.tasks i = .waitComplete) :
    (∀ t, Reaches step (NoRelief i) s t → t.tasks i = .waitComplete) ↔ Quiet s := by
  constructor
  · intro hforever
    refine ⟨?_, fun k state hk => ?_⟩
    · by_contra hc
      have hc := Bool.eq_true_of_not_eq_false hc
      have hend := hforever _ (.tail .refl noRelief_resume (step_waitComplete hi hc))
      rw [setTask_self] at hend
      cases hend
    · by_contra hc
      have hc := Bool.eq_true_of_not_eq_false hc
      -- The completion is broadcast, and then the task is polled.
      have hne : i ≠ k := fun hik => by
        rw [← hik, hi] at hk
        cases hk
      have hi' : ((s.send state).setTask k .idle).tasks i = .waitComplete := by
        rw [setTask_of_ne hne]
        exact hi
      have hsent : ((s.send state).setTask k .idle).watch.isComplete = true := by
        show (s.send state).watch.isComplete = true
        rw [send_of_receiver (by rw [hi]; rfl)]
        exact hc
      have hend := hforever _ (.tail (.tail .refl noRelief_resume (step_broadcasting hk))
        noRelief_resume (step_waitComplete hi' hsent))
      rw [setTask_self] at hend
      cases hend
  · intro hquiet t ht
    exact hquiet.waits_forever hi ht

/-- With nothing broadcast the wait does not end; with a completion on its way it can. -/
theorem waits_forever_iff_two :
    (∀ t, Reaches step (NoRelief false) beforeCompletion t → t.tasks false = .waitComplete) ∧
    ¬ ∀ t, Reaches step (NoRelief false) duringCompletion t → t.tasks false = .waitComplete := by
  constructor
  · refine (waits_forever_iff (by decide)).2 ⟨by decide, fun k state hk => ?_⟩
    cases k <;> cases hk
  · intro hforever
    have hquiet := (waits_forever_iff (by decide)).1 hforever
    have hbroadcasts : duringCompletion.tasks true = .broadcasting (.complete 1) := by decide
    cases hquiet.tasks true _ hbroadcasts

/-- **A completion can be lost.** If the filter is completed after a task has read that it is not,
and before the task subscribes, and nobody else is subscribed, the completion is not kept in the
channel. The filter is complete then, and the task waits until it is completed again or the wait
is dropped. -/
theorem completion_lost (h : Reachable s) (hopen : s.inner.isComplete = false)
    (hnone : ∀ j, (s.tasks j).hasReceiver = false) (hi : (s.tasks i).ready = true)
    (hk : (s.tasks k).ready = true) (hne : i ≠ k) :
    ∃ t, run step (fun _ _ => True) s
        [.waitComplete i, .markComplete k, .resume k, .resume i] = some t ∧
      t.inner.isComplete = true ∧
      ∀ u, Reaches step (NoRelief i) t u → u.tasks i = .waitComplete := by
  let s₁ := s.setTask i .checked
  let marked : State S T ι := { s₁ with inner := s.inner.markComplete }
  let s₂ := marked.setTask k (.broadcasting (.complete s.inner.generation))
  let s₃ := (s₂.send (.complete s.inner.generation)).setTask k .idle
  have hcheck : step s (.waitComplete i) = some s₁ := by
    rw [step, if_pos hi, hopen]
    rfl
  have hk₁ : (s₁.tasks k).ready = true := by
    rw [setTask_of_ne hne.symm]
    exact hk
  have hmark : step s₁ (.markComplete k) = some s₂ := if_pos hk₁
  have hnone₂ : ∀ j, (s₂.tasks j).hasReceiver = false := by
    intro j
    by_cases hjk : j = k
    · rw [hjk, setTask_self]
      rfl
    · rw [setTask_of_ne hjk]
      change ((s.setTask i .checked).tasks j).hasReceiver = false
      by_cases hji : j = i
      · rw [hji, setTask_self]
        rfl
      · rw [setTask_of_ne hji]
        exact hnone j
  have hsend : step s₂ (.resume k) = some s₃ := by
    rw [step, State.resume, setTask_self]
  have hrest : ∀ j, j ≠ k → s₃.tasks j = s₁.tasks j := by
    intro j hjk
    have hsent : s₃.tasks j = s₂.tasks j := setTask_of_ne hjk _
    rw [hsent, setTask_of_ne hjk]
  have hi₃ : s₃.tasks i = .checked := by
    rw [hrest i hne, setTask_self]
  have hsubscribe : step s₃ (.resume i) = some (s₃.setTask i .waitComplete) := by
    rw [step, State.resume, hi₃]
  have hquiet₁ : Quiet s₁ := (h.inv.quiet hopen).setTask fun _ hx => by cases hx
  have hwatch : s₃.watch = s₁.watch := send_of_no_receiver hnone₂ _
  have hquiet₃ : Quiet s₃ := by
    refine ⟨hwatch ▸ hquiet₁.watch, fun j state hj => ?_⟩
    by_cases hjk : j = k
    · rw [hjk, setTask_self] at hj
      cases hj
    · rw [hrest j hjk] at hj
      exact hquiet₁.tasks j state hj
  have hquiet : Quiet (s₃.setTask i .waitComplete) := hquiet₃.setTask fun _ hx => by cases hx
  refine ⟨_, ?_, rfl, fun u hu => hquiet.waits_forever (setTask_self _) hu⟩
  simp only [run, if_pos, hcheck, hmark, hsend, hsubscribe, Option.bind_some]

theorem completion_lost_two : ∃ t : State rowSig (.ofCell _) Bool,
    run step (fun _ _ => True) (State.new rowSig (.ofCell _) Bool)
        [.waitComplete false, .markComplete true, .resume true, .resume false] = some t ∧
      t.inner.isComplete = true ∧
      ∀ u, Reaches step (NoRelief false) t u → u.tasks false = .waitComplete :=
  completion_lost .refl rfl (fun _ => rfl) rfl rfl (by decide)

end PredicateTransfer.DynamicFilterWaiters
