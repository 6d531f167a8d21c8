import PredicateTransfer.Repartition.RepartitionExec

/-!
# The lanes of a repartition

What the tasks have sent to a lane is what its stream has returned, what is in the channel, what
is in the spill pool and what waits to be sent (`LaneOk`). A marker does not say whose batch it
stands for, so with several inputs this holds of the bags only. The lane of a single input keeps
the order too (`InOrder`).
-/

namespace PredicateTransfer.Repartition

variable {ρ ε : Type}

namespace Msg

def batch? : Msg ρ ε → Option (List ρ)
  | .memory batch => some batch
  | .spilled | .error _ | .done => none

def error? : Msg ρ ε → Option ε
  | .error e => some e
  | .memory _ | .spilled | .done => none

def isSpilled : Msg ρ ε → Bool
  | .spilled => true
  | .memory _ | .error _ | .done => false

def isDone : Msg ρ ε → Bool
  | .done => true
  | .memory _ | .spilled | .error _ => false

/-- The last message of a task. -/
def isLast : Msg ρ ε → Bool
  | .done | .error _ => true
  | .memory _ | .spilled => false

end Msg

def error? : Except ε (List ρ) → Option ε
  | .ok _ => none
  | .error e => some e

namespace Lane

/-- The batches that the stream has returned. -/
def returned (l : Lane ρ ε) : List (List ρ) := l.out.filterMap Except.toOption

/-- The errors that it has returned. -/
def errors (l : Lane ρ ε) : List ε := l.out.filterMap error?

/-- The batches in the channel. -/
def queued (l : Lane ρ ε) : List (List ρ) := l.queue.filterMap Msg.batch?

/-- The markers that have not led to a spilled batch yet. -/
def markers (l : Lane ρ ε) : Nat :=
  l.queue.countP Msg.isSpilled + if l.state = .readingSpilled then 1 else 0

end Lane

/-- What tasks contribute to a lane. -/
@[ext]
structure Feed (ρ ε : Type) where
  /-- What they have sent, and what of it waits to be put in the channel, as a batch or as a
  marker. -/
  sent : Multiset (List ρ)
  inMemory : Multiset (List ρ)
  inSpilled : Nat
  /-- How many have yet to tell their end. -/
  opened : Nat
  /-- The errors of those that told one. -/
  failed : Multiset ε

namespace Feed

instance : Add (Feed ρ ε) where
  add a b := ⟨a.sent + b.sent, a.inMemory + b.inMemory, a.inSpilled + b.inSpilled,
    a.opened + b.opened, a.failed + b.failed⟩

instance : Zero (Feed ρ ε) where
  zero := ⟨0, 0, 0, 0, 0⟩

section
variable (a b : Feed ρ ε)

@[simp] theorem sent_add : (a + b).sent = a.sent + b.sent := rfl
@[simp] theorem inMemory_add : (a + b).inMemory = a.inMemory + b.inMemory := rfl
@[simp] theorem inSpilled_add : (a + b).inSpilled = a.inSpilled + b.inSpilled := rfl
@[simp] theorem opened_add : (a + b).opened = a.opened + b.opened := rfl
@[simp] theorem failed_add : (a + b).failed = a.failed + b.failed := rfl
@[simp] theorem sent_zero : (0 : Feed ρ ε).sent = 0 := rfl
@[simp] theorem inMemory_zero : (0 : Feed ρ ε).inMemory = 0 := rfl
@[simp] theorem inSpilled_zero : (0 : Feed ρ ε).inSpilled = 0 := rfl
@[simp] theorem opened_zero : (0 : Feed ρ ε).opened = 0 := rfl
@[simp] theorem failed_zero : (0 : Feed ρ ε).failed = 0 := rfl

end

instance : AddCommMonoid (Feed ρ ε) where
  add_assoc a b c := by ext1 <;> simp [add_assoc]
  zero_add a := by ext1 <;> simp
  add_zero a := by ext1 <;> simp
  add_comm a b := by ext1 <;> simp [add_comm]
  nsmul := nsmulRec

section
variable {ι : Type} (is : Finset ι) (f : ι → Feed ρ ε)

theorem sent_sum : (∑ i ∈ is, f i).sent = ∑ i ∈ is, (f i).sent :=
  map_sum (⟨⟨Feed.sent, rfl⟩, fun _ _ => rfl⟩ : Feed ρ ε →+ Multiset (List ρ)) f is

theorem inMemory_sum : (∑ i ∈ is, f i).inMemory = ∑ i ∈ is, (f i).inMemory :=
  map_sum (⟨⟨Feed.inMemory, rfl⟩, fun _ _ => rfl⟩ : Feed ρ ε →+ Multiset (List ρ)) f is

theorem inSpilled_sum : (∑ i ∈ is, f i).inSpilled = ∑ i ∈ is, (f i).inSpilled :=
  map_sum (⟨⟨Feed.inSpilled, rfl⟩, fun _ _ => rfl⟩ : Feed ρ ε →+ Nat) f is

theorem opened_sum : (∑ i ∈ is, f i).opened = ∑ i ∈ is, (f i).opened :=
  map_sum (⟨⟨Feed.opened, rfl⟩, fun _ _ => rfl⟩ : Feed ρ ε →+ Nat) f is

theorem failed_sum : (∑ i ∈ is, f i).failed = ∑ i ∈ is, (f i).failed :=
  map_sum (⟨⟨Feed.failed, rfl⟩, fun _ _ => rfl⟩ : Feed ρ ε →+ Multiset ε) f is

end

end Feed

/-- How a lane and the tasks that feed it fit together. -/
structure LaneOk (l : Lane ρ ε) (f : Feed ρ ε) : Prop where
  batches : (l.returned + l.queued + l.spill : Multiset (List ρ)) + f.inMemory = f.sent
  markers : l.markers + f.inSpilled = l.spill.length
  remaining : l.remainingPartitions = f.opened + f.failed.card + l.queue.countP Msg.isDone
  errors : (l.errors + l.queue.filterMap Msg.error? : Multiset ε) = f.failed
  /-- Nobody sends after its end. -/
  last : f.opened = 0 → l.queue = [] ∨
    ∃ queue msg, l.queue = queue ++ [msg] ∧ msg.isLast = true
  ended : l.ended = true → f.opened = 0 ∧ l.queue = [] ∧ l.state = .readingMemory

namespace LaneOk

variable {l : Lane ρ ε} {f : Feed ρ ε} {batch : List ρ} {queue : List (Msg ρ ε)}

/-! ## Sending -/

theorem grant (h : LaneOk l f) : LaneOk l (⟨{batch}, {batch}, 0, 0, 0⟩ + f) := by
  refine ⟨?_, ?_, ?_, ?_, ?_, ?_⟩
  · rw [Feed.sent_add, Feed.inMemory_add, ← h.batches]
    abel
  · simpa using h.markers
  · simpa using h.remaining
  · simpa using h.errors
  · simpa using h.last
  · simpa using h.ended

theorem spill (h : LaneOk l f) :
    LaneOk { l with spill := l.spill ++ [batch] } (⟨{batch}, 0, 1, 0, 0⟩ + f) := by
  refine ⟨?_, ?_, ?_, ?_, ?_, ?_⟩
  · rw [Feed.sent_add, Feed.inMemory_add, ← h.batches, ← Multiset.coe_add, Multiset.coe_singleton]
    simp only [Lane.returned, Lane.queued]
    abel
  · have hmarkers := h.markers
    simp only [Lane.markers, List.length_append, List.length_singleton, Feed.inSpilled_add]
      at hmarkers ⊢
    omega
  · simpa using h.remaining
  · simpa [Lane.errors] using h.errors
  · simpa using h.last
  · simpa using h.ended

/-- A task puts a message in the channel. -/
theorem push {msg : Msg ρ ε}
    (h : LaneOk l (⟨0, msg.batch?.toList, msg.isSpilled.toNat, msg.isLast.toNat, 0⟩ + f))
    (hopened : 0 < f.opened ∨ msg.isLast = true) :
    LaneOk { l with queue := l.queue ++ [msg] } (⟨0, 0, 0, 0, msg.error?.toList⟩ + f) := by
  have hnot : msg.isLast.toNat + f.opened ≠ 0 := by
    rcases hopened with hpos | hlast
    · omega
    · simp [hlast]
  obtain ⟨hbatches, hmarkers, hremaining, herrors, -, hended⟩ := h
  simp only [Feed.sent_add, Feed.inMemory_add, Feed.inSpilled_add, Feed.opened_add, Feed.failed_add,
    zero_add] at hbatches hmarkers hremaining herrors hended
  refine ⟨?_, ?_, ?_, ?_, fun hzero => ?_, fun h => absurd (hended h).1 hnot⟩
  · simp only [Feed.sent_add, Feed.inMemory_add, zero_add, ← hbatches]
    cases msg <;>
      simp [Lane.returned, Lane.queued, Msg.batch?, ← Multiset.coe_add, -Multiset.singleton_add]
    abel
  · cases msg <;> simp [Lane.markers, Msg.isSpilled] at hmarkers ⊢ <;> omega
  · cases msg <;> simp [Msg.isLast, Msg.isDone, Msg.error?] at hremaining ⊢ <;> omega
  · simp only [Feed.failed_add, ← herrors]
    cases msg <;>
      simp [Lane.errors, Msg.error?, ← Multiset.coe_add, -Multiset.singleton_add]
    abel
  · have hlast := hopened.resolve_left (by simp at hzero; omega)
    exact .inr ⟨l.queue, msg, rfl, hlast⟩

/-! ## Receiving -/

theorem last_of_cons {msg : Msg ρ ε} (h : LaneOk l f) (hq : l.queue = msg :: queue)
    (hzero : f.opened = 0) :
    queue = [] ∨ ∃ queue' msg', queue = queue' ++ [msg'] ∧ msg'.isLast = true := by
  rcases h.last hzero with hnil | ⟨queue', msg', hqueue, hlast⟩
  · rw [hnil] at hq
    cases hq
  · rw [hqueue] at hq
    cases queue' with
    | nil =>
      cases hq
      exact .inl rfl
    | cons x xs =>
      cases hq
      exact .inr ⟨xs, msg', rfl, hlast⟩

theorem recv_memory (h : LaneOk l f) (hended : l.ended = false)
    (hq : l.queue = .memory batch :: queue) :
    LaneOk { l with queue := queue, out := l.out ++ [.ok batch] } f := by
  refine ⟨?_, ?_, ?_, ?_, h.last_of_cons hq, fun h => (by simp [hended] at h)⟩
  · rw [← h.batches]
    simp only [Lane.returned, Lane.queued, hq, List.filterMap_append, List.filterMap_cons,
      List.filterMap_nil, Msg.batch?, Except.toOption, ← Multiset.coe_add, ← Multiset.cons_coe,
      ← Multiset.singleton_add, Multiset.coe_nil]
    abel
  · simpa [Lane.markers, hq, Msg.isSpilled] using h.markers
  · simpa [hq, Msg.isDone] using h.remaining
  · simpa [Lane.errors, hq, List.filterMap_cons, Msg.error?, error?] using h.errors

theorem recv_spilled (h : LaneOk l f) (hended : l.ended = false)
    (hstate : l.state = .readingMemory) (hq : l.queue = .spilled :: queue) :
    LaneOk { l with queue := queue, state := .readingSpilled } f := by
  refine ⟨?_, ?_, ?_, ?_, h.last_of_cons hq, fun h => (by simp [hended] at h)⟩
  · simpa [Lane.returned, Lane.queued, hq, List.filterMap_cons, Msg.batch?] using h.batches
  · simpa [Lane.markers, hq, hstate, List.countP_cons, Msg.isSpilled] using h.markers
  · simpa [hq, Msg.isDone] using h.remaining
  · simpa [Lane.errors, hq, List.filterMap_cons, Msg.error?] using h.errors

theorem recv_error {e : ε} (h : LaneOk l f) (hended : l.ended = false)
    (hq : l.queue = .error e :: queue) :
    LaneOk { l with queue := queue, out := l.out ++ [.error e] } f := by
  refine ⟨?_, ?_, ?_, ?_, h.last_of_cons hq, fun h => (by simp [hended] at h)⟩
  · simpa [Lane.returned, Lane.queued, hq, List.filterMap_cons, Msg.batch?, Except.toOption]
      using h.batches
  · simpa [Lane.markers, hq, Msg.isSpilled] using h.markers
  · simpa [hq, Msg.isDone] using h.remaining
  · rw [← h.errors]
    simp only [Lane.errors, hq, List.filterMap_append, List.filterMap_cons, List.filterMap_nil,
      Msg.error?, error?, ← Multiset.coe_add, ← Multiset.cons_coe, ← Multiset.singleton_add,
      Multiset.coe_nil]
    abel

/-- There is a task that is to end for every `done` in the channel. -/
theorem remaining_pos (h : LaneOk l f) (hq : l.queue = .done :: queue) :
    l.remainingPartitions = f.opened + f.failed.card + queue.countP Msg.isDone + 1 := by
  have hremaining := h.remaining
  simp only [hq, List.countP_cons, Msg.isDone, if_true] at hremaining
  omega

theorem recv_done (h : LaneOk l f) (hstate : l.state = .readingMemory)
    (hq : l.queue = .done :: queue) :
    LaneOk { l with
      queue := queue
      remainingPartitions := l.remainingPartitions - 1
      ended := l.remainingPartitions - 1 = 0 } f := by
  have hpos := h.remaining_pos hq
  have herrors := h.errors
  refine ⟨?_, ?_, ?_, ?_, h.last_of_cons hq, fun hended => ?_⟩
  · simpa [Lane.returned, Lane.queued, hq, List.filterMap_cons, Msg.batch?] using h.batches
  · simpa [Lane.markers, hq, List.countP_cons, Msg.isSpilled] using h.markers
  · dsimp only
    omega
  · simpa [Lane.errors, hq, List.filterMap_cons, Msg.error?] using h.errors
  · -- All have told their end, and what is left in the channel would end with such a message.
    have hzero : l.remainingPartitions - 1 = 0 := by simpa using hended
    have hfailed : f.failed = 0 := Multiset.card_eq_zero.1 (by omega)
    have hdone : queue.countP Msg.isDone = 0 := by omega
    rw [hfailed, hq, List.filterMap_cons_none rfl] at herrors
    have herror : queue.filterMap Msg.error? = [] :=
      (Multiset.coe_eq_zero _).1 (add_eq_zero.1 herrors).2
    have hopened : f.opened = 0 := by omega
    refine ⟨hopened, ?_, hstate⟩
    rcases h.last_of_cons hq hopened with hnil | ⟨queue', msg, rfl, hlast⟩
    · exact hnil
    · have h₁ := List.countP_eq_zero.1 hdone msg (by simp)
      have h₂ := List.filterMap_eq_nil_iff.1 herror msg (by simp)
      cases msg <;> simp [Msg.isLast, Msg.isDone, Msg.error?] at hlast h₁ h₂

theorem recv_closed (h : LaneOk l f) (hopened : f.opened = 0) (hstate : l.state = .readingMemory)
    (hq : l.queue = []) : LaneOk { l with ended := true } f :=
  ⟨h.batches, h.markers, h.remaining, h.errors, h.last, fun _ => ⟨hopened, hq, hstate⟩⟩

theorem recv_batch {spill : List (List ρ)} (h : LaneOk l f) (hended : l.ended = false)
    (hstate : l.state = .readingSpilled) (hspill : l.spill = batch :: spill) :
    LaneOk { l with spill := spill, state := .readingMemory, out := l.out ++ [.ok batch] } f := by
  refine ⟨?_, ?_, h.remaining, ?_, h.last, fun h => (by simp [hended] at h)⟩
  · rw [← h.batches]
    simp only [Lane.returned, Lane.queued, hspill, List.filterMap_append, List.filterMap_cons,
      List.filterMap_nil, Except.toOption, ← Multiset.coe_add, ← Multiset.cons_coe,
      ← Multiset.singleton_add, Multiset.coe_nil]
    abel
  · have hmarkers := h.markers
    simp only [Lane.markers, hstate, hspill, if_true, List.length_cons] at hmarkers ⊢
    simp
    omega
  · simpa [Lane.errors, List.filterMap_cons, error?] using h.errors

/-- A marker always has a batch in the pool. -/
theorem spill_ne_nil (h : LaneOk l f) (hstate : l.state = .readingSpilled) : l.spill ≠ [] := by
  intro hnil
  have hmarkers := h.markers
  simp [Lane.markers, hstate, hnil] at hmarkers

/-- An ended stream has returned everything. -/
theorem returned_eq (h : LaneOk l f) (hended : l.ended = true) (hmemory : f.inMemory = 0)
    (hspilled : f.inSpilled = 0) :
    (l.returned : Multiset (List ρ)) = f.sent ∧ (l.errors : Multiset ε) = f.failed := by
  obtain ⟨-, hq, hstate⟩ := h.ended hended
  have hmarkers := h.markers
  have hspill : l.spill = [] := List.eq_nil_of_length_eq_zero (by
    simpa [Lane.markers, hq, hstate, hspilled] using hmarkers.symm)
  refine ⟨?_, ?_⟩
  · simpa [Lane.queued, hq, hspill, hmemory] using h.batches
  · simpa [hq] using h.errors

end LaneOk

/-! ## The order -/

/-- The batches of the messages in their order, each marker standing for the next spilled one. -/
def interleave : List (Msg ρ ε) → List (List ρ) → List (List ρ)
  | [], _ => []
  | .memory batch :: msgs, spill => batch :: interleave msgs spill
  | .spilled :: msgs, batch :: spill => batch :: interleave msgs spill
  | .spilled :: msgs, [] => interleave msgs []
  | .error _ :: msgs, spill | .done :: msgs, spill => interleave msgs spill

theorem interleave_memory (msgs : List (Msg ρ ε)) (spill : List (List ρ)) (batch : List ρ) :
    interleave (msgs ++ [.memory batch]) spill = interleave msgs spill ++ [batch] := by
  fun_induction interleave msgs spill <;> simp_all [interleave]

theorem interleave_last (msgs : List (Msg ρ ε)) (spill : List (List ρ)) {msg : Msg ρ ε}
    (hmsg : msg.isLast = true) : interleave (msgs ++ [msg]) spill = interleave msgs spill := by
  fun_induction interleave msgs spill with
  | case1 => cases msg <;> simp [Msg.isLast, interleave] at hmsg ⊢
  | _ => simp_all [interleave]

theorem interleave_spilled {msgs : List (Msg ρ ε)} {spill : List (List ρ)} (batch : List ρ)
    (h : msgs.countP Msg.isSpilled = spill.length) :
    interleave (msgs ++ [.spilled]) (spill ++ [batch]) = interleave msgs spill ++ [batch] := by
  fun_induction interleave msgs spill with
  | case1 spill =>
    obtain rfl : spill = [] := List.eq_nil_of_length_eq_zero h.symm
    rfl
  | case2 batch' msgs spill ih =>
    simp [interleave, ih (by simpa [List.countP_cons, Msg.isSpilled] using h)]
  | case3 msgs batch' spill ih =>
    simp [interleave, ih (by simpa [List.countP_cons, Msg.isSpilled] using h)]
  | case4 msgs ih => simp [Msg.isSpilled] at h
  | case5 e msgs spill ih =>
    simp [interleave, ih (by simpa [List.countP_cons, Msg.isSpilled] using h)]
  | case6 msgs spill ih =>
    simp [interleave, ih (by simpa [List.countP_cons, Msg.isSpilled] using h)]

/-- The messages that the stream has yet to deal with. -/
def Lane.pending (l : Lane ρ ε) : List (Msg ρ ε) :=
  match l.state with
  | .readingMemory => l.queue
  | .readingSpilled => .spilled :: l.queue

theorem Lane.countP_pending (l : Lane ρ ε) : l.pending.countP Msg.isSpilled = l.markers := by
  cases hstate : l.state <;>
    simp [Lane.pending, Lane.markers, hstate, List.countP_cons, Msg.isSpilled]

/-- The stream returns what was sent in the order in which it was sent. -/
def InOrder (l : Lane ρ ε) (sent : List (List ρ)) (waiting : Option (Msg ρ ε)) : Prop :=
  l.returned ++ interleave (l.pending ++ waiting.toList) l.spill = sent

namespace InOrder

variable {l : Lane ρ ε} {sent : List (List ρ)} {waiting : Option (Msg ρ ε)} {batch : List ρ}
  {queue : List (Msg ρ ε)}

theorem grant (h : InOrder l sent none) : InOrder l (sent ++ [batch]) (some (.memory batch)) := by
  rw [InOrder, ← h]
  simp [interleave_memory]

theorem spill (h : InOrder l sent none) (hmarkers : l.markers = l.spill.length) :
    InOrder { l with spill := l.spill ++ [batch] } (sent ++ [batch]) (some .spilled) := by
  have hcount : l.pending.countP Msg.isSpilled = l.spill.length := by
    rw [l.countP_pending, hmarkers]
  have hinterleave := interleave_spilled batch hcount
  rw [InOrder, Option.toList_none, List.append_nil] at h
  rw [InOrder, ← h, List.append_assoc, ← hinterleave]
  rfl

theorem pending_push (l : Lane ρ ε) (msg : Msg ρ ε) :
    Lane.pending { l with queue := l.queue ++ [msg] } = l.pending ++ [msg] := by
  cases hstate : l.state <;> simp [Lane.pending, hstate]

theorem push {msg : Msg ρ ε} (h : InOrder l sent (some msg)) :
    InOrder { l with queue := l.queue ++ [msg] } sent none := by
  rw [InOrder, pending_push, ← h]
  simp [Lane.returned]

theorem push_last {msg : Msg ρ ε} (h : InOrder l sent none) (hmsg : msg.isLast = true) :
    InOrder { l with queue := l.queue ++ [msg] } sent none := by
  rw [InOrder, pending_push, ← h]
  simp [Lane.returned, interleave_last _ _ hmsg]

theorem recv_memory (h : InOrder l sent waiting) (hstate : l.state = .readingMemory)
    (hq : l.queue = .memory batch :: queue) :
    InOrder { l with queue := queue, out := l.out ++ [.ok batch] } sent waiting := by
  rw [InOrder, ← h]
  simp [Lane.returned, Lane.pending, hstate, hq, interleave, Except.toOption]

theorem recv_spilled (h : InOrder l sent waiting) (hstate : l.state = .readingMemory)
    (hq : l.queue = .spilled :: queue) :
    InOrder { l with queue := queue, state := .readingSpilled } sent waiting := by
  rw [InOrder, ← h]
  simp [Lane.returned, Lane.pending, hstate, hq]

theorem recv_error {e : ε} (h : InOrder l sent waiting) (hstate : l.state = .readingMemory)
    (hq : l.queue = .error e :: queue) :
    InOrder { l with queue := queue, out := l.out ++ [.error e] } sent waiting := by
  rw [InOrder, ← h]
  simp [Lane.returned, Lane.pending, hstate, hq, interleave, Except.toOption]

theorem recv_done {remaining : Nat} {ended : Bool} (h : InOrder l sent waiting)
    (hstate : l.state = .readingMemory) (hq : l.queue = .done :: queue) :
    InOrder { l with queue := queue, remainingPartitions := remaining, ended := ended } sent
      waiting := by
  rw [InOrder, ← h]
  simp [Lane.returned, Lane.pending, hstate, hq, interleave]

theorem recv_batch {spill : List (List ρ)} (h : InOrder l sent waiting)
    (hstate : l.state = .readingSpilled) (hspill : l.spill = batch :: spill) :
    InOrder { l with spill := spill, state := .readingMemory, out := l.out ++ [.ok batch] } sent
      waiting := by
  rw [InOrder, ← h]
  simp [Lane.returned, Lane.pending, hstate, hspill, interleave, Except.toOption]

end InOrder

end PredicateTransfer.Repartition
