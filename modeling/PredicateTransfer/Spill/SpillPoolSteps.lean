import PredicateTransfer.Lib.CountingGate
import PredicateTransfer.Lib.SegmentedLog
import PredicateTransfer.Spill.SpillPool

/-!
# The steps of the spill pool

What each step of a writer or of the reader does, said once:

* *files* (`Moves`): a file is held by at most one writer, or lies in the shared state, and who
  holds it finds it open (`Holding`);
* *writers* (`Counting`): the last writer to go is alone, and the pool is closed after it;
* *the reader* (`Follows`): it reads the front of the queue, and what it waits for does not change
  without waking it (`Behind`);
* *batches*: the files are the segments of a log (`State.log`), and a step of the pool is a step of
  the log.

`Inv.step` puts these together, for any interleaving.
-/

namespace PredicateTransfer.SpillPool

open AsyncQueue CountingGate Runs SegmentedLog

variable {ι β : Type} [DecidableEq ι]

/-! ## Holding files -/

/-- The file that the writer has taken. -/
def Writer.held : Writer β → Option Nat
  | .appending _ f | .returning f | .finishing f => some f
  | .absent | .idle | .creating _ | .closing => none

/-- The last writer is in `drop`. -/
def Writer.ending : Writer β → Bool
  | .finishing _ | .closing => true
  | .absent | .idle | .creating _ | .appending _ _ | .returning _ => false

/-- Who has which file: a writer, or the shared state. -/
def State.holds (s : State ι β) : Option ι → Option Nat
  | none => s.currentWriteFile
  | some i => (s.writers i).held

/-- Nobody shares a file. -/
def Exclusive {κ : Type} (holds : κ → Option Nat) : Prop :=
  ∀ p q f, holds p = some f → holds q = some f → p = q

/-- Two holders exchange files, or get one that nobody has. -/
theorem Exclusive.update {κ : Type} [DecidableEq κ] {holds : κ → Option Nat} {p q : κ}
    {x y : Option Nat} (h : Exclusive holds)
    (hx : ∀ f, x = some f → holds p = some f ∨ holds q = some f ∨ ∀ r, holds r ≠ some f)
    (hy : ∀ f, y = some f → holds p = some f ∨ holds q = some f ∨ ∀ r, holds r ≠ some f)
    (hxy : ∀ f, x = some f → y ≠ some f) :
    Exclusive (Function.update (Function.update holds p x) q y) := by
  intro r r' f hr hr'
  simp only [Function.update_apply] at hr hr'
  grind [Exclusive]

/-- The files that are held are open. -/
structure Holding (s : State ι β) : Prop where
  held : ∀ {p f}, s.holds p = some f → f < s.created ∧ (s.heap f).writerFinished = false
  exclusive : Exclusive s.holds
  fresh : ∀ {f}, s.created ≤ f → s.heap f = .new
  writer : ∀ f, (s.heap f).writer = !(s.heap f).writerFinished

variable {s s' : State ι β} {i : ι} {w : Writer β}

theorem holds_update (h : s'.writers = Function.update s.writers i w) :
    s'.holds = Function.update (Function.update s.holds none s'.currentWriteFile) (some i)
      w.held := by
  funext p
  cases p with
  | none => simp [State.holds]
  | some k =>
    by_cases hk : k = i
    · simp [State.holds, h, hk]
    · simp [State.holds, h, hk]

/-- What one writer does to the files: it exchanges them with the shared state, takes a new one, or
writes to its own. -/
structure Moves (s : State ι β) (i : ι) (w : Writer β) (s' : State ι β) : Prop where
  writers : s'.writers = Function.update s.writers i w
  current : ∀ f, s'.currentWriteFile = some f →
    (s.holds none = some f ∨ s.holds (some i) = some f) ∧ w.held ≠ some f
  held : ∀ f, w.held = some f → s.holds none = some f ∨ s.holds (some i) = some f ∨
    f = s.created ∧ f < s'.created
  created : s.created ≤ s'.created
  heap : ∀ f, s'.heap f = s.heap f ∨ s.holds (some i) = some f
  done : ∀ f, (s'.heap f).writerFinished = true → (s.heap f).writerFinished = true ∨
    s'.currentWriteFile ≠ some f ∧ w.held ≠ some f
  writer : ∀ f, (s'.heap f).writer = !(s'.heap f).writerFinished

theorem Moves.holds_of (h : Moves s i w s') {p : Option ι} {f : Nat} (hp : s'.holds p = some f) :
    (∃ q, s.holds q = some f) ∨ f = s.created ∧ f < s'.created := by
  rw [holds_update h.writers] at hp
  have hcurrent := h.current
  have hheld := h.held
  simp only [Function.update_apply] at hp
  grind

theorem Holding.move (h : Holding s) (hmove : Moves s i w s') : Holding s' := by
  have hfresh : ∀ {f}, s.created ≤ f → s'.heap f = .new := by
    intro f hf
    rcases hmove.heap f with heq | hheld
    · rw [heq, h.fresh hf]
    · exact absurd (h.held hheld).1 (Nat.not_lt.2 hf)
  refine ⟨fun {p f} hp => ?_, ?_, fun hf => hfresh (hmove.created.trans hf), hmove.writer⟩
  · rcases hmove.holds_of hp with ⟨q, hq⟩ | ⟨heq, hlt⟩
    · refine ⟨(h.held hq).1.trans_le hmove.created, ?_⟩
      have hopen := (h.held hq).2
      rw [← Bool.not_eq_true] at hopen ⊢
      intro hdone
      obtain ⟨hcurrent, hheld⟩ := (hmove.done f hdone).resolve_left hopen
      rcases hmove.heap f with heq | hi
      · rw [heq] at hdone
        exact hopen hdone
      · -- The writer has let go of the file, and nobody else had it.
        rw [holds_update hmove.writers] at hp
        have hother := h.exclusive p (some i) f
        simp only [Function.update_apply] at hp
        grind
    · rw [hfresh heq.ge]
      exact ⟨hlt, rfl⟩
  · rw [holds_update hmove.writers]
    refine h.exclusive.update ?_ ?_ fun f hf => (hmove.current f hf).2
    · exact fun f hf => (hmove.current f hf).1.imp_right .inl
    · refine fun f hf => (hmove.held f hf).imp_right (Or.imp_right ?_)
      rintro ⟨rfl, -⟩ r hr
      exact Nat.lt_irrefl _ (h.held hr).1

/-! ## Counting writers -/

structure Counting [Fintype ι] (s : State ι β) : Prop where
  count : s.activeWriterCount = ∑ i, (s.writers i).active.toNat
  ending : ∀ {i}, (s.writers i).ending = true →
    s.activeWriterCount = 0 ∧ ∀ k, (s.writers k).ending = true → k = i
  dropped : s.writerDropped = true → ∀ i, s.writers i = .absent

theorem Writer.eq_absent {w : Writer β} (ha : w.active = false) (he : w.ending = false) :
    w = .absent := by
  cases w <;> simp [active, ending] at ha he ⊢

section
variable [Fintype ι]

omit [DecidableEq ι] in
theorem Counting.active_eq_false (h : Counting s) (hzero : s.activeWriterCount = 0) (i : ι) :
    (s.writers i).active = false := by
  rw [h.count, Finset.sum_eq_zero_iff] at hzero
  simpa using hzero i (Finset.mem_univ i)

omit [DecidableEq ι] in
theorem Counting.not_ending (h : Counting s) (hi : (s.writers i).active = true) (k : ι) :
    (s.writers k).ending = false := by
  rw [← Bool.not_eq_true]
  intro hk
  rw [h.active_eq_false (h.ending hk).1 i] at hi
  cases hi

omit [DecidableEq ι] in
theorem Counting.not_dropped (h : Counting s) (hi : s.writers i ≠ .absent) :
    s.writerDropped = false := by
  rw [← Bool.not_eq_true]
  exact fun hd => hi (h.dropped hd i)

/-- A writer that does not count itself out. -/
theorem Counting.keep (h : Counting s) (hi : s.writers i ≠ .absent)
    (hwriters : s'.writers = Function.update s.writers i w)
    (hactive : w.active = (s.writers i).active) (hending : w.ending = (s.writers i).ending)
    (hcount : s'.activeWriterCount = s.activeWriterCount)
    (hdropped : s'.writerDropped = s.writerDropped) : Counting s' := by
  have hsame : ∀ k, (s'.writers k).active = (s.writers k).active ∧
      (s'.writers k).ending = (s.writers k).ending := by
    intro k
    rw [hwriters]
    by_cases hk : k = i
    · rw [hk, Function.update_self]
      exact ⟨hactive, hending⟩
    · rw [Function.update_of_ne hk]
      exact ⟨rfl, rfl⟩
  refine ⟨?_, fun {k} hk => ?_, fun hd => ?_⟩
  · rw [hcount, h.count]
    exact Finset.sum_congr rfl fun k _ => by rw [(hsame k).1]
  · rw [(hsame k).2] at hk
    rw [hcount]
    refine ⟨(h.ending hk).1, fun m hm => (h.ending hk).2 m ?_⟩
    rwa [(hsame m).2] at hm
  · rw [hdropped, h.not_dropped hi] at hd
    cases hd

/-- A writer comes or goes while there are others. -/
theorem Counting.others (h : Counting s) {k : ι} (hk : (s.writers k).active = true)
    (hwriters : s'.writers = Function.update s.writers i w) (hending : w.ending = false)
    (hcount : s'.activeWriterCount + (s.writers i).active.toNat =
      s.activeWriterCount + w.active.toNat)
    (hdropped : s'.writerDropped = s.writerDropped) : Counting s' := by
  have hnot := h.not_ending hk
  have hsum := sum_update_add (fun w : Writer β => w.active.toNat) s.writers i w
  rw [← hwriters, ← h.count] at hsum
  refine ⟨by omega, fun {m} hm => ?_, fun hd => ?_⟩
  · rw [hwriters] at hm
    by_cases hmi : m = i
    · rw [hmi, Function.update_self, hending] at hm
      cases hm
    · rw [Function.update_of_ne hmi, hnot m] at hm
      cases hm
  · rw [hdropped, h.not_dropped (i := k) fun habsent => (by simp [habsent, Writer.active] at hk)]
      at hd
    cases hd

/-- The last writer goes, and nobody is left behind. -/
theorem counting_of_alone (hwriters : s'.writers = Function.update s.writers i w)
    (hothers : ∀ k, k ≠ i → s.writers k = .absent) (hactive : w.active = false)
    (hcount : s'.activeWriterCount = 0) (hdropped : s'.writerDropped = true → w = .absent) :
    Counting s' := by
  have habsent : ∀ k, k ≠ i → s'.writers k = .absent := by
    intro k hk
    rw [hwriters, Function.update_of_ne hk, hothers k hk]
  have hself : s'.writers i = w := by rw [hwriters, Function.update_self]
  refine ⟨?_, fun {m} hm => ⟨hcount, fun k hk => ?_⟩, fun hd k => ?_⟩
  · rw [hcount, eq_comm, Finset.sum_eq_zero_iff]
    intro k _
    by_cases hk : k = i
    · rw [hk, hself, hactive]
      rfl
    · rw [habsent k hk]
      rfl
  · have heq : ∀ k, (s'.writers k).ending = true → k = i := by
      intro k hk
      by_contra hne
      rw [habsent k hne] at hk
      cases hk
    rw [heq k hk, heq m hm]
  · by_cases hk : k = i
    · rw [hk, hself, hdropped hd]
    · exact habsent k hk

/-- Who counts itself out as the last has no others beside it. -/
theorem Counting.others_absent (h : Counting s) (hi : (s.writers i).active = true)
    (hone : s.activeWriterCount = 1) {k : ι} (hk : k ≠ i) : s.writers k = .absent := by
  have hsum := sum_update_add (fun w : Writer β => w.active.toNat) s.writers i .absent
  rw [← h.count, hone, hi] at hsum
  have hzero : ∑ k, (Function.update s.writers i .absent k).active.toNat = 0 := by
    have h0 : (Writer.absent : Writer β).active.toNat = 0 := rfl
    have h1 : true.toNat = 1 := rfl
    omega
  refine Writer.eq_absent ?_ (h.not_ending hi k)
  have := Finset.sum_eq_zero_iff.1 hzero k (Finset.mem_univ k)
  simpa [Function.update_of_ne hk] using this

omit [DecidableEq ι] in
/-- The last writer is alone. -/
theorem Counting.others_absent_of_ending (h : Counting s) (hi : (s.writers i).ending = true) {k : ι}
    (hk : k ≠ i) : s.writers k = .absent := by
  refine Writer.eq_absent (h.active_eq_false (h.ending hi).1 k) ?_
  rw [← Bool.not_eq_true]
  exact fun hend => hk ((h.ending hi).2 k hend)

end

/-! ## The reader -/

def State.batchesRead (s : State ι β) : Nat :=
  match s.currentFile with
  | some x => x.batchesRead.getD 0
  | none => 0

/-- The log that the files are the segments of. -/
def State.log (s : State ι β) : Log β where
  items f := (s.heap f).batches
  done f := (s.heap f).writerFinished
  count := s.created
  front := s.popped
  read := s.batchesRead
  accepted := s.accepted
  delivered := s.delivered

/-- The stream of the file is open, and there is a batch in it. -/
def State.Unread (s : State ι β) (x : SpillFile) : Prop :=
  x.batchesRead.isSome = true ∧ x.batchesRead.getD 0 < (s.heap x.shared).batches.length

/-- The next batch is being read, and the reader will be woken. -/
def State.ReadsNext (s : State ι β) : Prop :=
  ∃ x, s.currentFile = some x ∧ x.task = some (.running true)

/-- There is nothing to read, and who changes this wakes the reader; or a batch is being read. -/
def State.Waits (s : State ι β) : Prop :=
  (∃ x, s.currentFile = some x ∧ (s.heap x.shared).waker = true ∧
    (s.heap x.shared).writerFinished = false ∧
    x.batchesRead.getD 0 = (s.heap x.shared).batches.length) ∨
  (s.reading ≠ .register ∧ s.currentFile = none ∧ s.files = [] ∧ s.waker = true ∧
    s.writerDropped = false) ∨
  s.ReadsNext

structure Follows (s : State ι β) : Prop where
  files : s.files = List.range' s.popped (s.created - s.popped)
  current : ∀ {x}, s.currentFile = some x → x.shared = s.popped ∧ s.popped < s.created
  /-- Only the stream of the current file may be open. -/
  unopened : ∀ {f}, s.popped ≤ f →
    (∀ {x}, s.currentFile = some x → x.shared = f → x.batchesRead = none) → (s.heap f).file = true
  exhausted : s.reading = .exhausted ∨ s.reading = .pop →
    ∃ x, s.currentFile = some x ∧ (s.heap x.shared).writerFinished = true ∧
      x.batchesRead.getD 0 = (s.heap x.shared).batches.length
  stream : s.reading = .stream → ∃ x, s.currentFile = some x ∧ s.Unread x
  task : ∀ {x}, s.currentFile = some x → x.task ≠ none → s.Unread x
  waits : s.reading = .register ∨ s.reading = .returned (some .pending) → s.woken = false → s.Waits
  ended : s.reading = .returned (some (.ready none)) →
    s.writerDropped = true ∧ s.files = [] ∧ s.currentFile = none

/-- A step on the writers' side as the reader sees it: what it waits for changes only if it is
woken. -/
structure Behind (s s' : State ι β) : Prop where
  reading : s'.reading = s.reading
  currentFile : s'.currentFile = s.currentFile
  popped : s'.popped = s.popped
  alive : s.writerDropped = false
  created : s.created ≤ s'.created
  files : s'.files = s.files ++ List.range' s.created (s'.created - s.created)
  woken : s'.woken = false → s.woken = false
  waker : s'.woken = false → s.waker = true →
    s'.waker = true ∧ s'.files = s.files ∧ s'.writerDropped = s.writerDropped
  heap : ∀ f, (s'.heap f).file = (s.heap f).file ∧
    ((s.heap f).writerFinished = true →
      (s'.heap f).writerFinished = true ∧ (s'.heap f).batches = (s.heap f).batches) ∧
    (s'.woken = false → (s.heap f).waker = true → s'.heap f = s.heap f)
  grows : ∀ f, (s.heap f).batches.length ≤ (s'.heap f).batches.length

omit [DecidableEq ι] in
theorem Follows.behind (h : Follows s) (hle : s.popped ≤ s.created) (hstep : Behind s s') :
    Follows s' := by
  have hunread : ∀ {x}, s.Unread x → s'.Unread x := fun {x} hx =>
    ⟨hx.1, hx.2.trans_le (hstep.grows x.shared)⟩
  refine ⟨?_, fun {x} hx => ?_, fun {f} hf hx => ?_, fun hr => ?_, fun hr => ?_,
    fun {x} hx htask => ?_, fun hr hw => ?_, fun hr => ?_⟩
  · rw [hstep.files, h.files, hstep.popped]
    have hlen : s'.created - s.popped = (s.created - s.popped) + (s'.created - s.created) := by
      have := hstep.created
      omega
    rw [hlen, ← List.range'_append_1, Nat.add_sub_cancel' hle]
  · rw [hstep.currentFile] at hx
    rw [hstep.popped]
    exact ⟨(h.current hx).1, (h.current hx).2.trans_le hstep.created⟩
  · rw [hstep.popped] at hf
    rw [hstep.currentFile] at hx
    rw [(hstep.heap f).1, h.unopened hf hx]
  · rw [hstep.reading] at hr
    obtain ⟨x, hx, hdone, hlen⟩ := h.exhausted hr
    obtain ⟨hdone', hbatches⟩ := (hstep.heap x.shared).2.1 hdone
    exact ⟨x, by rw [hstep.currentFile, hx], hdone', by rw [hlen, hbatches]⟩
  · rw [hstep.reading] at hr
    obtain ⟨x, hx, hx'⟩ := h.stream hr
    exact ⟨x, by rw [hstep.currentFile, hx], hunread hx'⟩
  · rw [hstep.currentFile] at hx
    exact hunread (h.task hx htask)
  · rw [hstep.reading] at hr
    rcases h.waits hr (hstep.woken hw) with
      ⟨x, hx, hwaker, hopen, hlen⟩ | ⟨hne, hx, hf, hwaker, hd⟩ | ⟨x, hx, htask⟩
    · refine .inl ⟨x, by rw [hstep.currentFile, hx], ?_⟩
      rw [(hstep.heap x.shared).2.2 hw hwaker]
      exact ⟨hwaker, hopen, hlen⟩
    · obtain ⟨hwaker', hfiles, hdropped⟩ := hstep.waker hw hwaker
      exact .inr (.inl ⟨by rwa [hstep.reading], by rw [hstep.currentFile, hx], by rw [hfiles, hf],
        hwaker', by rw [hdropped, hd]⟩)
    · exact .inr (.inr ⟨x, by rw [hstep.currentFile, hx], htask⟩)
  · rw [hstep.reading] at hr
    have hdropped := (h.ended hr).1
    rw [hstep.alive] at hdropped
    cases hdropped

/-! ## The steps of a writer -/

/-- No file is left behind, if no other push is under way. -/
structure HandsOn (s : State ι β) (i : ι) (w : Writer β) (s' : State ι β) : Prop where
  own : ∀ f, (s.writers i).held = some f →
    w.held = some f ∨ s'.currentWriteFile = some f ∨ (s'.heap f).writerFinished = true
  shared : ∀ f, (s.writers i).pushing = false → s.currentWriteFile = some f →
    s'.currentWriteFile = some f ∨ w.held = some f
  quiet : w.pushing = true → s'.currentWriteFile = none ∨
    (s.writers i).pushing = true ∧ s'.currentWriteFile = s.currentWriteFile
  start : s.created < s'.created → s'.created = s.created + 1 ∧ w.held = some s.created ∧
    ∃ batch, s.writers i = .creating batch

/-- All that a step of writer `i` does. -/
structure Effect [Fintype ι] (s : State ι β) (i : ι) (w : Writer β) (s' : State ι β) : Prop where
  moves : Moves s i w s'
  handsOn : HandsOn s i w s'
  counting : Counting s'
  behind : Behind s s'
  log : s.log.Step s'.log

/-- The files stay as they are. -/
theorem Moves.of_heap (h : Holding s) (hwriters : s'.writers = Function.update s.writers i w)
    (hheap : s'.heap = s.heap) (hcreated : s'.created = s.created)
    (hcurrent : ∀ f, s'.currentWriteFile = some f →
      (s.holds none = some f ∨ s.holds (some i) = some f) ∧ w.held ≠ some f)
    (hheld : ∀ f, w.held = some f → s.holds none = some f ∨ s.holds (some i) = some f) :
    Moves s i w s' where
  writers := hwriters
  current := hcurrent
  held f hf := (hheld f hf).imp_right .inl
  created := hcreated.ge
  heap f := .inl (by rw [hheap])
  done f hf := .inl (by rwa [hheap] at hf)
  writer f := by rw [hheap, h.writer]

omit [DecidableEq ι] in
theorem Behind.of_heap (halive : s.writerDropped = false) (hheap : s'.heap = s.heap)
    (hfiles : s'.files = s.files) (hcreated : s'.created = s.created)
    (hreading : s'.reading = s.reading) (hcurrent : s'.currentFile = s.currentFile)
    (hpopped : s'.popped = s.popped) (hwoken : s'.woken = false → s.woken = false)
    (hwaker : s'.woken = false → s.waker = true →
      s'.waker = true ∧ s'.writerDropped = s.writerDropped) : Behind s s' where
  reading := hreading
  currentFile := hcurrent
  popped := hpopped
  alive := halive
  created := hcreated.ge
  files := by simp [hfiles, hcreated]
  woken := hwoken
  waker hw h := ⟨(hwaker hw h).1, hfiles, (hwaker hw h).2⟩
  heap f := by simp [hheap]
  grows f := by rw [hheap]

section
variable [Fintype ι] {cfg : Config β}

theorem clone_effect {k : ι} (h : Holding s) (hc : Counting s)
    (hi : (s.writers i).active = true) (hk : s.writers k = .absent) :
    Effect s k .idle { s.setWriter k .idle with activeWriterCount := s.activeWriterCount + 1 } where
  moves := .of_heap h rfl rfl rfl (fun f hf => ⟨.inl hf, by simp [Writer.held]⟩)
    (by simp [Writer.held])
  handsOn := ⟨by simp [hk, Writer.held], fun f _ hf => .inl hf, fun h => (by cases h),
    fun h => absurd h (Nat.lt_irrefl _)⟩
  counting := hc.others hi rfl rfl (by simp [hk, Writer.active]) rfl
  behind := .of_heap (hc.not_dropped (i := i) fun habsent => by simp [habsent, Writer.active] at hi)
    rfl rfl rfl rfl rfl rfl id fun _ hw => ⟨hw, rfl⟩
  log := .stay

theorem pushBatch_effect {batch : β} (h : Holding s) (hc : Counting s) (hi : s.writers i = .idle) :
    s.pushBatch cfg i batch = s ∨ ∃ w, Effect s i w (s.pushBatch cfg i batch) := by
  have hne : s.writers i ≠ .absent := by simp [hi]
  rw [State.pushBatch]
  split_ifs with hrows
  · exact .inl rfl
  · refine .inr ?_
    cases hcurrent : s.currentWriteFile with
    | none =>
      refine ⟨.creating batch, .of_heap h rfl rfl rfl ?_ (by simp [Writer.held]), ?_, ?_, ?_, .stay⟩
      · exact fun f hf => ⟨.inl hf, by simp [Writer.held]⟩
      · exact ⟨by simp [hi, Writer.held], fun f _ hf => .inl hf, fun _ => .inl hcurrent,
          fun h => absurd h (Nat.lt_irrefl _)⟩
      · exact hc.keep hne rfl (by rw [hi]; rfl) (by rw [hi]; rfl) rfl rfl
      · exact .of_heap (hc.not_dropped hne) rfl rfl rfl rfl rfl rfl id fun _ hw => ⟨hw, rfl⟩
    | some f =>
      refine ⟨.appending batch f, .of_heap h rfl rfl rfl (by simp) ?_, ?_, ?_, ?_, .stay⟩
      · rintro g ⟨⟩
        exact .inl hcurrent
      · exact ⟨by simp [hi, Writer.held], fun g _ hg => .inr (hcurrent.symm.trans hg),
          fun _ => .inl rfl, fun h => absurd h (Nat.lt_irrefl _)⟩
      · exact hc.keep hne rfl (by rw [hi]; rfl) (by rw [hi]; rfl) rfl rfl
      · exact .of_heap (hc.not_dropped hne) rfl rfl rfl rfl rfl rfl id fun _ hw => ⟨hw, rfl⟩

theorem return_effect {f : Nat} (h : Holding s) (hc : Counting s)
    (hi : s.writers i = .returning f) :
    Effect s i .idle { s.setWriter i .idle with currentWriteFile := some f } := by
  have hne : s.writers i ≠ .absent := by simp [hi]
  refine ⟨.of_heap h rfl rfl rfl ?_ (by simp [Writer.held]), ?_, ?_, ?_, .stay⟩
  · rintro g ⟨⟩
    exact ⟨.inr (by simp [State.holds, hi, Writer.held]), by simp [Writer.held]⟩
  · refine ⟨fun g hg => .inr (.inl ?_), by simp [hi, Writer.pushing], by simp [Writer.pushing],
      fun h => absurd h (Nat.lt_irrefl _)⟩
    rwa [hi] at hg
  · exact hc.keep hne rfl (by rw [hi]; rfl) (by rw [hi]; rfl) rfl rfl
  · exact .of_heap (hc.not_dropped hne) rfl rfl rfl rfl rfl rfl id fun _ hw => ⟨hw, rfl⟩

/-- The new file has been written to by nobody. -/
theorem addFile_effect {batch : β} (h : Holding s) (hc : Counting s)
    (hi : s.writers i = .creating batch) :
    Effect s i (.appending batch s.created) (s.addFile i batch) := by
  have hne : s.writers i ≠ .absent := by simp [hi]
  have hheap : (s.addFile i batch).heap = s.heap :=
    Function.update_eq_self_iff.2 (h.fresh le_rfl).symm
  refine ⟨⟨rfl, ?_, ?_, Nat.le_succ _, fun f => .inl (by rw [hheap]), ?_, ?_⟩,
    ⟨by simp [hi, Writer.held], by simp [hi, Writer.pushing], fun _ => .inl rfl,
      fun _ => ⟨rfl, rfl, batch, hi⟩⟩, ?_,
    ⟨rfl, rfl, rfl, hc.not_dropped hne, Nat.le_succ _, ?_, ?_, ?_, ?_, fun f => by rw [hheap]⟩, ?_⟩
  · exact fun f hf => by simp [State.addFile] at hf
  · rintro f ⟨⟩
    exact .inr (.inr ⟨rfl, Nat.lt_succ_self _⟩)
  · exact fun f hf => .inl (by rwa [hheap] at hf)
  · exact fun f => by rw [hheap, h.writer]
  · exact hc.keep hne rfl (by rw [hi]; rfl) (by rw [hi]; rfl) rfl rfl
  · simp [State.addFile, State.wake, State.setWriter, State.setFile]
  · intro hw
    simp only [State.addFile, State.wake, State.setWriter, State.setFile, Bool.or_eq_false_iff]
      at hw
    exact hw.1
  · intro hw hwaker
    simp [State.addFile, State.wake, State.setWriter, State.setFile, hwaker] at hw
  · exact fun f => by simp [hheap]
  · have hlog : (s.addFile i batch).log = { s.log with count := s.log.count + 1 } := by
      simp only [State.log, hheap]
      rfl
    rw [hlog]
    exact .start

omit [Fintype ι] in
/-- A writer changes the file that it has. -/
theorem Moves.write {f : Nat} {x : ActiveSpillFile β} {written : List β} (h : Holding s)
    (hi : (s.writers i).held = some f) (hx : x.writer = !x.writerFinished)
    (hw : w.held = if x.writerFinished then none else some f) :
    Moves s i w (s.write i w f x written) := by
  have hnot : s.currentWriteFile ≠ some f := fun hf => by
    cases h.exclusive none (some i) f hf hi
  refine ⟨rfl, fun g hg => ⟨.inl hg, ?_⟩, fun g hg => ?_, le_rfl, fun g => ?_, fun g hg => ?_,
    fun g => ?_⟩
  · intro hheld
    rw [hw] at hheld
    split_ifs at hheld
    cases hheld
    exact hnot hg
  · rw [hw] at hg
    split_ifs at hg
    cases hg
    exact .inr (.inl hi)
  · by_cases hg : g = f
    · exact .inr (hg ▸ hi)
    · exact .inl (Function.update_of_ne hg _ _)
  · by_cases hgf : g = f
    · subst hgf
      simp only [State.write, Function.update_self] at hg
      refine .inr ⟨hnot, ?_⟩
      rw [hw, if_pos hg]
      simp
    · simp only [State.write, Function.update_of_ne hgf] at hg
      exact .inl hg
  · by_cases hg : g = f
    · simp only [State.write, hg, Function.update_self, hx]
    · simp only [State.write, Function.update_of_ne hg, h.writer]

omit [Fintype ι] in
theorem Behind.write {f : Nat} {x : ActiveSpillFile β} {written : List β}
    (halive : s.writerDropped = false) (hopen : (s.heap f).writerFinished = false)
    (hx : x.file = (s.heap f).file) (hgrows : (s.heap f).batches.length ≤ x.batches.length) :
    Behind s (s.write i w f x written) where
  reading := rfl
  currentFile := rfl
  popped := rfl
  alive := halive
  created := le_rfl
  files := by simp [State.write]
  woken hw := (Bool.or_eq_false_iff.1 hw).1
  waker _ h := ⟨h, rfl, rfl⟩
  heap g := by
    by_cases hg : g = f
    · subst hg
      simp only [State.write, Function.update_self, Bool.or_eq_false_iff]
      refine ⟨hx, fun hdone => ?_, fun hw h => ?_⟩
      · rw [hopen] at hdone
        cases hdone
      · rw [hw.2] at h
        cases h
    · simp [State.write, Function.update_of_ne hg]
  grows g := by
    by_cases hg : g = f
    · simpa [State.write, hg] using hgrows
    · simp [State.write, Function.update_of_ne hg]

omit [Fintype ι] in
theorem log_write {f : Nat} {x : ActiveSpillFile β} {written : List β} :
    (s.write i w f x written).log = { s.log with
      items := Function.update s.log.items f x.batches
      done := Function.update s.log.done f x.writerFinished
      accepted := s.log.accepted ++ written } := by
  have hfield : ∀ {γ : Type} (p : ActiveSpillFile β → γ),
      (fun g => p (Function.update s.heap f x g)) =
        Function.update (fun g => p (s.heap g)) f (p x) := by
    intro γ p
    funext g
    by_cases hg : g = f
    · rw [hg, Function.update_self, Function.update_self]
    · rw [Function.update_of_ne hg, Function.update_of_ne hg]
  simp only [State.log, State.write, hfield]
  rfl

theorem ActiveSpillFile.append_eq (cfg : Config β) {x : ActiveSpillFile β} (batch : β)
    (hw : x.writer = true) (hopen : x.writerFinished = false) :
    x.append cfg batch =
      let full := decide (cfg.maxFileSizeBytes < x.estimatedSize + cfg.memorySize batch)
      ⟨!full, x.file, x.batches ++ [batch], x.estimatedSize + cfg.memorySize batch, full,
        false⟩ := by
  simp only [append, hw, if_true]
  split_ifs with hfull
  · simp [decide_eq_true hfull]
  · simp [decide_eq_false hfull, hopen]

theorem append_effect {batch : β} {f : Nat} (h : Holding s) (hc : Counting s)
    (hi : s.writers i = .appending batch f) : ∃ w, Effect s i w (s.append cfg i batch f) := by
  have hne : s.writers i ≠ .absent := by simp [hi]
  have hheld : s.holds (some i) = some f := by simp [State.holds, hi, Writer.held]
  obtain ⟨hlt, hopen⟩ := h.held hheld
  have hwriter : (s.heap f).writer = true := by rw [h.writer, hopen]; rfl
  have hx := ActiveSpillFile.append_eq cfg batch hwriter hopen
  rw [State.append, hx]
  refine ⟨_, .write h hheld rfl ?_, ⟨fun g hg => ?_, by simp [hi, Writer.pushing],
    fun _ => .inr ⟨by rw [hi]; rfl, rfl⟩, fun h => absurd h (Nat.lt_irrefl _)⟩, ?_,
    .write (hc.not_dropped hne) hopen rfl (by simp), ?_⟩
  · dsimp only
    by_cases hfull : cfg.maxFileSizeBytes < (s.heap f).estimatedSize + cfg.memorySize batch
    · rw [if_pos hfull, if_pos (decide_eq_true hfull)]
      rfl
    · rw [if_neg hfull, if_neg (by simpa using hfull)]
      rfl
  · cases hheld.symm.trans hg
    split_ifs with hfull
    · exact .inr (.inr (by simpa [State.write] using hfull))
    · exact .inl rfl
  · refine hc.keep hne rfl ?_ ?_ rfl rfl <;> rw [hi] <;> split_ifs <;> rfl
  · rw [log_write, hwriter, if_pos rfl]
    exact .append batch _ hlt hopen

theorem finish_effect {f : Nat} (h : Holding s) (hc : Counting s)
    (hi : s.writers i = .finishing f) :
    Effect s i .closing (s.write i .closing f (s.heap f).finish []) := by
  have hne : s.writers i ≠ .absent := by simp [hi]
  have hheld : s.holds (some i) = some f := by simp [State.holds, hi, Writer.held]
  obtain ⟨hlt, hopen⟩ := h.held hheld
  refine ⟨.write h hheld rfl rfl, ⟨fun g hg => ?_, fun g _ hg => .inl hg, fun h => (by cases h),
      fun h => absurd h (Nat.lt_irrefl _)⟩,
    hc.keep hne rfl (by rw [hi]; rfl) (by rw [hi]; rfl) rfl rfl,
    .write (hc.not_dropped hne) hopen rfl le_rfl, ?_⟩
  · cases hheld.symm.trans hg
    exact .inr (.inr (by simp [State.write, ActiveSpillFile.finish]))
  have hitems : Function.update s.log.items f (s.heap f).finish.batches = s.log.items :=
    Function.update_eq_self _ _
  rw [log_write, hitems, List.append_nil]
  exact .finish hlt

theorem close_effect (h : Holding s) (hc : Counting s) (hi : s.writers i = .closing) :
    Effect s i .absent { s.wake.setWriter i .absent with writerDropped := true } := by
  have hne : s.writers i ≠ .absent := by simp [hi]
  have hending : (s.writers i).ending = true := by rw [hi]; rfl
  refine ⟨.of_heap h rfl rfl rfl (fun f hf => ⟨.inl hf, by simp [Writer.held]⟩)
    (by simp [Writer.held]), ⟨by simp [hi, Writer.held], fun f _ hf => .inl hf,
      fun h => (by cases h), fun h => absurd h (Nat.lt_irrefl _)⟩, ?_, ?_, .stay⟩
  · exact counting_of_alone rfl (fun k hk => hc.others_absent_of_ending hending hk) rfl
      (hc.ending hending).1 fun _ => rfl
  · refine .of_heap (hc.not_dropped hne) rfl rfl rfl rfl rfl rfl
      (fun hw => (Bool.or_eq_false_iff.1 hw).1) fun hw hwaker => ?_
    rw [(Bool.or_eq_false_iff.1 hw).2] at hwaker
    cases hwaker

theorem dropWriter_effect (h : Holding s) (hc : Counting s) (hi : s.writers i = .idle) :
    ∃ w, Effect s i w (s.dropWriter i) ∧ w.pushing = false := by
  have hne : s.writers i ≠ .absent := by simp [hi]
  have hactive : (s.writers i).active = true := by rw [hi]; rfl
  have hpos : 0 < s.activeWriterCount := by
    refine Nat.pos_of_ne_zero fun hzero => ?_
    rw [hc.active_eq_false hzero i] at hactive
    cases hactive
  simp only [State.dropWriter]
  split_ifs with hothers
  · refine ⟨.absent, ⟨.of_heap h rfl rfl rfl (fun f hf => ⟨.inl hf, by simp [Writer.held]⟩)
      (by simp [Writer.held]), ⟨by simp [hi, Writer.held], fun f _ hf => .inl hf,
        fun h => (by cases h), fun h => absurd h (Nat.lt_irrefl _)⟩,
      hc.others hactive rfl rfl ?_ rfl,
      .of_heap (hc.not_dropped hne) rfl rfl rfl rfl rfl rfl id fun _ hw => ⟨hw, rfl⟩, .stay⟩, rfl⟩
    rw [hactive]
    exact Nat.sub_add_cancel hpos
  · have hone : s.activeWriterCount = 1 := by omega
    have hzero : s.activeWriterCount - 1 = 0 := by rw [hone]
    split
    · rename_i f hcurrent
      refine ⟨.finishing f, ⟨.of_heap h rfl rfl rfl (by simp) ?_,
        ⟨by simp [hi, Writer.held], fun g _ hg => .inr (hcurrent.symm.trans hg),
          fun h => (by cases h), fun h => absurd h (Nat.lt_irrefl _)⟩, ?_, ?_, .stay⟩, rfl⟩
      · rintro g ⟨⟩
        exact .inl hcurrent
      · refine counting_of_alone rfl (fun k hk => hc.others_absent hactive hone hk) rfl hzero ?_
        exact fun hd => (by cases (hc.not_dropped hne).symm.trans hd)
      · exact .of_heap (hc.not_dropped hne) rfl rfl rfl rfl rfl rfl id fun _ hw => ⟨hw, rfl⟩
    · refine ⟨.absent, ⟨.of_heap h rfl rfl rfl (fun f hf => ⟨.inl hf, by simp [Writer.held]⟩)
        (by simp [Writer.held]), ⟨by simp [hi, Writer.held], fun f _ hf => .inl hf,
          fun h => (by cases h), fun h => absurd h (Nat.lt_irrefl _)⟩, ?_, ?_, .stay⟩, rfl⟩
      · exact counting_of_alone rfl (fun k hk => hc.others_absent hactive hone hk) rfl hzero
          fun _ => rfl
      · refine .of_heap (hc.not_dropped hne) rfl rfl rfl rfl rfl rfl
          (fun hw => (Bool.or_eq_false_iff.1 hw).1) fun hw hwaker => ?_
        rw [(Bool.or_eq_false_iff.1 hw).2] at hwaker
        cases hwaker

end

/-! ## The steps of the reader -/

omit [DecidableEq ι] in
/-- The reader changes a file only in what the writers do not look at. -/
theorem Holding.congr (h : Holding s) (hwriters : s'.writers = s.writers)
    (hcurrent : s'.currentWriteFile = s.currentWriteFile) (hcreated : s'.created = s.created)
    (hheap : ∀ f, (s'.heap f).writer = (s.heap f).writer ∧
      (s'.heap f).writerFinished = (s.heap f).writerFinished)
    (hfresh : ∀ f, s.created ≤ f → s'.heap f = s.heap f) : Holding s' := by
  have hholds : s'.holds = s.holds := by
    funext p
    cases p with
    | none => exact hcurrent
    | some i => rw [State.holds, State.holds, hwriters]
  refine ⟨fun {p f} hp => ?_, by rw [hholds]; exact h.exclusive, fun {f} hf => ?_, fun f => ?_⟩
  · rw [hholds] at hp
    rw [hcreated, (hheap f).2]
    exact h.held hp
  · rw [hcreated] at hf
    rw [hfresh f hf, h.fresh hf]
  · rw [(hheap f).1, (hheap f).2, h.writer]

omit [DecidableEq ι] in
theorem Counting.congr [Fintype ι] (h : Counting s) (hwriters : s'.writers = s.writers)
    (hcount : s'.activeWriterCount = s.activeWriterCount)
    (hdropped : s'.writerDropped = s.writerDropped) : Counting s' := by
  refine ⟨?_, ?_, ?_⟩
  · rw [hcount, hwriters, h.count]
  · rw [hcount, hwriters]
    exact h.ending
  · rw [hdropped, hwriters]
    exact h.dropped

/-- All that a step of the reader does. -/
structure ReadEffect (s s' : State ι β) : Prop where
  writers : s'.writers = s.writers
  currentWriteFile : s'.currentWriteFile = s.currentWriteFile
  created : s'.created = s.created
  activeWriterCount : s'.activeWriterCount = s.activeWriterCount
  writerDropped : s'.writerDropped = s.writerDropped
  accepted : s'.accepted = s.accepted
  heap : ∀ f, (s'.heap f).writer = (s.heap f).writer ∧
    (s'.heap f).writerFinished = (s.heap f).writerFinished ∧
    (s'.heap f).batches = (s.heap f).batches
  fresh : ∀ f, s.created ≤ f → s'.heap f = s.heap f
  follows : Follows s'
  log : s.log.Step s'.log

omit [DecidableEq ι] in
theorem Follows.reading (h : Follows s) {r : Reading β}
    (hr : r ≠ .exhausted ∧ r ≠ .pop ∧ r ≠ .stream ∧ r ≠ .returned (some (.ready none)))
    {woken : Bool} (hwaits : r = .register ∨ r = .returned (some .pending) → woken = true) :
    Follows { s with reading := r, woken := woken } where
  files := h.files
  current := h.current
  unopened := h.unopened
  exhausted hs := (hs.elim hr.1 hr.2.1).elim
  stream hs := (hr.2.2.1 hs).elim
  task := h.task
  waits hs hw := by
    cases (hwaits hs).symm.trans hw
  ended hs := (hr.2.2.2 hs).elim

omit [DecidableEq ι] in
/-- The reader goes on without touching a file. -/
theorem ReadEffect.marks (r : Reading β) (woken waker : Bool) (x : Option SpillFile)
    (hread : State.batchesRead { s with currentFile := x } = s.batchesRead)
    (h : Follows { s with reading := r, woken := woken, waker := waker, currentFile := x }) :
    ReadEffect s { s with reading := r, woken := woken, waker := waker, currentFile := x } := by
  refine ⟨rfl, rfl, rfl, rfl, rfl, rfl, fun _ => ⟨rfl, rfl, rfl⟩, fun _ _ => rfl, h, ?_⟩
  have hlog : State.log { s with
      reading := r, woken := woken, waker := waker, currentFile := x } = s.log := by
    simp only [State.log, ← hread]
    rfl
  rw [hlog]
  exact .stay

omit [DecidableEq ι] in
theorem log_setFile {f : Nat} {x : ActiveSpillFile β}
    (hdone : x.writerFinished = (s.heap f).writerFinished)
    (hbatches : x.batches = (s.heap f).batches) : (s.setFile f x).log = s.log := by
  have hfield : ∀ {γ : Type} (p : ActiveSpillFile β → γ), p x = p (s.heap f) →
      (fun g => p (Function.update s.heap f x g)) = fun g => p (s.heap g) := by
    intro γ p hp
    funext g
    by_cases hg : g = f
    · rw [hg, Function.update_self, hp]
    · rw [Function.update_of_ne hg]
  simp only [State.log, State.setFile, hfield ActiveSpillFile.batches hbatches,
    hfield ActiveSpillFile.writerFinished hdone]
  rfl

omit [DecidableEq ι] in
/-- The reader sets its marks at a file that is there. -/
theorem setFile_heap {f : Nat} (file waker : Bool) (hf : f < s.created) :
    (∀ g, ((s.setFile f { s.heap f with file := file, waker := waker }).heap g).writer =
        (s.heap g).writer ∧
      ((s.setFile f { s.heap f with file := file, waker := waker }).heap g).writerFinished =
        (s.heap g).writerFinished ∧
      ((s.setFile f { s.heap f with file := file, waker := waker }).heap g).batches =
        (s.heap g).batches) ∧
    ∀ g, s.created ≤ g →
      (s.setFile f { s.heap f with file := file, waker := waker }).heap g = s.heap g := by
  refine ⟨fun g => ?_, fun g hg => Function.update_of_ne (by omega) _ _⟩
  by_cases hg : g = f
  · simp [State.setFile, hg]
  · simp [State.setFile, Function.update_of_ne hg]

omit [DecidableEq ι] in
/-- The file of an open stream need not be there. -/
theorem Follows.unopened_of_ne (h : Follows s) {x : SpillFile} (hx : s.currentFile = some x)
    {f : Nat} (hf : s.popped ≤ f) (hfx : f ≠ x.shared) : (s.heap f).file = true := by
  refine h.unopened hf fun {y} hy hyf => ?_
  cases hx.symm.trans hy
  exact absurd hyf.symm hfx

omit [DecidableEq ι] in
/-- The stream of the current file is opened, if it was not. -/
theorem open_effect (h : Follows s) {x : SpillFile} (hx : s.currentFile = some x)
    (hbatch : x.batchesRead.getD 0 < (s.heap x.shared).batches.length) {file : Bool} :
    ReadEffect s { s.setFile x.shared { s.heap x.shared with file := file } with
      currentFile := some { x with batchesRead := some (x.batchesRead.getD 0) }
      reading := .stream } := by
  obtain ⟨hshared, hlt⟩ := h.current hx
  obtain ⟨hheap, hfresh⟩ := setFile_heap (s := s) file (s.heap x.shared).waker (hshared ▸ hlt)
  have hunread : ∀ {s' : State ι β}, (s'.heap x.shared).batches = (s.heap x.shared).batches →
      s'.Unread { x with batchesRead := some (x.batchesRead.getD 0) } := fun {s'} heq =>
    ⟨rfl, hbatch.trans_eq (congrArg List.length heq.symm)⟩
  refine ⟨rfl, rfl, rfl, rfl, rfl, rfl, hheap, hfresh,
    ⟨h.files, ?_, fun {f} hf hopen => ?_, by simp, fun _ => ⟨_, rfl, hunread (hheap _).2.2⟩, ?_,
      by simp, by simp⟩, ?_⟩
  · rintro y ⟨⟩
    exact ⟨hshared, hlt⟩
  · by_cases hfx : f = x.shared
    · cases hopen rfl hfx.symm
    · refine (congrArg ActiveSpillFile.file (Function.update_of_ne hfx _ _)).trans ?_
      exact h.unopened_of_ne hx hf hfx
  · rintro y ⟨⟩ -
    exact hunread (hheap _).2.2
  · have hread : s.batchesRead = x.batchesRead.getD 0 := by simp [State.batchesRead, hx]
    have hlog := log_setFile (s := s) (f := x.shared)
      (x := { s.heap x.shared with file := file }) rfl rfl
    change s.log.Step { State.log (s.setFile x.shared { s.heap x.shared with file := file }) with
      read := x.batchesRead.getD 0 }
    rw [hlog, ← hread]
    exact .stay

omit [DecidableEq ι] in
/-- A batch is read from the current file. -/
theorem readBatch_effect (h : Follows s) {x : SpillFile} {batch : β}
    (hx : s.currentFile = some x)
    (hbatch : (s.heap x.shared).batches[x.batchesRead.getD 0]? = some batch) :
    ReadEffect s { s with
      currentFile := some ⟨x.shared, some (x.batchesRead.getD 0 + 1), none⟩
      reading := .returned (some (.ready (some batch)))
      delivered := s.delivered ++ [batch] } := by
  obtain ⟨hshared, hlt⟩ := h.current hx
  refine ⟨rfl, rfl, rfl, rfl, rfl, rfl, fun _ => ⟨rfl, rfl, rfl⟩, fun _ _ => rfl,
    ⟨h.files, ?_, fun {f} hf hopen => ?_, by simp, by simp, ?_, by simp, by simp⟩, ?_⟩
  · rintro y ⟨⟩
    exact ⟨hshared, hlt⟩
  · by_cases hfx : f = x.shared
    · cases hopen rfl hfx.symm
    · exact h.unopened_of_ne hx hf hfx
  · rintro y ⟨⟩ htask
    exact absurd rfl htask
  · have hread : s.log.read = x.batchesRead.getD 0 := by simp [State.log, State.batchesRead, hx]
    rw [hshared, ← hread] at hbatch
    change s.log.Step { s.log with
      read := x.batchesRead.getD 0 + 1
      delivered := s.log.delivered ++ [batch] }
    rw [← hread]
    exact .read hbatch

omit [DecidableEq ι] in
/-- The task that reads the next batch starts, goes on or ends. -/
theorem setTask_effect (h : Follows s) {x : SpillFile} (hx : s.currentFile = some x)
    (hunread : s.Unread x) (task : Option ReadTask) {r : Reading β} {woken : Bool}
    (hr : r = s.reading ∨ r = .register)
    (hwaits : r = .register ∨ r = .returned (some .pending) → woken = false →
      State.Waits { s with reading := r, woken := woken, currentFile := some { x with task } }) :
    ReadEffect s { s with reading := r, woken := woken, currentFile := some { x with task } } := by
  refine .marks r woken s.waker (some { x with task }) (by simp [State.batchesRead, hx])
    ⟨h.files, ?_, fun {f} hf hopen => ?_, fun hs => ?_, fun _ => ⟨_, rfl, hunread⟩, ?_, hwaits,
      fun hs => ?_⟩
  · rintro y ⟨⟩
    obtain ⟨hshared, hlt⟩ := h.current hx
    exact ⟨hshared, hlt⟩
  · refine h.unopened hf fun {y} hy hyf => ?_
    cases hx.symm.trans hy
    exact hopen (x := { x with task }) rfl hyf
  · rcases hr with rfl | rfl
    · obtain ⟨y, hy, hdone, hlen⟩ := h.exhausted hs
      cases hx.symm.trans hy
      exact ⟨_, rfl, hdone, hlen⟩
    · simp at hs
  · rintro y ⟨⟩ -
    exact hunread
  · rcases hr with rfl | rfl
    · cases hx.symm.trans (h.ended hs).2.2
    · cases hs

omit [DecidableEq ι] in
/-- The reader waits at the current file. -/
theorem register_effect (h : Follows s) {x : SpillFile} (hx : s.currentFile = some x)
    (hopen : (s.heap x.shared).writerFinished = false)
    (hlen : x.batchesRead.getD 0 = (s.heap x.shared).batches.length) :
    ReadEffect s { s.setFile x.shared { s.heap x.shared with waker := true } with
      reading := .register } := by
  obtain ⟨hshared, hlt⟩ := h.current hx
  obtain ⟨hheap, hfresh⟩ := setFile_heap (s := s) (s.heap x.shared).file true (hshared ▸ hlt)
  refine ⟨rfl, rfl, rfl, rfl, rfl, rfl, hheap, hfresh,
    ⟨h.files, h.current, fun {f} hf hopen => ?_, by simp, by simp, fun {y} hy htask => ?_,
      fun _ _ => ?_, by simp⟩, ?_⟩
  · rw [← h.unopened hf hopen]
    by_cases hfx : f = x.shared
    · simp [State.setFile, hfx]
    · simp [State.setFile, Function.update_of_ne hfx]
  · obtain ⟨hsome, hlt⟩ := h.task hy htask
    exact ⟨hsome, hlt.trans_eq (congrArg List.length (hheap y.shared).2.2.symm)⟩
  · exact .inl ⟨x, hx, by simp [State.setFile, hopen, hlen]⟩
  · have hlog := log_setFile (s := s) (f := x.shared)
      (x := { s.heap x.shared with waker := true }) rfl rfl
    change s.log.Step (s.setFile x.shared { s.heap x.shared with waker := true }).log
    rw [hlog]
    exact .stay

omit [DecidableEq ι] in
theorem pollFile_effect (h : Follows s) (hlog : Ok s.log) {x : SpillFile}
    (hx : s.currentFile = some x) : ReadEffect s (s.pollFile x) := by
  have hall : ¬x.batchesRead.getD 0 < (s.heap x.shared).batches.length →
      x.batchesRead.getD 0 = (s.heap x.shared).batches.length := by
    intro hbatch
    have hle := hlog.read_le
    simp only [State.log, State.batchesRead, hx, ← (h.current hx).1] at hle
    exact le_antisymm hle (Nat.le_of_not_lt hbatch)
  obtain ⟨hshared, hlt⟩ := h.current hx
  rw [State.pollFile]
  split_ifs with hbatch hnofile hdone
  · exfalso
    have hfile : (x.batchesRead.isNone && !(s.heap x.shared).file) = false := by
      cases hr : x.batchesRead with
      | some r => rfl
      | none =>
        have hfile := h.unopened hshared.ge fun {y} hy _ => by
          cases hx.symm.trans hy
          exact hr
        rw [hfile]
        rfl
    rw [hfile] at hnofile
    cases hnofile
  · exact open_effect h hx hbatch
  · exact .marks .exhausted _ _ _ rfl ⟨h.files, h.current, h.unopened,
      fun _ => ⟨x, hx, hdone, hall hbatch⟩, by simp, h.task, by simp, by simp⟩
  · exact register_effect h hx (by simpa using hdone) (hall hbatch)

omit [DecidableEq ι] in
theorem pollStream_effect (h : Follows s) {x : SpillFile} (hx : s.currentFile = some x)
    (hr : s.reading = .stream) : ReadEffect s (s.pollStream x) := by
  obtain ⟨y, hy, hunread⟩ := h.stream hr
  cases hx.symm.trans hy
  rw [State.pollStream]
  cases htask : x.task with
  | none =>
    refine setTask_effect h hx hunread (some (.running false)) (.inl rfl) fun hs => ?_
    rw [hr] at hs
    simp at hs
  | some task =>
    cases task with
    | running waker =>
      exact setTask_effect h hx hunread (some (.running true)) (.inr rfl)
        fun _ _ => .inr (.inr ⟨_, rfl, rfl⟩)
    | finished =>
      have hbatch := List.getElem?_eq_getElem hunread.2
      simp only [hbatch]
      exact readBatch_effect h hx hbatch

omit [DecidableEq ι] in
/-- The end of a read wakes the reader if it waits for it. -/
theorem finishRead_effect (h : Follows s) (hstep : s.finishRead = some s') : ReadEffect s s' := by
  obtain ⟨x, hx, hstep⟩ := Option.bind_eq_some_iff.1 hstep
  split at hstep
  · rename_i waker htask
    cases hstep
    have hunread := h.task hx (by simp [htask])
    refine setTask_effect h hx hunread (some .finished) (.inl rfl) fun hs hw => ?_
    obtain ⟨hwoken, rfl⟩ := Bool.or_eq_false_iff.1 hw
    rcases h.waits hs hwoken with ⟨y, hy, hwaits⟩ | ⟨-, hnone, -⟩ | ⟨y, hy, hrunning⟩
    · cases hx.symm.trans hy
      exact .inl ⟨_, rfl, hwaits⟩
    · cases hx.symm.trans hnone
    · cases hx.symm.trans hy
      cases htask.symm.trans hrunning
  · cases hstep

omit [DecidableEq ι] in
theorem giveWay_effect (h : Follows s) (hstep : s.giveWay = some s') : ReadEffect s s' := by
  unfold State.giveWay at hstep
  split at hstep
  · cases hstep
    exact .marks .register true _ _ rfl (h.reading (by simp) fun _ => rfl)
  · cases hstep

omit [DecidableEq ι] in
/-- The current file is done, and the reader leaves it. -/
theorem pop_effect (h : Follows s) (hr : s.reading = .pop) :
    ReadEffect s { s with
      files := s.files.tail
      currentFile := none
      reading := .loop
      popped := s.popped + 1 } := by
  obtain ⟨x, hx, hdone, hlen⟩ := h.exhausted (.inr hr)
  obtain ⟨hshared, hlt⟩ := h.current hx
  refine ⟨rfl, rfl, rfl, rfl, rfl, rfl, fun _ => ⟨rfl, rfl, rfl⟩, fun _ _ => rfl,
    ⟨?_, by simp, fun {f} hf _ => ?_, by simp, by simp, by simp, by simp, by simp⟩, ?_⟩
  · dsimp only
    rw [h.files, List.tail_range']
    rfl
  · refine h.unopened ((Nat.le_succ _).trans hf) fun {y} hy hyf => ?_
    cases hx.symm.trans hy
    dsimp only at hf
    omega
  · rw [hshared] at hdone hlen
    refine .advance hdone ?_
    simp only [State.log, State.batchesRead, hx]
    exact hlen

omit [DecidableEq ι] in
theorem read_effect (h : Follows s) (hlog : Ok s.log) (hread : s.read = some s') :
    ReadEffect s s' := by
  rw [State.read] at hread
  split at hread
  · cases hread
  · rename_i hr
    split at hread
    · rename_i x hx
      cases hread
      exact pollFile_effect h hlog hx
    · rename_i hx
      split at hread
      · -- The front of the queue becomes the current file.
        rename_i f files hfiles
        cases hread
        have hfront : f = s.popped ∧ s.popped < s.created := by
          have hrange := hfiles.symm.trans h.files
          cases hcount : s.created - s.popped with
          | zero => simp [hcount] at hrange
          | succ k =>
            rw [hcount, List.range'_succ] at hrange
            exact ⟨(List.cons.inj hrange).1, by omega⟩
        refine .marks s.reading _ _ (some ⟨f, none, none⟩) (by simp [State.batchesRead, hx])
          ⟨h.files, ?_, fun {g} hg _ => ?_, by simp [hr], by simp [hr], ?_, by simp [hr],
            by simp [hr]⟩
        · rintro y ⟨⟩
          exact hfront
        · exact h.unopened hg (by simp [hx])
        · rintro y ⟨⟩ htask
          exact absurd rfl htask
      · rename_i hfiles
        split_ifs at hread with hdropped
        · cases hread
          exact .marks (.returned (some (.ready none))) _ _ _ rfl
            ⟨h.files, h.current, h.unopened, by simp, by simp, h.task, by simp,
              fun _ => ⟨hdropped, hfiles, hx⟩⟩
        · cases hread
          refine .marks (.returned (some .pending)) _ true _ rfl
            ⟨h.files, h.current, h.unopened, by simp, by simp, h.task,
              fun _ _ => .inr (.inl ?_), by simp⟩
          exact ⟨by simp, hx, hfiles, rfl, by simpa using hdropped⟩
  · rename_i hr
    obtain ⟨x, hx, hdone, hlen⟩ := h.exhausted (.inl hr)
    obtain ⟨y, hy, hread⟩ := Option.map_eq_some_iff.1 hread
    cases hx.symm.trans hy
    rw [if_pos hdone] at hread
    subst hread
    exact .marks .pop _ _ _ rfl ⟨h.files, h.current, h.unopened, fun _ => ⟨x, hx, hdone, hlen⟩,
      by simp, h.task, by simp, by simp⟩
  · rename_i hr
    obtain ⟨x, hx, rfl⟩ := Option.map_eq_some_iff.1 hread
    exact pollStream_effect h hx hr
  · rename_i hr
    cases hread
    exact pop_effect h hr
  · rename_i hr
    cases hread
    refine .marks (.returned (some .pending)) _ true _ rfl
      ⟨h.files, h.current, h.unopened, by simp, by simp, h.task, fun _ hw => ?_, by simp⟩
    rcases h.waits (.inl hr) hw with hfile | hpool | hreads
    · exact .inl hfile
    · exact absurd hr hpool.1
    · exact .inr (.inr hreads)

/-! ## Every step -/

structure Inv [Fintype ι] (s : State ι β) : Prop where
  holding : Holding s
  counting : Counting s
  follows : Follows s
  log : Ok s.log

variable [Fintype ι] {cfg : Config β}

omit [Fintype ι] in
theorem channel_writers (i k : ι) :
    (channel β i).writers k = if k = i then .idle else .absent := by
  simp [channel, Function.update_apply]

theorem inv_channel (i : ι) : Inv (channel β i) := by
  have hwriters := channel_writers (β := β) i
  have hheld : ∀ p, (channel β i).holds p = none := by
    intro p
    cases p with
    | none => rfl
    | some k =>
      simp only [State.holds, hwriters]
      split_ifs <;> rfl
  refine ⟨⟨?_, ?_, fun _ => rfl, fun _ => rfl⟩, ⟨?_, ?_, fun h => (by cases h)⟩,
    ⟨rfl, ?_, fun _ _ => rfl, ?_, ?_, ?_, ?_, ?_⟩,
    ⟨fun _ => ⟨rfl, rfl⟩, fun h => absurd h (Nat.not_lt_zero _), le_rfl, rfl⟩⟩
  · intro p f hp
    rw [hheld p] at hp
    cases hp
  · intro p q f hp
    rw [hheld p] at hp
    cases hp
  · have hactive : ∀ k, ((channel β i).writers k).active.toNat = if k = i then 1 else 0 := by
      intro k
      rw [hwriters]
      split_ifs <;> rfl
    rw [Finset.sum_congr rfl fun k _ => hactive k]
    simp [channel]
  · intro k hk
    simp only [hwriters] at hk
    split_ifs at hk <;> cases hk
  all_goals simp [channel]

/-- A step is one of a writer or one of the reader. -/
theorem Inv.effect {a : Call ι β} (h : Inv s) (hstep : step cfg s a = some s') :
    s' = s ∨
    (∃ i w, Effect s i w s' ∧
      ((s.writers i).pushing = true ∨ w.pushing = false ∨ ∃ batch, a = .pushBatch i batch)) ∨
    ReadEffect s s' := by
  obtain ⟨hholding, hcounting, hfollows, hlog⟩ := h
  cases a with
  | clone i k =>
    simp only [step] at hstep
    split_ifs at hstep with hi
    split at hstep
    · rename_i hk
      cases hstep
      exact .inr (.inl ⟨k, .idle, clone_effect hholding hcounting hi hk, .inr (.inl rfl)⟩)
    · cases hstep
  | pushBatch i batch =>
    simp only [step] at hstep
    split at hstep
    · rename_i hi
      cases hstep
      refine (pushBatch_effect hholding hcounting hi).imp_right ?_
      exact fun h => h.elim fun w heffect => .inl ⟨i, w, heffect, .inr (.inr ⟨batch, rfl⟩)⟩
    · cases hstep
  | dropWriter i =>
    simp only [step] at hstep
    split at hstep
    · rename_i hi
      cases hstep
      obtain ⟨w, heffect, hw⟩ := dropWriter_effect hholding hcounting hi
      exact .inr (.inl ⟨i, w, heffect, .inr (.inl hw)⟩)
    · cases hstep
  | resume i =>
    refine .inr (.inl ⟨i, ?_⟩)
    simp only [step] at hstep
    cases hi : s.writers i with
    | absent => simp [hi, State.resume] at hstep
    | idle => simp [hi, State.resume] at hstep
    | creating batch =>
      rw [hi] at hstep
      cases hstep
      exact ⟨_, addFile_effect hholding hcounting hi, .inl rfl⟩
    | appending batch f =>
      rw [hi] at hstep
      cases hstep
      obtain ⟨w, heffect⟩ := append_effect hholding hcounting hi
      exact ⟨w, heffect, .inl rfl⟩
    | returning f =>
      rw [hi] at hstep
      cases hstep
      exact ⟨_, return_effect hholding hcounting hi, .inl rfl⟩
    | finishing f =>
      rw [hi] at hstep
      cases hstep
      exact ⟨_, finish_effect hholding hcounting hi, .inr (.inl rfl)⟩
    | closing =>
      rw [hi] at hstep
      cases hstep
      exact ⟨_, close_effect hholding hcounting hi, .inr (.inl rfl)⟩
  | poll =>
    simp only [step] at hstep
    split at hstep
    · cases hstep
      exact .inr (.inr (.marks .loop false _ _ rfl (hfollows.reading (by simp) (by simp))))
    · cases hstep
  | read => exact .inr (.inr (read_effect hfollows hlog hstep))
  | giveWay => exact .inr (.inr (giveWay_effect hfollows hstep))
  | finishRead => exact .inr (.inr (finishRead_effect hfollows hstep))

theorem Inv.step {a : Call ι β} (h : Inv s) (hstep : step cfg s a = some s') : Inv s' := by
  rcases h.effect hstep with rfl | ⟨i, w, heffect, -⟩ | heffect
  · exact h
  · exact ⟨h.holding.move heffect.moves, heffect.counting,
      h.follows.behind h.log.front_le_count heffect.behind, h.log.step heffect.log⟩
  · exact ⟨h.holding.congr heffect.writers heffect.currentWriteFile heffect.created
        (fun f => ⟨(heffect.heap f).1, (heffect.heap f).2.1⟩) heffect.fresh,
      h.counting.congr heffect.writers heffect.activeWriterCount heffect.writerDropped,
      heffect.follows, h.log.step heffect.log⟩

end PredicateTransfer.SpillPool
