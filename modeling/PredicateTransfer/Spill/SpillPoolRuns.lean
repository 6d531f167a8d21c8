import PredicateTransfer.Spill.SpillPoolSteps

/-!
# Runs of the spill pool

If batches are pushed one at a time, they come out in the order in which they went in
(`spilled_in_order`). A poll ends after a few steps, and has the next batch as soon as a task has
read it (`poll_returns`). The repartition pushes with the lock of the memory reservation held, which
it shares between the writers of a pool, so there it is one push at a time.

The pool itself does not ask for this. Two pushes that overlap may each create a file, and the one
that is put back last takes the place of the other, which is then never finished
(`overlap_blocks_reader`).
-/

namespace PredicateTransfer.SpillPool

open AsyncQueue Runs SegmentedLog

variable {ι β : Type} [DecidableEq ι] [Fintype ι] {s s' : State ι β} {i : ι} {w : Writer β}
  {cfg : Config β}

/-! ## One push at a time -/

/-- What holds if a push begins only when no other is under way. -/
structure InTurn (s : State ι β) : Prop where
  one : ∀ {i k}, (s.writers i).pushing = true → (s.writers k).pushing = true → i = k
  quiet : ∀ {i}, (s.writers i).pushing = true → s.currentWriteFile = none
  /-- Every open file is held by somebody. -/
  owned : ∀ {f}, f < s.created → (s.heap f).writerFinished = false → ∃ p, s.holds p = some f
  ordered : Ordered s.log

theorem Writer.active_of_pushing {w : Writer β} (h : w.pushing = true) : w.active = true := by
  cases w <;> simp [pushing, active] at h ⊢

theorem Writer.pushing_or_ending {w : Writer β} {f : Nat} (h : w.held = some f) :
    w.pushing = true ∨ w.ending = true := by
  cases w <;> simp [held, pushing, ending] at h ⊢

omit [DecidableEq ι] in
/-- Who pushes has the only open file. -/
theorem InTurn.held_by (h : InTurn s) (hi : Inv s) (hpush : (s.writers i).pushing = true) {f : Nat}
    (hf : f < s.created) (hopen : (s.heap f).writerFinished = false) :
    (s.writers i).held = some f := by
  obtain ⟨p, hp⟩ := h.owned hf hopen
  cases p with
  | none =>
    rw [State.holds, h.quiet hpush] at hp
    cases hp
  | some k =>
    rcases Writer.pushing_or_ending hp with hk | hk
    · rwa [h.one hpush hk]
    · rw [hi.counting.not_ending (Writer.active_of_pushing hpush) k] at hk
      cases hk

theorem InTurn.move (h : InTurn s) (hi : Inv s) {w : Writer β} (heffect : Effect s i w s')
    (hbegin : (s.writers i).pushing = true ∨ w.pushing = false ∨
      ∀ k, (s.writers k).pushing = false) : InTurn s' := by
  have hself : s'.writers i = w := by rw [heffect.moves.writers, Function.update_self]
  have hother : ∀ {k}, k ≠ i → s'.writers k = s.writers k := by
    intro k hk
    rw [heffect.moves.writers, Function.update_of_ne hk]
  have hone : ∀ {k}, w.pushing = true → (s'.writers k).pushing = true → k = i := by
    intro k hw hk
    by_contra hne
    rw [hother hne] at hk
    rcases hbegin with hpush | hnot | hnone
    · exact hne (h.one hk hpush)
    · rw [hnot] at hw
      cases hw
    · rw [hnone k] at hk
      cases hk
  refine ⟨fun {k m} hk hm => ?_, fun {k} hk => ?_, fun {f} hf hopen => ?_, ?_⟩
  · by_cases hki : k = i
    · rw [hki, hself] at hk
      rw [hki, hone hk hm]
    · by_cases hmi : m = i
      · rw [hmi, hself] at hm
        exact absurd (hone hm hk) hki
      · rw [hother hki] at hk
        rw [hother hmi] at hm
        exact h.one hk hm
  · by_cases hki : k = i
    · rw [hki, hself] at hk
      rcases heffect.handsOn.quiet hk with hnone | ⟨hpush, hsame⟩
      · exact hnone
      · rw [hsame, h.quiet hpush]
    · rw [hother hki] at hk
      rw [Option.eq_none_iff_forall_ne_some]
      intro f hf
      rcases (heffect.moves.current f hf).1 with hshared | hheld
      · rw [State.holds, h.quiet hk] at hshared
        cases hshared
      · rcases Writer.pushing_or_ending hheld with hpush | hending
        · exact hki (h.one hk hpush)
        · rw [hi.counting.not_ending (Writer.active_of_pushing hk) i] at hending
          cases hending
  · have hheld : ∀ {g}, w.held = some g → ∃ p, s'.holds p = some g := fun hg =>
      ⟨some i, by rw [State.holds, hself, hg]⟩
    rcases Nat.lt_or_ge f s.created with hlt | hge
    · have hopen' : (s.heap f).writerFinished = false := by
        rw [← Bool.not_eq_true] at hopen ⊢
        exact fun hdone => hopen ((heffect.behind.heap f).2.1 hdone).1
      obtain ⟨p, hp⟩ := h.owned hlt hopen'
      cases p with
      | none =>
        have hpush : (s.writers i).pushing = false := by
          rw [← Bool.not_eq_true]
          intro hpush
          rw [State.holds, h.quiet hpush] at hp
          cases hp
        exact (heffect.handsOn.shared f hpush hp).elim (fun hcurrent => ⟨none, hcurrent⟩) hheld
      | some k =>
        by_cases hki : k = i
        · subst hki
          rcases heffect.handsOn.own f hp with hown | hcurrent | hdone
          · exact hheld hown
          · exact ⟨none, hcurrent⟩
          · rw [hopen] at hdone
            cases hdone
        · exact ⟨some k, by rw [State.holds, hother hki]; exact hp⟩
    · obtain ⟨hcount, hnew, -⟩ := heffect.handsOn.start (hge.trans_lt hf)
      have heq : f = s.created := by omega
      exact heq ▸ hheld hnew
  · refine h.ordered.step hi.log heffect.log fun hlt f hf => ?_
    obtain ⟨-, -, batch, hcreating⟩ := heffect.handsOn.start hlt
    have hpush : (s.writers i).pushing = true := by rw [hcreating]; rfl
    rw [← Bool.not_eq_false]
    intro hopen
    have hheld := h.held_by hi hpush hf hopen
    rw [hcreating] at hheld
    cases hheld

theorem InTurn.step {a : Call ι β} (h : InTurn s) (hi : Inv s) (hturn : Serial s a)
    (hstep : step cfg s a = some s') : InTurn s' := by
  rcases hi.effect hstep with rfl | ⟨i, w, heffect, hbegin⟩ | heffect
  · exact h
  · refine h.move hi heffect (hbegin.imp_right (Or.imp_right ?_))
    rintro ⟨batch, rfl⟩
    exact hturn
  · have hholds : s'.holds = s.holds := by
      funext p
      cases p with
      | none => exact heffect.currentWriteFile
      | some k => rw [State.holds, State.holds, heffect.writers]
    refine ⟨?_, ?_, fun {f} hf hopen => ?_, h.ordered.step hi.log heffect.log fun hlt => ?_⟩
    · rw [heffect.writers]
      exact h.one
    · rw [heffect.writers, heffect.currentWriteFile]
      exact h.quiet
    · rw [heffect.created] at hf
      rw [(heffect.heap f).2.1] at hopen
      rw [hholds]
      exact h.owned hf hopen
    · exact absurd hlt (Nat.not_lt.2 heffect.created.le)

/-- The states that tasks reach from a new pool with writer `i`, if they push one at a time. -/
def ReachableInTurn (cfg : Config β) (i : ι) (s : State ι β) : Prop :=
  Reaches (SpillPool.step cfg) Serial (channel β i) s

theorem ReachableInTurn.inv (h : ReachableInTurn cfg i s) : Inv s ∧ InTurn s := by
  have hidle : ∀ k, ((channel β i).writers k).pushing = false := by
    intro k
    rw [channel_writers]
    split_ifs <;> rfl
  refine Reaches.invariant (I := fun s => Inv s ∧ InTurn s) h
    ⟨inv_channel i, ?_, fun _ => rfl, fun hf => absurd hf (Nat.not_lt_zero _),
      fun hf => absurd hf (Nat.not_lt_zero _), rfl⟩
    fun hs hturn hstep => ⟨hs.1.step hstep, hs.2.step hs.1 hturn hstep⟩
  intro k m hk
  rw [hidle k] at hk
  cases hk

/-- Once the last writer is gone, nothing is written. -/
theorem Inv.accepted_of_dropped {t : State ι β} (h : Inv s) (hd : s.writerDropped = true)
    (hrun : Reaches (SpillPool.step cfg) (fun _ _ => True) s t) : t.accepted = s.accepted := by
  suffices hall : Inv t ∧ t.writerDropped = true ∧ t.accepted = s.accepted from hall.2.2
  refine Reaches.invariant
    (I := fun t => Inv t ∧ t.writerDropped = true ∧ t.accepted = s.accepted) hrun ⟨h, hd, rfl⟩ ?_
  rintro t a u ⟨ht, htd, hacc⟩ - hstep
  refine ⟨ht.step hstep, ?_⟩
  rcases ht.effect hstep with rfl | ⟨i, w, heffect, -⟩ | heffect
  · exact ⟨htd, hacc⟩
  · rw [heffect.behind.alive] at htd
    cases htd
  · exact ⟨heffect.writerDropped.trans htd, heffect.accepted.trans hacc⟩

omit [DecidableEq ι] in
/-- With no file left, the reader has passed all of them. -/
theorem Inv.popped_eq (h : Inv s) (hfiles : s.files = []) : s.popped = s.created := by
  have hrange := h.follows.files
  rw [hfiles, eq_comm, List.range'_eq_nil_iff] at hrange
  exact le_antisymm h.log.front_le_count (Nat.sub_eq_zero_iff_le.1 hrange)

omit [DecidableEq ι] in
/-- A reader that waits has read all there is, or the next batch is being read. -/
theorem InTurn.all_read_of_waits (h : InTurn s) (hi : Inv s) (hw : s.Waits) :
    s.delivered = s.accepted ∨ s.ReadsNext := by
  rcases hw with ⟨x, hx, -, hopen, hlen⟩ | ⟨-, -, hfiles, -⟩ | hreads
  · obtain ⟨hshared, hlt⟩ := hi.follows.current hx
    rw [hshared] at hopen hlen
    refine .inl (h.ordered.all_read hi.log (.inr ⟨h.ordered.last_open hlt hopen, ?_⟩))
    simp only [State.log, State.batchesRead, hx]
    exact hlen
  · exact .inl (h.ordered.all_read hi.log (.inl (hi.popped_eq hfiles)))
  · exact .inr hreads

omit [Fintype ι] in
/-- The end of the read wakes the reader. -/
theorem State.ReadsNext.wakes (h : s.ReadsNext) :
    ∃ t, step cfg s .finishRead = some t ∧ t.woken = true := by
  obtain ⟨x, hx, htask⟩ := h
  have hstep : step cfg s .finishRead = some { s with
      currentFile := some { x with task := some .finished }
      woken := s.woken || true } := by
    simp only [step, State.finishRead, hx, htask, Option.bind_some]
  exact ⟨_, hstep, Bool.or_true _⟩

/-- **Batches come out in the order in which they went in**, if they are pushed one at a time. A
reader waits only when it has read everything, or while a task reads the next batch and will wake
it. It is told that nothing more will come only when all writers are gone and it has read everything
that ever will be written. -/
theorem spilled_in_order (h : ReachableInTurn cfg i s) :
    s.delivered <+: s.accepted ∧
    (s.reading = .returned (some .pending) → s.woken = false → s.delivered = s.accepted ∨
      ∃ t, step cfg s .finishRead = some t ∧ t.woken = true) ∧
    (s.reading = .returned (some (.ready none)) → (∀ k, s.writers k = .absent) ∧
      ∀ t, Reaches (step cfg) (fun _ _ => True) s t → t.accepted = s.delivered) := by
  obtain ⟨hi, hturn⟩ := h.inv
  refine ⟨hturn.ordered.delivered_prefix hi.log, fun hr hw => ?_, fun hr => ?_⟩
  · exact (hturn.all_read_of_waits hi (hi.follows.waits (.inr hr) hw)).imp_right (·.wakes)
  · obtain ⟨hd, hfiles, -⟩ := hi.follows.ended hr
    refine ⟨hi.counting.dropped hd, fun t ht => ?_⟩
    rw [hi.accepted_of_dropped hd ht]
    exact (hturn.ordered.all_read hi.log (.inl (hi.popped_eq hfiles))).symm

/-- Files of ten batches. -/
def unitConfig : Config Nat := ⟨fun _ => 1, fun _ => 1, 10⟩

/-- Two writers push in turn, and then the given steps are taken. -/
def afterTwoPushes (steps : List (Call Bool Nat)) : State Bool Nat :=
  (run (step unitConfig) Serial (channel Nat false)
    ([.clone false true, .pushBatch false 7, .resume false, .resume false, .resume false,
      .pushBatch true 8, .resume true, .resume true] ++ steps)).getD (channel Nat false)

theorem reachable_afterTwoPushes (steps : List (Call Bool Nat)) :
    ReachableInTurn unitConfig false (afterTwoPushes steps) := reaches_getD_run

/-- The first poll has started a task to read, and waits for it. -/
def whileReading : State Bool Nat := afterTwoPushes [.poll, .read, .read, .read, .read, .read]

theorem spilled_in_order_two :
    whileReading.accepted = [7, 8] ∧ whileReading.delivered = [] ∧
    whileReading.reading = .returned (some .pending) ∧ whileReading.woken = false ∧
    ∃ t, step unitConfig whileReading .finishRead = some t ∧ t.woken = true := by
  refine ⟨by decide, by decide, by decide, by decide, ?_⟩
  have hwaits := (spilled_in_order (reachable_afterTwoPushes [.poll, .read, .read, .read, .read,
    .read])).2.1 (by decide) (by decide)
  exact hwaits.resolve_left (by decide)

/-! ## The reader gets on -/

/-- A bound on the steps of `poll_next` before it returns. -/
def State.stepsLeft (s : State ι β) : Nat :=
  match s.reading with
  | .returned _ => 0
  | .register => 1
  | .stream => if (s.currentFile.bind (·.task)).isNone then 3 else 2
  | .pop => 5 * (s.created - s.popped) + 1
  | .exhausted => 5 * (s.created - s.popped) + 2
  | .loop => 5 * (s.created - s.popped) + if s.currentFile.isSome then 4 else 5

/-- What the reader has done from one state to the other: it has returned the next batch, or has
read nothing. -/
def Reads (s s' : State ι β) : Prop :=
  (∃ x, s'.reading = .returned (some (.ready (some x))) ∧ s'.delivered = s.delivered ++ [x]) ∨
  s'.delivered = s.delivered ∧ (s'.reading = .returned (some .pending) ∨
    s'.reading = .returned (some (.ready none)) ∨ ∀ r, s'.reading ≠ .returned r)

omit [DecidableEq ι] [Fintype ι] in
theorem stepsLeft_stream_le (hr : s.reading = .stream) : s.stepsLeft ≤ 3 := by
  simp only [State.stepsLeft, hr]
  split_ifs <;> omega

omit [DecidableEq ι] [Fintype ι] in
theorem lt_stepsLeft_stream (hr : s.reading = .stream) : 1 < s.stepsLeft := by
  simp only [State.stepsLeft, hr]
  split_ifs <;> omega

omit [DecidableEq ι] [Fintype ι] in
theorem pollFile_decreases (h : Follows s) (hr : s.reading = .loop) {x : SpillFile}
    (hx : s.currentFile = some x) :
    (s.pollFile x).stepsLeft < s.stepsLeft ∧ Reads s (s.pollFile x) := by
  have hlt := (h.current hx).2
  have hleft : 5 * (s.created - s.popped) + 4 = s.stepsLeft := by
    simp [State.stepsLeft, hr, hx]
  rw [← hleft, State.pollFile]
  split_ifs
  · refine ⟨?_, .inr ⟨rfl, .inr (.inr (by simp))⟩⟩
    simp only [State.stepsLeft]
    omega
  · refine ⟨(stepsLeft_stream_le rfl).trans_lt ?_, .inr ⟨rfl, .inr (.inr (by simp))⟩⟩
    omega
  · refine ⟨?_, .inr ⟨rfl, .inr (.inr (by simp))⟩⟩
    simp only [State.stepsLeft]
    omega
  · refine ⟨?_, .inr ⟨rfl, .inr (.inr (by simp))⟩⟩
    simp only [State.stepsLeft]
    omega

omit [DecidableEq ι] [Fintype ι] in
theorem pollFile_of_unread {x : SpillFile} (hsome : x.batchesRead.isSome = true)
    (hlt : x.batchesRead.getD 0 < (s.heap x.shared).batches.length) :
    (s.pollFile x).reading = .stream ∧
      (s.pollFile x).currentFile = some { x with batchesRead := some (x.batchesRead.getD 0) } ∧
      (s.pollFile x).delivered = s.delivered := by
  obtain ⟨read, hread⟩ := Option.isSome_iff_exists.1 hsome
  rw [hread, Option.getD_some] at hlt
  simp [State.pollFile, hread, hlt, State.setFile]

omit [DecidableEq ι] [Fintype ι] in
theorem pollStream_of_finished (h : Follows s) (hr : s.reading = .stream) {x : SpillFile}
    (hx : s.currentFile = some x) (htask : x.task = some .finished) :
    ∃ batch, (s.pollStream x).reading = .returned (some (.ready (some batch))) ∧
      (s.pollStream x).delivered = s.delivered ++ [batch] := by
  obtain ⟨y, hy, -, hlt⟩ := h.stream hr
  cases hx.symm.trans hy
  refine ⟨(s.heap x.shared).batches[x.batchesRead.getD 0], ?_⟩
  simp only [State.pollStream, htask, List.getElem?_eq_getElem hlt]
  exact ⟨trivial, trivial⟩

omit [DecidableEq ι] [Fintype ι] in
theorem pollStream_decreases (h : Follows s) (hr : s.reading = .stream) {x : SpillFile}
    (hx : s.currentFile = some x) :
    (s.pollStream x).stepsLeft < s.stepsLeft ∧ Reads s (s.pollStream x) := by
  have hpos := lt_stepsLeft_stream hr
  cases htask : x.task with
  | none =>
    rw [State.pollStream, htask]
    refine ⟨?_, .inr ⟨rfl, .inr (.inr (by simp [hr]))⟩⟩
    simp [State.stepsLeft, hr, hx, htask]
  | some task =>
    cases task with
    | running waker =>
      rw [State.pollStream, htask]
      exact ⟨hpos, .inr ⟨rfl, .inr (.inr (by simp))⟩⟩
    | finished =>
      obtain ⟨batch, hreturned, hbatch⟩ := pollStream_of_finished h hr hx htask
      refine ⟨?_, .inl ⟨batch, hreturned, hbatch⟩⟩
      rw [State.stepsLeft, hreturned]
      exact Nat.zero_lt_one.trans hpos

omit [DecidableEq ι] [Fintype ι] in
/-- A step of the reader takes it closer to its return, and reads at most what it returns. -/
theorem read_decreases (h : Follows s) (hr : ∀ r, s.reading ≠ .returned r) :
    ∃ s', s.read = some s' ∧ s'.stepsLeft < s.stepsLeft ∧ Reads s s' := by
  cases hread : s.reading with
  | returned r => exact absurd hread (hr r)
  | loop =>
    cases hx : s.currentFile with
    | some x =>
      exact ⟨s.pollFile x, by simp [State.read, hread, hx], pollFile_decreases h hread hx⟩
    | none =>
      cases hfiles : s.files with
      | cons f files =>
        refine ⟨{ s with currentFile := some ⟨f, none, none⟩ },
          by simp [State.read, hread, hx, hfiles], ?_, .inr ⟨rfl, .inr (.inr (by simp [hread]))⟩⟩
        simp [State.stepsLeft, hread, hx]
      | nil =>
        by_cases hd : s.writerDropped = true
        · refine ⟨{ s with reading := .returned (some (.ready none)) },
            by simp [State.read, hread, hx, hfiles, hd], ?_, .inr ⟨rfl, .inr (.inl rfl)⟩⟩
          simp [State.stepsLeft, hread, hx]
        · refine ⟨{ s with waker := true, reading := .returned (some .pending) },
            by simp [State.read, hread, hx, hfiles, hd], ?_, .inr ⟨rfl, .inl rfl⟩⟩
          simp [State.stepsLeft, hread, hx]
  | stream =>
    obtain ⟨x, hx, -⟩ := h.stream hread
    exact ⟨s.pollStream x, by simp [State.read, hread, hx], pollStream_decreases h hread hx⟩
  | exhausted =>
    obtain ⟨x, hx, hdone, -⟩ := h.exhausted (.inl hread)
    refine ⟨{ s with reading := .pop }, by simp [State.read, hread, hx, hdone], ?_,
      .inr ⟨rfl, .inr (.inr (by simp))⟩⟩
    simp [State.stepsLeft, hread]
  | pop =>
    obtain ⟨x, hx, -⟩ := h.exhausted (.inr hread)
    have hlt := (h.current hx).2
    refine ⟨{ s with
      files := s.files.tail
      currentFile := none
      reading := .loop
      popped := s.popped + 1 }, by simp [State.read, hread], ?_, .inr ⟨rfl, .inr (.inr (by simp))⟩⟩
    simp only [State.stepsLeft, hread, Option.isSome_none, Bool.false_eq_true, if_false]
    omega
  | register =>
    refine ⟨{ s with waker := true, reading := .returned (some .pending) },
      by simp [State.read, hread], ?_, .inr ⟨rfl, .inl rfl⟩⟩
    simp [State.stepsLeft, hread]

/-- The step is one of the reader's own. -/
def Own (_ : State ι β) (a : Call ι β) : Prop := a.isOwn = true

instance (s : State ι β) (a : Call ι β) : Decidable (Own s a) :=
  inferInstanceAs (Decidable (a.isOwn = true))

omit [Fintype ι] in
theorem own_step {a : Call ι β} (h : Follows s) (hlog : Ok s.log) (hown : Own s a)
    (hstep : step cfg s a = some s') :
    ReadEffect s s' ∧ (∀ r, s.reading ≠ .returned r) ∧ s'.stepsLeft < s.stepsLeft ∧
      Reads s s' := by
  cases a with
  | clone | pushBatch | dropWriter | resume | poll | finishRead => cases hown
  | read =>
    refine ⟨read_effect h hlog hstep, ?_⟩
    have hread : s.read = some s' := hstep
    have hr : ∀ r, s.reading ≠ .returned r := by
      intro r hr
      simp [State.read, hr] at hread
    obtain ⟨s'', hread', hdecreases⟩ := read_decreases h hr
    cases hread.symm.trans hread'
    exact ⟨hr, hdecreases⟩
  | giveWay =>
    refine ⟨giveWay_effect h hstep, ?_⟩
    simp only [step, State.giveWay] at hstep
    split at hstep
    · rename_i hr
      cases hstep
      exact ⟨by simp [hr], lt_stepsLeft_stream hr, .inr ⟨rfl, .inr (.inr (by simp))⟩⟩
    · cases hstep

/-- What the reader's own steps come to. -/
theorem own_run {as : List (Call ι β)} {t : State ι β} (hi : Inv s) (h : InTurn s)
    (hr : ∀ r, s.reading ≠ .returned r) (hrun : run (step cfg) Own s as = some t) :
    as.length ≤ s.stepsLeft ∧ Inv t ∧ InTurn t ∧ t.accepted = s.accepted ∧ Reads s t := by
  induction as generalizing s with
  | nil =>
    rw [run] at hrun
    cases hrun
    exact ⟨Nat.zero_le _, hi, h, rfl, .inr ⟨rfl, .inr (.inr hr)⟩⟩
  | cons a as ih =>
    rw [run] at hrun
    split_ifs at hrun with hown
    obtain ⟨s', hstep, hrun⟩ := Option.bind_eq_some_iff.1 hrun
    obtain ⟨heffect, -, hlt, hreads⟩ := own_step hi.follows hi.log hown hstep
    have hserial : Serial s a := by
      cases a with
      | pushBatch => cases hown
      | clone | dropWriter | resume | poll | read | giveWay | finishRead => trivial
    have hi' := hi.step hstep
    have h' := h.step hi hserial hstep
    by_cases hgoes : ∀ r, s'.reading ≠ .returned r
    · obtain ⟨hlen, hti, ht, hacc, hreads'⟩ := ih hi' h' hgoes hrun
      refine ⟨Nat.succ_le_of_lt (hlen.trans_lt hlt), hti, ht, hacc.trans heffect.accepted, ?_⟩
      have hdel : s'.delivered = s.delivered := by
        rcases hreads with ⟨x, hx, -⟩ | ⟨hdel, -⟩
        · exact absurd hx (hgoes _)
        · exact hdel
      rwa [Reads, hdel] at hreads'
    · -- A reader that has returned takes no more steps.
      cases as with
      | nil =>
        rw [run] at hrun
        cases hrun
        exact ⟨Nat.succ_le_of_lt ((Nat.zero_le _).trans_lt hlt), hi', h', heffect.accepted, hreads⟩
      | cons b bs =>
        rw [run] at hrun
        split_ifs at hrun with hown'
        obtain ⟨s'', hstep', -⟩ := Option.bind_eq_some_iff.1 hrun
        exact absurd (own_step hi'.follows hi'.log hown' hstep').2.1 hgoes

/-- The task has ended, and the reader polls again. -/
def afterReading : State Bool Nat :=
  afterTwoPushes [.poll, .read, .read, .read, .read, .read, .finishRead, .poll]

/-- An open file that nobody holds. -/
def State.Orphan (s : State ι β) (f : Nat) : Prop :=
  f < s.created ∧ (s.heap f).writerFinished = false ∧ ∀ p, s.holds p ≠ some f

theorem orphan_step {a : Call ι β} {f : Nat} (hi : Inv s) (h : s.Orphan f)
    (hstep : step cfg s a = some s') :
    s'.Orphan f ∧ (s'.heap f).batches = (s.heap f).batches := by
  obtain ⟨hlt, hopen, hnobody⟩ := h
  rcases hi.effect hstep with rfl | ⟨i, w, heffect, -⟩ | heffect
  · exact ⟨⟨hlt, hopen, hnobody⟩, rfl⟩
  · have hheap := (heffect.moves.heap f).resolve_right (hnobody _)
    refine ⟨⟨hlt.trans_le heffect.moves.created, by rw [hheap, hopen], fun p hp => ?_⟩,
      by rw [hheap]⟩
    rcases heffect.moves.holds_of hp with ⟨q, hq⟩ | ⟨rfl, -⟩
    · exact hnobody q hq
    · exact Nat.lt_irrefl _ hlt
  · have hholds : s'.holds = s.holds := by
      funext p
      cases p with
      | none => exact heffect.currentWriteFile
      | some k => rw [State.holds, State.holds, heffect.writers]
    rw [State.Orphan, hholds, heffect.created, (heffect.heap f).2.1, (heffect.heap f).2.2]
    exact ⟨⟨hlt, hopen, hnobody⟩, rfl⟩

/-- The file is never finished. The reader does not get past it, and is never told that nothing more
will come. -/
theorem orphan_blocks {f : Nat} {t : State ι β} (hi : Inv s) (h : s.Orphan f)
    (hrun : Reaches (step cfg) (fun _ _ => True) s t) :
    (t.heap f).writerFinished = false ∧ (t.heap f).batches = (s.heap f).batches ∧
      t.delivered <+: t.log.before (f + 1) ∧ t.reading ≠ .returned (some (.ready none)) := by
  obtain ⟨hti, ⟨hlt, hopen, -⟩, hbatches⟩ := Reaches.invariant
    (I := fun t => Inv t ∧ t.Orphan f ∧ (t.heap f).batches = (s.heap f).batches) hrun
    ⟨hi, h, rfl⟩ fun {t a u} ht _ hstep =>
      ⟨ht.1.step hstep, (orphan_step ht.1 ht.2.1 hstep).1,
        (orphan_step ht.1 ht.2.1 hstep).2.trans ht.2.2⟩
  refine ⟨hopen, hbatches, hti.log.delivered_prefix hopen, fun hr => ?_⟩
  have hpopped := hti.popped_eq (hti.follows.ended hr).2.1
  have hfront : t.popped ≤ f := hti.log.front_le hopen
  omega

omit [Fintype ι] in
/-- A file that is taken out of the shared state and goes to nobody. -/
theorem orphan_of_moves {f : Nat} (h : Holding s) (hmove : Moves s i w s')
    (hcurrent : s.currentWriteFile = some f) (hshared : s'.currentWriteFile ≠ some f)
    (hheld : w.held ≠ some f) : s'.Orphan f ∧ (s'.heap f).batches = (s.heap f).batches := by
  have hnot : s.holds (some i) ≠ some f := fun hi => by
    cases h.exclusive none (some i) f hcurrent hi
  have hheap := (hmove.heap f).resolve_right hnot
  obtain ⟨hlt, hopen⟩ := h.held (p := none) hcurrent
  refine ⟨⟨hlt.trans_le hmove.created, by rw [hheap, hopen], fun p hp => ?_⟩, by rw [hheap]⟩
  rw [holds_update hmove.writers] at hp
  have hother := h.exclusive none p f hcurrent
  simp only [Function.update_apply] at hp
  grind

/-- The states that tasks reach from a new pool with writer `i`, in any interleaving. -/
def Reachable (cfg : Config β) (i : ι) (s : State ι β) : Prop :=
  Reaches (step cfg) (fun _ _ => True) (channel β i) s

theorem Reachable.inv (h : Reachable cfg i s) : Inv s :=
  Reaches.invariant (I := Inv) h (inv_channel i) fun hi _ hstep => hi.step hstep

/-- **Pushes that overlap leave a file behind.** A push that creates a file, or puts one back, takes
the place of the file that another push has put there meanwhile. That file is never finished: no
batch of a later file is ever read, and the reader waits for ever. -/
theorem overlap_blocks_reader (h : Reachable cfg i s) {f : Nat}
    (hcurrent : s.currentWriteFile = some f) {k : ι}
    (hk : (∃ batch, s.writers k = .creating batch) ∨ ∃ g, s.writers k = .returning g) :
    ∃ s', step cfg s (.resume k) = some s' ∧ ∀ t, Reaches (step cfg) (fun _ _ => True) s' t →
      (t.heap f).writerFinished = false ∧ (t.heap f).batches = (s.heap f).batches ∧
      t.delivered <+: t.log.before (f + 1) ∧ t.reading ≠ .returned (some (.ready none)) := by
  have hi := h.inv
  obtain ⟨s', hstep, horphan, hbatches⟩ : ∃ s', step cfg s (.resume k) = some s' ∧
      s'.Orphan f ∧ (s'.heap f).batches = (s.heap f).batches := by
    rcases hk with ⟨batch, hk⟩ | ⟨g, hk⟩
    · refine ⟨s.addFile k batch, by simp [step, hk, State.resume],
        orphan_of_moves hi.holding (addFile_effect hi.holding hi.counting hk).moves hcurrent
          (by simp [State.addFile]) ?_⟩
      rintro ⟨⟩
      exact Nat.lt_irrefl _ (hi.holding.held (p := none) hcurrent).1
    · refine ⟨_, by simp only [step, hk, State.resume],
        orphan_of_moves hi.holding (return_effect hi.holding hi.counting hk).moves hcurrent ?_
          (by simp [Writer.held])⟩
      rintro ⟨⟩
      cases hi.holding.exclusive none (some k) f hcurrent (by simp [State.holds, hk, Writer.held])
  refine ⟨s', hstep, fun t ht => ?_⟩
  obtain ⟨hopen, hb, hd, hr⟩ := orphan_blocks (hi.step hstep) horphan ht
  exact ⟨hopen, hb.trans hbatches, hd, hr⟩

/-- Two writers have each found no file and created one, and the first has put its file back. -/
def afterOverlap : State Bool Nat :=
  (run (step unitConfig) (fun _ _ => True) (channel Nat false)
    [.clone false true, .pushBatch false 7, .pushBatch true 8, .resume false, .resume true,
      .resume false, .resume true, .resume false]).getD (channel Nat false)

theorem overlap_blocks_reader_two : afterOverlap.accepted = [7, 8] ∧
    ∃ s', step unitConfig afterOverlap (.resume true) = some s' ∧
      ∀ t, Reaches (step unitConfig) (fun _ _ => True) s' t →
        (t.heap 0).writerFinished = false ∧ t.delivered <+: [7] ∧
          t.reading ≠ .returned (some (.ready none)) := by
  have hreach : Reachable unitConfig false afterOverlap := reaches_getD_run
  obtain ⟨s', hstep, hblocks⟩ := overlap_blocks_reader (f := 0) (k := true) hreach (by decide)
    (.inr ⟨1, by decide⟩)
  refine ⟨by decide, s', hstep, fun t ht => ?_⟩
  obtain ⟨hopen, hbatches, hdelivered, hended⟩ := hblocks t ht
  have hfirst : (afterOverlap.heap 0).batches = [7] := by decide
  have hbefore : t.log.before (0 + 1) = [7] := by
    rw [Log.before_succ, ← hfirst, ← hbatches]
    rfl
  exact ⟨hopen, hbefore ▸ hdelivered, hended⟩

end PredicateTransfer.SpillPool
