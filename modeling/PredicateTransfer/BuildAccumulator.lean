import PredicateTransfer.DynamicFilter
import PredicateTransfer.HashJoinRun

/-!
# Reporting the build side

`SharedBuildAccumulator`: the streams of a hash join report their build side under a lock, wait for
each other at a barrier, and the leader that the barrier elects turns the reports into the dynamic
filter. Meanwhile the scans of the probe side read whatever the filter is.

**Theorem (`dynamicFilter_keeps_partners`).** In every run, whatever the order of the reports and
whoever leads, the filter changes at most once, and only after all have reported; at every moment it
is true on all probe rows with a partner, so the join does not notice that the others are gone.

The streams go through two phases (`AccumulatorOk`). While they collect, the filter is still `true`.
Once the barrier has let them go, the leader is the only one that touches the filter, all reports
are in, and what it writes is `dynamicFilter`.
-/

namespace PredicateTransfer

open SemiJoin

variable {S : Sig}

/-! ## Joins with a dynamic filter -/

/-- `on_lr_is_preserved`. -/
def JoinType.onLrIsPreserved : JoinType → Bool × Bool
  | .inner => (true, true)
  | .left => (false, true)
  | .right => (true, false)
  | .full => (false, false)
  | .leftSemi | .rightSemi => (true, true)
  | .leftAnti => (false, true)
  | .rightAnti => (true, false)
  | .leftMark => (false, true)
  | .rightMark => (true, false)

structure OptimizerConfig where
  enableJoinDynamicFilterPushdown : Bool
  preserveFilePartitions : Nat

def HashJoinExec.allowJoinDynamicFilterPushdown (j : HashJoinExec S) (config : OptimizerConfig) :
    Bool :=
  let probePreserved := j.joinType.onLrIsPreserved.2
  if !probePreserved || !config.enableJoinDynamicFilterPushdown then false
  else !(decide (0 < config.preserveFilePartitions) && j.mode == .partitioned)

theorem HashJoinExec.probePreserved_of_allow {j : HashJoinExec S} {config : OptimizerConfig}
    (h : j.allowJoinDynamicFilterPushdown config = true) :
    j.joinType.onLrIsPreserved.2 = true := by
  unfold allowJoinDynamicFilterPushdown at h
  cases hprobe : j.joinType.onLrIsPreserved.2 with
  | true => rfl
  | false => simp [hprobe] at h

/-- **These joins only look at probe rows with a partner.** -/
theorem HashJoinExec.join_filter_right {W : World S} {j : HashJoinExec S} {cis : List ColumnIndex}
    {L R : Multiset (Row S)} {keep : Row S → Bool}
    (hprobe : j.joinType.onLrIsPreserved.2 = true)
    (h : ∀ l ∈ L, ∀ r ∈ R, j.joins W l r = true → keep r = true) :
    j.join W cis L (R.filter (keep ·)) = j.join W cis L R := by
  have hpairs : pairs (j.joins W) L (R.filter (keep ·)) = pairs (j.joins W) L R :=
    pairs_filter_right_eq_iff.2 h
  have hpartner : ∀ l ∈ L, hasPartner (j.joins W) (R.filter (keep ·)) l =
      hasPartner (j.joins W) R l := fun l hl => hasPartner_filter (h l hl)
  have hanti : anti (j.joins W) L (R.filter (keep ·)) = anti (j.joins W) L R :=
    Multiset.filter_congr fun l hl => by rw [hpartner l hl]
  unfold join
  cases hjoin : j.joinType with
  | inner => simp only [hpairs]
  | left => simp only [hpairs, hanti]
  | leftAnti => simp only [hanti]
  | leftSemi =>
    have hsemi : semi (j.joins W) L (R.filter (keep ·)) = semi (j.joins W) L R :=
      Multiset.filter_congr fun l hl => by rw [hpartner l hl]
    simp only [hsemi]
  | leftMark =>
    refine Multiset.map_congr rfl fun l hl => ?_
    rw [hpartner l hl]
  | rightSemi =>
    have hsemi : semi (flip (j.joins W)) (R.filter (keep ·)) L = semi (flip (j.joins W)) R L := by
      unfold semi
      rw [Multiset.filter_filter]
      refine Multiset.filter_congr fun r hr => ⟨And.left, fun hsome => ⟨hsome, ?_⟩⟩
      obtain ⟨l, hl, hjoins⟩ := hasPartner_iff.1 hsome
      exact h l hl r hr hjoins
    simp only [hsemi]
  | right | full | rightAnti | rightMark =>
    rw [hjoin] at hprobe
    cases hprobe

/-! ## The filter and the accumulator -/

/-- `DynamicFilterPhysicalExpr`: what is behind its lock. -/
structure DynamicFilter (S : Sig) where
  generation : Nat
  expr : Predicate S
  isComplete : Bool

namespace DynamicFilter

/-- `create_dynamic_filter`: the placeholder `true`. -/
def new : DynamicFilter S := ⟨1, fun _ => some true, false⟩

def update (f : DynamicFilter S) (expr : Predicate S) : DynamicFilter S :=
  { f with generation := f.generation + 1, expr }

def markComplete (f : DynamicFilter S) : DynamicFilter S := { f with isComplete := true }

end DynamicFilter

/-- What a stream reports, in the form of its mode. -/
inductive PartitionBuildData (W : World S) (n : Nat) where
  | partitioned (partitionId : Fin n) (data : PartitionData W)
  | collectLeft (data : PartitionData W)

/-- `Auto` panics: there is no such mode at run time. -/
def PartitionBuildData.ofMode {W : World S} {n : Nat} (i : Fin n) (d : PartitionData W) :
    PartitionMode → Option (PartitionBuildData W n)
  | .partitioned => some (.partitioned i d)
  | .collectLeft => some (.collectLeft d)
  | .auto => none

namespace AccumulatedBuildData

variable {W : World S} {n : Nat}

/-- `new_from_partition_mode`. -/
def newFromPartitionMode : PartitionMode → Option (AccumulatedBuildData W n)
  | .partitioned => some (.partitioned fun _ => none)
  | .collectLeft => some (.collectLeft none)
  | .auto => none

/-- What `report_build_data` does under the lock. -/
def store : AccumulatedBuildData W n → PartitionBuildData W n →
    Except DataFusionError (AccumulatedBuildData W n)
  | .partitioned partitions, .partitioned partitionId d =>
    .ok (.partitioned (Function.update partitions partitionId (some d)))
  | .collectLeft none, .collectLeft d => .ok (.collectLeft (some d))
  | .collectLeft (some d), .collectLeft _ => .ok (.collectLeft (some d))
  | _, _ => .error (.internal "Build data mode mismatch in report_build_data")

end AccumulatedBuildData

/-- How far a stream is in `report_build_data`. -/
inductive ReportTask where
  | report
  | reported
  | waiting
  | leader
  | follower
  | updated
  | done
  | failed
  deriving DecidableEq

/-- A stream moves, or the barrier lets all go and makes one of them the leader. -/
inductive ReportAction (n : Nat) where
  | poll (i : Fin n)
  | elect (i : Fin n)

structure AccumulatorState (W : World S) (n : Nat) where
  inner : AccumulatedBuildData W n
  filter : DynamicFilter S
  tasks : Fin n → ReportTask

/-- What does not change while the streams report. -/
structure ReportContext (W : World S) (n : Nat) where
  join : HashJoinExec S
  hash : KeyHash W
  order : KeyOrder W
  route : KeyHash W
  report : Fin n → PartitionData W

namespace ReportContext

variable {W : World S} {n : Nat} (C : ReportContext W n)

def init (inner : AccumulatedBuildData W n) : AccumulatorState W n :=
  ⟨inner, .new, fun _ => .report⟩

/-- The leader's update of the filter. -/
def updateFilter (inner : AccumulatedBuildData W n) (filter : DynamicFilter S) : DynamicFilter S :=
  match buildFilter W C.join C.hash C.order C.route inner with
  | some expr => filter.update expr
  | none => filter

/-- The next step of stream `i`. At the barrier it waits. -/
def poll (s : AccumulatorState W n) (i : Fin n) : Option (AccumulatorState W n) :=
  let goto (task : ReportTask) := Function.update s.tasks i task
  match s.tasks i with
  | .report => do
    match s.inner.store (← PartitionBuildData.ofMode i (C.report i) C.join.mode) with
    | .ok inner => return { s with inner, tasks := goto .reported }
    | .error _ => return { s with tasks := goto .failed }
  | .reported => some { s with tasks := goto .waiting }
  | .leader => some { s with filter := C.updateFilter s.inner s.filter, tasks := goto .updated }
  | .updated => some { s with filter := s.filter.markComplete, tasks := goto .done }
  | .follower => some { s with tasks := goto .done }
  | .waiting | .done | .failed => none

def step (s : AccumulatorState W n) : ReportAction n → Option (AccumulatorState W n)
  | .poll i => C.poll s i
  | .elect i =>
    if ∀ k, s.tasks k = .waiting then
      some { s with tasks := fun k => if k = i then .leader else .follower }
    else none

/-! ## The two phases -/

/-- The reports of the streams that have reported are in, and no others. -/
def Stored (s : AccumulatorState W n) : Prop :=
  match s.inner with
  | .partitioned partitions => C.join.mode = .partitioned ∧
      ∀ i, partitions i = if s.tasks i = .report then none else some (C.report i)
  | .collectLeft data => C.join.mode = .collectLeft ∧ (data = none → ∀ i, s.tasks i = .report) ∧
      ∀ d, data = some d → ∀ i, d = C.report i

/-- Before the barrier. -/
def Collecting (s : AccumulatorState W n) : Prop :=
  s.filter = .new ∧ ∀ k, s.tasks k = .report ∨ s.tasks k = .reported ∨ s.tasks k = .waiting

/-- After the barrier, with leader `i`. -/
def Released (s : AccumulatorState W n) (i : Fin n) : Prop :=
  (∀ k, k ≠ i → s.tasks k = .follower ∨ s.tasks k = .done) ∧
    (s.tasks i = .leader ∧ s.filter = .new ∨
      (s.tasks i = .updated ∨ s.tasks i = .done) ∧ s.filter.generation ≤ 2 ∧
        s.filter.expr = dynamicFilter W C.join C.hash C.order C.route C.report)

structure AccumulatorOk (s : AccumulatorState W n) : Prop where
  stored : C.Stored s
  phase : Collecting s ∨ ∃ i, C.Released s i

variable {C} {s s' : AccumulatorState W n} {i : Fin n}

/-- A step that leaves the reports alone. -/
theorem Stored.frame (h : C.Stored s) (hinner : s'.inner = s.inner)
    (htasks : ∀ k, s'.tasks k = .report ↔ s.tasks k = .report) : C.Stored s' := by
  unfold Stored at h ⊢
  rw [hinner]
  cases hs : s.inner with
  | partitioned partitions =>
    rw [hs] at h
    refine ⟨h.1, fun i => ?_⟩
    rw [h.2 i]
    simp only [htasks]
  | collectLeft data =>
    rw [hs] at h
    exact ⟨h.1, fun hnone i => (htasks i).2 (h.2.1 hnone i), h.2.2⟩

/-- **A report is stored**, and the modes always match. -/
theorem Stored.report (h : C.Stored s)
    (hshared : C.join.mode = .collectLeft → ∀ i k, C.report i = C.report k) :
    ∃ data inner, PartitionBuildData.ofMode i (C.report i) C.join.mode = some data ∧
      s.inner.store data = .ok inner ∧
      C.Stored { s with inner, tasks := Function.update s.tasks i .reported } := by
  unfold Stored at h
  cases hs : s.inner with
  | partitioned partitions =>
    rw [hs] at h
    obtain ⟨hmode, hparts⟩ := h
    rw [hmode]
    refine ⟨_, _, rfl, rfl, hmode, fun k => ?_⟩
    by_cases hk : k = i
    · subst hk
      simp
    · simp only [Function.update_of_ne hk]
      exact hparts k
  | collectLeft data =>
    rw [hs] at h
    obtain ⟨hmode, -, hsome⟩ := h
    rw [hmode]
    cases data with
    | none =>
      refine ⟨_, _, rfl, rfl, hmode, nofun, fun d hd k => ?_⟩
      cases hd
      exact hshared hmode i k
    | some d => exact ⟨_, _, rfl, rfl, hmode, nofun, hsome⟩

/-- When all have reported, all reports are in. -/
theorem Stored.eq_all (h : C.Stored s) (hall : ∀ k, s.tasks k ≠ .report) (i : Fin n) :
    s.inner = .all C.join.mode C.report := by
  unfold Stored at h
  cases hs : s.inner with
  | partitioned partitions =>
    rw [hs] at h
    obtain ⟨hmode, hparts⟩ := h
    have hsome : partitions = fun i => some (C.report i) := by
      funext k
      rw [hparts k, if_neg (hall k)]
    rw [hmode, hsome]
    rfl
  | collectLeft data =>
    rw [hs] at h
    obtain ⟨hmode, hnone, hsome⟩ := h
    rw [hmode]
    show _ = AccumulatedBuildData.collectLeft ((List.finRange n).head?.map C.report)
    cases data with
    | none => exact absurd (hnone rfl i) (hall i)
    | some d =>
      have hne : List.finRange n ≠ [] := List.ne_nil_of_mem (List.mem_finRange i)
      rw [List.head?_eq_some_head hne, Option.map_some, ← hsome d rfl]

theorem accumulatorOk_init {inner : AccumulatedBuildData W n}
    (h : AccumulatedBuildData.newFromPartitionMode C.join.mode = some inner) :
    C.AccumulatorOk (init inner) := by
  refine ⟨?_, .inl ⟨rfl, fun _ => .inl rfl⟩⟩
  cases hmode : C.join.mode with
  | partitioned =>
    rw [hmode] at h
    cases h
    exact ⟨hmode, fun _ => rfl⟩
  | collectLeft =>
    rw [hmode] at h
    cases h
    exact ⟨hmode, fun _ _ => rfl, nofun⟩
  | auto =>
    rw [hmode] at h
    cases h

/-- A stream before the barrier moves. -/
theorem AccumulatorOk.poll_collecting (h : C.AccumulatorOk s) (hphase : Collecting s)
    (hshared : C.join.mode = .collectLeft → ∀ i k, C.report i = C.report k)
    (hpoll : C.poll s i = some s') : C.AccumulatorOk s' := by
  obtain ⟨hfilter, htasks⟩ := hphase
  have hupdate : ∀ task, task = .report ∨ task = .reported ∨ task = .waiting →
      ∀ k, Function.update s.tasks i task k = .report ∨
        Function.update s.tasks i task k = .reported ∨
        Function.update s.tasks i task k = .waiting := by
    intro task htask k
    by_cases hk : k = i
    · subst hk
      simpa only [Function.update_self] using htask
    · simpa only [Function.update_of_ne hk] using htasks k
  unfold poll at hpoll
  rcases htasks i with hi | hi | hi
  · obtain ⟨data, inner, hdata, hinner, hstored⟩ := h.stored.report (i := i) hshared
    simp only [hi, hdata, hinner, Option.bind_eq_bind, Option.bind_some] at hpoll
    cases hpoll
    exact ⟨hstored, .inl ⟨hfilter, hupdate _ (.inr (.inl rfl))⟩⟩
  · simp only [hi] at hpoll
    cases hpoll
    refine ⟨h.stored.frame rfl fun k => ?_, .inl ⟨hfilter, hupdate _ (.inr (.inr rfl))⟩⟩
    by_cases hk : k = i
    · subst hk
      simp [hi]
    · simp only [Function.update_of_ne hk]
  · simp only [hi] at hpoll
    cases hpoll

theorem Released.ne_report {m : Fin n} (h : C.Released s m) (k : Fin n) : s.tasks k ≠ .report := by
  obtain ⟨hothers, hleader⟩ := h
  by_cases hk : k = m
  · subst hk
    rcases hleader with ⟨hk, -⟩ | ⟨hk | hk, -⟩ <;> simp [hk]
  · rcases hothers k hk with hk | hk <;> simp [hk]

/-- A stream after the barrier moves. Only the leader changes the filter, and only once. -/
theorem AccumulatorOk.poll_released (h : C.AccumulatorOk s) {m : Fin n} (hphase : C.Released s m)
    (hpoll : C.poll s i = some s') : C.AccumulatorOk s' := by
  have hreported := hphase.ne_report
  obtain ⟨hothers, hleader⟩ := hphase
  have hframe : ∀ {t : AccumulatorState W n} {task : ReportTask}, task ≠ .report →
      t.inner = s.inner → t.tasks = Function.update s.tasks i task → C.Stored t := by
    intro t task htask hinner htasks
    refine h.stored.frame hinner fun k => ?_
    rw [htasks]
    by_cases hk : k = i
    · subst hk
      simp [htask, hreported k]
    · rw [Function.update_of_ne hk]
  have hkeep : ∀ task, ∀ k, k ≠ i → Function.update s.tasks i task k = s.tasks k := fun task k hk =>
    Function.update_of_ne hk _ _
  unfold poll at hpoll
  by_cases him : i = m
  · subst him
    have hrest : ∀ task k, k ≠ i → Function.update s.tasks i task k = .follower ∨
        Function.update s.tasks i task k = .done := by
      intro task k hk
      rw [hkeep task k hk]
      exact hothers k hk
    rcases hleader with ⟨hi, hfilter⟩ | ⟨hi | hi, hgen, hexpr⟩
    · -- The leader finds all reports and writes the filter.
      simp only [hi] at hpoll
      cases hpoll
      refine ⟨hframe (by decide) rfl rfl, .inr ⟨i, hrest _, .inr ⟨.inl ?_, ?_⟩⟩⟩
      · exact Function.update_self _ _ _
      · have hall := h.stored.eq_all hreported i
        unfold updateFilter dynamicFilter
        rw [hall, hfilter]
        cases buildFilter W C.join C.hash C.order C.route (.all C.join.mode C.report) with
        | none => exact ⟨Nat.le_succ 1, rfl⟩
        | some expr => exact ⟨le_rfl, rfl⟩
    · simp only [hi] at hpoll
      cases hpoll
      refine ⟨hframe (by decide) rfl rfl, .inr ⟨i, hrest _, .inr ⟨.inr ?_, hgen, hexpr⟩⟩⟩
      exact Function.update_self _ _ _
    · simp only [hi] at hpoll
      cases hpoll
  · rcases hothers i him with hi | hi
    · simp only [hi] at hpoll
      cases hpoll
      refine ⟨hframe (by decide) rfl rfl, .inr ⟨m, fun k hk => ?_, ?_⟩⟩
      · by_cases hki : k = i
        · subst hki
          exact .inr (Function.update_self _ _ _)
        · simp only [hkeep _ k hki]
          exact hothers k hk
      · simp only [hkeep _ m (Ne.symm him)]
        exact hleader
    · simp only [hi] at hpoll
      cases hpoll

/-- **Every step keeps the invariant.** -/
theorem AccumulatorOk.step (h : C.AccumulatorOk s)
    (hshared : C.join.mode = .collectLeft → ∀ i k, C.report i = C.report k)
    {a : ReportAction n} (hstep : C.step s a = some s') : C.AccumulatorOk s' := by
  cases a with
  | poll i =>
    rcases h.phase with hphase | ⟨m, hphase⟩
    · exact h.poll_collecting hphase hshared hstep
    · exact h.poll_released hphase hstep
  | elect i =>
    unfold ReportContext.step at hstep
    simp only at hstep
    split_ifs at hstep with hwaiting
    cases hstep
    have hfilter : s.filter = .new := by
      rcases h.phase with hphase | ⟨m, -, hleader⟩
      · exact hphase.1
      · rw [hwaiting m] at hleader
        rcases hleader with ⟨hm, -⟩ | ⟨hm | hm, -⟩ <;> cases hm
    refine ⟨h.stored.frame rfl fun k => ?_, .inr ⟨i, fun k hk => .inl (if_neg hk), .inl ⟨?_, ?_⟩⟩⟩
    · rw [hwaiting k]
      simp only
      split_ifs <;> simp
    · exact if_pos rfl
    · exact hfilter

end ReportContext

/-! ## The filter in every run -/

section
variable {W : World S} {j : HashJoinExec S} {H : KeyHash W} {O : KeyOrder W} {route : KeyHash W}
variable {n : Nat} {report : Fin n → PartitionData W} {keys : Option (IntegerKeys W)}
variable {build : Fin n → List (RecordBatch S)}

/-- **The dynamic filter loses no partner.** In every state of every run the filter was updated at
most once, and only if all have reported; it is true on every probe row with a partner; and a join
over the rows it keeps is the join. -/
theorem dynamicFilter_keeps_partners (h : BuildReports W j H O route report keys build)
    (config : OptimizerConfig) (hallow : j.allowJoinDynamicFilterPushdown config = true)
    (hne : j.nullEquality = .nullEqualsNothing) {inner : AccumulatedBuildData W n}
    (hinner : AccumulatedBuildData.newFromPartitionMode j.mode = some inner)
    (schedule : List (ReportAction n)) {s : AccumulatorState W n}
    (hrun : Runs.run (ReportContext.step ⟨j, H, O, route, report⟩) (fun _ _ => True)
      (ReportContext.init inner) schedule = some s) :
    s.filter.generation ≤ 2 ∧
    (s.filter.generation ≠ 1 → ∀ i, s.tasks i ≠ .report) ∧
    (∀ i, ∀ l ∈ (build i).flatten, ∀ r, RightTyped W j keys r → j.keysEqual W l r = true →
      s.filter.expr r = some true) ∧
    ∀ i cis, ∀ R : Multiset (Row S), (∀ r ∈ R, RightTyped W j keys r) →
      j.join W cis (rowsOf (build i)) (R.filter fun r => s.filter.expr r == some true) =
        j.join W cis (rowsOf (build i)) R := by
  let C : ReportContext W n := ⟨j, H, O, route, report⟩
  have hok : C.AccumulatorOk s := by
    refine (Runs.reaches_of_run hrun).invariant (C.accumulatorOk_init hinner) ?_
    intro t a u ht _ hstep
    exact ht.step (fun hmode i k => (h.shared hmode i k).2) hstep
  have htrue : ∀ i, ∀ l ∈ (build i).flatten, ∀ r, RightTyped W j keys r →
      j.keysEqual W l r = true → s.filter.expr r = some true := by
    intro i l hl r hr heq
    have hfinal : dynamicFilter W j H O route report r = some true := by
      rw [dynamicFilter_eq_true_iff h hr hl heq, hasNullKey_of_keysEqual hne heq]
      exact fun hnull => absurd hnull Bool.false_ne_true
    rcases hok.phase with ⟨hfilter, -⟩ | ⟨m, -, ⟨-, hfilter⟩ | ⟨-, -, hexpr⟩⟩
    · rw [hfilter]
      rfl
    · rw [hfilter]
      rfl
    · rw [hexpr]
      exact hfinal
  refine ⟨?_, ?_, htrue, fun i cis R hR => ?_⟩
  · rcases hok.phase with ⟨hfilter, -⟩ | ⟨m, -, ⟨-, hfilter⟩ | ⟨-, hgen, -⟩⟩
    · rw [hfilter]
      exact Nat.le_succ 1
    · rw [hfilter]
      exact Nat.le_succ 1
    · exact hgen
  · intro hgen k
    rcases hok.phase with ⟨hfilter, -⟩ | ⟨m, hreleased⟩
    · rw [hfilter] at hgen
      exact absurd rfl hgen
    · exact hreleased.ne_report k
  · refine HashJoinExec.join_filter_right (HashJoinExec.probePreserved_of_allow hallow) ?_
    intro l hl r hr hjoins
    rw [HashJoinExec.joins_eq, Bool.and_eq_true] at hjoins
    rw [htrue i l (Multiset.mem_coe.1 hl) r (hR r hr) hjoins.1]
    rfl

end

/-! ## Customers in two partitions -/

/-- The order of the `int64`s. -/
def int64Order : KeyOrder rowWorld where
  le a b := match a, b with
    | .int64 a, .int64 b => decide (a.toInt ≤ b.toInt)
    | .int64 _, _ => true
    | _, .int64 _ => false
    | _, _ => true
  total a b := by
    cases a <;> cases b <;> simp [le_total]
  trans {a b c} h h' := by
    cases a <;> cases b <;> cases c <;> simp_all
    omega
  le_of_valueEq {a b} h := by
    cases a <;> cases b <;> simp_all [World.valueEq]

def parityHash : KeyHash rowWorld where
  hash keys := match keys with
    | [.int64 k] => if k % 2 = 0 then 0 else 1
    | _ => 0
  hash_eq {a b} h := by
    cases h with
    | nil => rfl
    | @cons x y xs ys hxy h =>
      cases h with
      | nil => cases x <;> cases y <;> simp_all [World.keyEq, World.valueEq]
      | cons _ _ => cases x <;> cases y <;> rfl

def partitionedOnCustomer : HashJoinExec rowSig :=
  { onCustomer .inner none false with mode := .partitioned }

def customersByParity : Fin 2 → List (RecordBatch rowSig)
  | 0 => [[[.int64 2]]]
  | 1 => [[[.int64 1], [.int64 3]]]

def parityTables : Fin 2 → JoinLeftData rowWorld
  | 0 => ⟨.hashMap (.ofBatches [[7]]), [[.int64 2]]⟩
  | 1 => ⟨.hashMap (.ofBatches [[7, 7]]), [[.int64 1], [.int64 3]]⟩

/-- The even customers are reported as a list with bounds, the odd ones by their table. -/
def parityReports (i : Fin 2) : PartitionData rowWorld :=
  partitionData rowWorld partitionedOnCustomer int64Order (parityTables i) (customersByParity i)
    (i.val == 0) (i.val == 0)

theorem parityReports_keep_partners :
    ∃ s, Runs.run (ReportContext.step
        ⟨partitionedOnCustomer, collidingHash, int64Order, parityHash, parityReports⟩)
        (fun _ _ => True) (ReportContext.init (.partitioned fun _ => none))
        [.poll 1, .poll 0, .poll 0, .poll 1, .elect 1, .poll 1, .poll 0, .poll 1] = some s ∧
      s.filter.generation ≤ 2 ∧
      (s.filter.generation ≠ 1 → ∀ i, s.tasks i ≠ .report) ∧
      (∀ i, ∀ l ∈ (customersByParity i).flatten, ∀ r,
        RightTyped rowWorld partitionedOnCustomer none r →
        partitionedOnCustomer.keysEqual rowWorld l r = true → s.filter.expr r = some true) ∧
      ∀ i cis, ∀ R : Multiset (Row rowSig),
        (∀ r ∈ R, RightTyped rowWorld partitionedOnCustomer none r) →
        partitionedOnCustomer.join rowWorld cis (rowsOf (customersByParity i))
            (R.filter fun r => s.filter.expr r == some true) =
          partitionedOnCustomer.join rowWorld cis (rowsOf (customersByParity i)) R := by
  have hreports : BuildReports rowWorld partitionedOnCustomer collidingHash int64Order parityHash
      parityReports none customersByParity :=
    { on := List.cons_ne_nil _ _
      mode := by decide
      reports := fun i => ⟨⟨noPerfectHash, fun _ => none, parityTables i, i.val == 0, i.val == 0,
        match i with
        | 0 => rfl
        | 1 => rfl, rfl⟩, nofun⟩
      shared := nofun
      routed := fun _ i l hl => by
        match i with
        | 0 =>
          rw [List.mem_singleton.1 hl]
          rfl
        | 1 =>
          rcases List.mem_pair.1 hl with rfl | rfl
          · rfl
          · rfl }
  obtain ⟨s, hs⟩ : ∃ s, Runs.run (ReportContext.step
      ⟨partitionedOnCustomer, collidingHash, int64Order, parityHash, parityReports⟩)
      (fun _ _ => True) (ReportContext.init (.partitioned fun _ => none))
      [.poll 1, .poll 0, .poll 0, .poll 1, .elect 1, .poll 1, .poll 0, .poll 1] = some s :=
    ⟨_, rfl⟩
  exact ⟨s, hs, dynamicFilter_keeps_partners hreports ⟨true, 0⟩ rfl rfl rfl _ hs⟩

end PredicateTransfer
