import PredicateTransfer.StreamProof

/-!
# All streams of a hash join

The streams of a join together (`RunOk`): each is in order, the shared state holds nothing that
does not come from some stream's input, and the counter fits the streams that are done. The last
stream finds all others done, so the bitmap and the flags are final when it reads them
(`RunOk.settled`).

A run of all streams ends, and what they output is what the probe rows contribute one by one and,
from one stream only, the final pass (`RunOk.outputs`). Unless the join is null-aware that is the
join of the two inputs (`hashJoin_streams_eq_join`).
-/

namespace PredicateTransfer

open SemiJoin Chunks CountDown

variable {S : Sig}

namespace JoinContext

variable {W : World S} {n : Nat}

/-- The probe rows of all streams. -/
def probeBag (inputs : Fin n → List (RecordBatch S)) : Multiset (Row S) := ∑ i, rowsOf (inputs i)

theorem mem_probeBag {inputs : Fin n → List (RecordBatch S)} {r : Row S} :
    r ∈ probeBag inputs ↔ ∃ i, ∃ b ∈ inputs i, r ∈ b := by
  simp only [probeBag, Multiset.mem_sum, Finset.mem_univ, true_and, rowsOf, Multiset.mem_coe,
    List.mem_flatten]

/-- A stream whose input holds a `NULL` key. -/
def HasNull (C : JoinContext W) (inputs : Fin n → List (RecordBatch S)) : Prop :=
  ∃ i, ∃ b ∈ inputs i, b.any C.rightNull = true

variable (C : JoinContext W) (partners : Row S → List Nat)
variable (chunksOf : RecordBatch S → List (List (Nat × Nat)))
variable (inputs : Fin n → List (RecordBatch S))

/-- All streams are in order, with these roles and bounds. -/
structure RunOk (role : Fin n → Role) (bounds : Fin n → Nat) (s : JoinState S n) : Prop where
  streams : ∀ i, C.StreamOk partners chunksOf (probeBag inputs) s.shared (inputs i) (s.streams i)
    (role i) (bounds i)
  length_eq : C.join.joinType.needProduceResultInFinal = true →
    s.shared.visitedIndicesBitmap.length = C.left.batch.length
  visited : ∀ k : Nat, s.shared.visitedIndicesBitmap[k]? = some true →
    ∃ i, ∃ b ∈ inputs i, ∃ p, (p, k) ∈ matchesFrom partners 0 b
  hasNull : s.shared.probeSideHasNull = true → C.join.nullAware = true ∧ C.HasNull inputs
  nonEmpty : s.shared.probeSideNonEmpty = true → ∃ i, ∃ b ∈ inputs i, b ≠ []
  counted : Counted s.shared.probeThreadsCounter role

variable {C partners chunksOf inputs}
variable {role : Fin n → Role} {bounds : Fin n → Nat} {s : JoinState S n}

theorem runOk_init [NeZero n] : C.RunOk partners chunksOf inputs (fun _ => .working)
    (fun i => fetchBound chunksOf (inputs i) + 1) (C.init inputs) where
  streams _ := .waiting
  length_eq hfinal := by simp [init, hfinal]
  visited k hk := by
    simp only [init] at hk
    split_ifs at hk
    · rw [List.getElem?_replicate] at hk
      split_ifs at hk
      cases hk
    · cases hk
  hasNull h := by cases h
  nonEmpty h := by cases h
  counted := by
    have h : Counted (Fintype.card (Fin n)) fun _ : Fin n => .working := counted_init
    rwa [Fintype.card_fin] at h

/-- A stream that reported has left all its input behind, without a `NULL`. -/
theorem StreamOk.reported {R : Multiset (Row S)} {shared : SharedState}
    {input : List (RecordBatch S)} {t : HashJoinStream S} {r : Role} {bound : Nat}
    (h : C.StreamOk partners chunksOf R shared input t r bound) (hr : r ≠ .working) :
    C.Seen partners shared input ∧
      (C.join.nullAware = true → ∀ b ∈ input, b.any C.rightNull = false) := by
  cases h with
  | reading _ hseen _ hnull => exact ⟨hseen, hnull⟩
  | finishing _ hseen _ hnull => exact ⟨hseen, hnull⟩
  | completed _ hseen _ hnull => exact ⟨hseen, hnull hr⟩
  | waiting => exact absurd rfl hr
  | fetching => exact absurd rfl hr
  | probing => exact absurd rfl hr
  | checking => exact absurd rfl hr
  | reporting => exact absurd rfl hr

/-- **When the last stream is at work, the shared state is final.** -/
theorem RunOk.settled (h : C.RunOk partners chunksOf inputs role bounds s)
    (hserves : ∀ i, ∀ b ∈ inputs i, C.Serves partners chunksOf b)
    (hfinal : C.join.joinType.needProduceResultInFinal = true) {i : Fin n}
    (hi : role i = .last) : C.Settled (probeBag inputs) s.shared := by
  have hreported : ∀ k, _ := fun k => (h.streams k).reported (h.counted.all_of_last hi k)
  have hnull : s.shared.probeSideHasNull = false := by
    rw [← Bool.not_eq_true]
    intro hset
    obtain ⟨haware, k, b, hb, hany⟩ := h.hasNull hset
    rw [(hreported k).2 haware b hb] at hany
    cases hany
  have hbit : ∀ (k : Nat) (l : Row S), C.left.batch[k]? = some l →
      (s.shared.visitedIndicesBitmap[k]? = some true ↔
        hasPartner (C.join.joins W) (probeBag inputs) l = true) := by
    intro k l hl
    rw [hasPartner_iff]
    constructor
    · intro hset
      obtain ⟨m, b, hb, p, hp⟩ := h.visited k hset
      obtain ⟨-, r, hr, hk⟩ := (mem_matchesFrom partners).1 hp
      have hr := List.mem_of_getElem? hr
      obtain ⟨l', hl', hjoin⟩ := (((hserves m b hb).lists r hr).mem_iff k).1 hk
      rw [hl, Option.some_inj] at hl'
      subst hl'
      exact ⟨r, mem_probeBag.2 ⟨m, b, hb, hr⟩, hjoin⟩
    · rintro ⟨r, hr, hjoin⟩
      obtain ⟨m, b, hb, hr⟩ := mem_probeBag.1 hr
      have hk := (((hserves m b hb).lists r hr).mem_iff k).2 ⟨l, hl, hjoin⟩
      obtain ⟨p, hp⟩ := List.mem_iff_getElem?.1 hr
      exact (hreported m).1.marked hnull hfinal b hb (p, k)
        ((mem_matchesFrom partners).2 ⟨Nat.zero_le _, r, hp, hk⟩)
  refine ⟨List.ext_getElem? fun k => ?_, fun haware => ⟨fun hset => ?_, fun hcard => ?_⟩⟩
  · rw [List.getElem?_map]
    cases hl : C.left.batch[k]? with
    | none =>
      have hle := List.getElem?_eq_none_iff.1 hl
      rw [Option.map_none, List.getElem?_eq_none_iff, h.length_eq hfinal]
      exact hle
    | some l =>
      have hlt : k < s.shared.visitedIndicesBitmap.length := by
        rw [h.length_eq hfinal]
        exact (List.getElem?_eq_some_iff.1 hl).1
      have hiff := hbit k l hl
      rw [List.getElem?_eq_getElem hlt, Option.some_inj] at hiff
      rw [List.getElem?_eq_getElem hlt, Option.map_some, Option.some_inj, Bool.eq_iff_iff]
      exact hiff
  · obtain ⟨m, b, hb, hne⟩ := h.nonEmpty hset
    obtain ⟨r, hr⟩ := List.exists_mem_of_ne_nil b hne
    exact Multiset.card_pos_iff_exists_mem.2 ⟨r, mem_probeBag.2 ⟨m, b, hb, hr⟩⟩
  · obtain ⟨r, hr⟩ := Multiset.card_pos_iff_exists_mem.1 hcard
    obtain ⟨m, b, hb, hr⟩ := mem_probeBag.1 hr
    exact (hreported m).1.nonEmpty haware b hb (List.ne_nil_of_mem hr)

/-- Only a join with a final pass has a last stream at work. -/
theorem StreamOk.final_of_last {R : Multiset (Row S)} {shared : SharedState}
    {input : List (RecordBatch S)} {t : HashJoinStream S} {bound : Nat}
    (h : C.StreamOk partners chunksOf R shared input t .last bound)
    (hne : t.state ≠ .completed) : C.join.joinType.needProduceResultInFinal = true := by
  cases h with
  | reading _ _ hfinal _ => exact hfinal
  | finishing _ _ hfinal _ => exact hfinal
  | completed => exact absurd rfl hne

/-- **Polling any stream that is not done keeps all in order.** -/
theorem RunOk.step (h : C.RunOk partners chunksOf inputs role bounds s) (hproper : C.Proper)
    (hserves : ∀ i, ∀ b ∈ inputs i, C.Serves partners chunksOf b) {i : Fin n}
    (hne : (s.streams i).state ≠ .completed) :
    ∃ s' role' bounds', C.step s i = some s' ∧ C.RunOk partners chunksOf inputs role' bounds' s' ∧
      ∑ k, bounds' k < ∑ k, bounds k := by
  have hsettled : role i = .last → C.Settled (probeBag inputs) s.shared := by
    intro hlast
    have hi := h.streams i
    rw [hlast] at hi
    exact h.settled hserves (hi.final_of_last hne) hlast
  obtain ⟨shared', t, role', bound', hpoll, hok, hlt, hchanges, hcounts⟩ :=
    (h.streams i).poll hproper (hserves i) h.length_eq hsettled hne
  refine ⟨⟨shared', Function.update s.streams i t⟩, Function.update role i role',
    Function.update bounds i bound', by rw [JoinContext.step, hpoll]; rfl, ?_, ?_⟩
  · refine ⟨fun k => ?_, fun hfinal => ?_, fun k hk => ?_, fun hset => ?_, fun hset => ?_,
      h.counted.update hcounts⟩
    · by_cases hk : k = i
      · subst hk
        simpa using hok
      · simpa [Function.update_of_ne hk] using (h.streams k).mono hchanges.grows
    · exact hchanges.length_eq.trans (h.length_eq hfinal)
    · rcases hchanges.visited k hk with hold | ⟨b, hb, hp⟩
      · exact h.visited k hold
      · exact ⟨i, b, hb, hp⟩
    · rcases hchanges.hasNull hset with hold | ⟨haware, b, hb, hany⟩
      · exact h.hasNull hold
      · exact ⟨haware, i, b, hb, hany⟩
    · rcases hchanges.nonEmpty hset with hold | ⟨b, hb, hne⟩
      · exact h.nonEmpty hold
      · exact ⟨i, b, hb, hne⟩
  · refine Finset.sum_lt_sum (fun k _ => ?_) ⟨i, Finset.mem_univ i, by simpa using hlt⟩
    by_cases hk : k = i
    · subst hk
      simpa using hlt.le
    · rw [Function.update_of_ne hk]

/-! ## The outputs -/

theorem StreamOk.of_completed {R : Multiset (Row S)} {shared : SharedState}
    {input : List (RecordBatch S)} {t : HashJoinStream S} {r : Role} {bound : Nat}
    (h : C.StreamOk partners chunksOf R shared input t r bound) (hstate : t.state = .completed) :
    (t.output : Multiset (Row S)) = C.probeOutput input + (if r = .last then C.lastRows R else 0) ∧
      (r = .working → C.join.joinType.needProduceResultInFinal = false ∨
        C.join.nullAware = true ∧ shared.probeSideHasNull = true) := by
  cases h with
  | completed hout _ hworking _ => exact ⟨hout, hworking⟩
  | waiting => cases hstate
  | fetching => cases hstate
  | probing => cases hstate
  | checking => cases hstate
  | reporting => cases hstate
  | reading => cases hstate
  | finishing => cases hstate

/-- Without a final pass there are no rows of one. -/
theorem lastRows_of_not_final (hproper : C.Proper)
    (hfinal : C.join.joinType.needProduceResultInFinal = false) (R : Multiset (Row S)) :
    C.lastRows R = 0 := by
  have haware : ¬ C.join.nullAware = true := by
    intro haware
    rw [hproper.nullAware haware] at hfinal
    cases hfinal
  unfold lastRows HashJoinExec.finalRows
  rw [if_neg fun h => haware h.1]
  cases hjoin : C.join.joinType <;> rw [hjoin] at hfinal <;> first | rfl | cases hfinal

/-- **What the streams output in the end**: for its probe rows, each stream its own; the final
pass, one stream only, and none if a null-aware join met a `NULL`. -/
theorem RunOk.outputs [NeZero n] (h : C.RunOk partners chunksOf inputs role bounds s)
    (hproper : C.Proper) (hdone : ∀ i, (s.streams i).state = .completed) :
    (C.join.nullAware = true ∧ C.HasNull inputs →
      ∀ i, ((s.streams i).output : Multiset (Row S)) = C.probeOutput (inputs i)) ∧
    (¬ (C.join.nullAware = true ∧ C.HasNull inputs) →
      ∃ k, ∀ i, ((s.streams i).output : Multiset (Row S)) = C.probeOutput (inputs i) +
        if i = k then C.lastRows (probeBag inputs) else 0) := by
  have hout := fun i => (h.streams i).of_completed (hdone i)
  refine ⟨fun ⟨haware, k, b, hb, hany⟩ i => ?_, fun hnull => ?_⟩
  · -- The stream with the `NULL` has not reported, so there is no last one.
    have hworking : role k = .working := by
      by_contra hne
      rw [((h.streams k).reported hne).2 haware b hb] at hany
      cases hany
    have hlast : role i ≠ .last := fun hi => h.counted.all_of_last hi k hworking
    rw [(hout i).1, if_neg hlast, add_zero]
  · by_cases hfinal : C.join.joinType.needProduceResultInFinal = true
    · have hreported : ∀ i, role i ≠ .working := by
        intro i hi
        rcases (hout i).2 hi with hnot | ⟨-, hset⟩
        · rw [hfinal] at hnot
          cases hnot
        · exact hnull (h.hasNull hset)
      obtain ⟨k, hk⟩ := h.counted.exists_last hreported
      refine ⟨k, fun i => ?_⟩
      rw [(hout i).1]
      by_cases hi : i = k
      · rw [hi, if_pos hk, if_pos rfl]
      · rw [if_neg hi, if_neg fun hlast => hi (h.counted.last_unique hlast hk)]
    · refine ⟨0, fun i => ?_⟩
      rw [(hout i).1, lastRows_of_not_final hproper (Bool.eq_false_iff.2 hfinal), ite_self,
        ite_self]

/-- Every run of the streams ends, no stream gets stuck before it is done, and when all are done
their outputs are as stated. -/
def EndsWith (C : JoinContext W) (inputs : Fin n → List (RecordBatch S))
    (Q : (Fin n → Multiset (Row S)) → Prop) : Prop :=
  ∃ bound, ∀ schedule s, Runs.run C.step (fun _ _ => True) (C.init inputs) schedule = some s →
    schedule.length ≤ bound ∧
    (∀ i, (s.streams i).state ≠ .completed → (C.step s i).isSome = true) ∧
    ((∀ i, (s.streams i).state = .completed) → Q fun i => (s.streams i).output)

theorem EndsWith.imp {Q Q' : (Fin n → Multiset (Row S)) → Prop} (h : C.EndsWith inputs Q)
    (himp : ∀ out, Q out → Q' out) : C.EndsWith inputs Q' := by
  obtain ⟨bound, hrun⟩ := h
  refine ⟨bound, fun schedule s hs => ?_⟩
  obtain ⟨hlen, hprogress, hout⟩ := hrun schedule s hs
  exact ⟨hlen, hprogress, fun hdone => himp _ (hout hdone)⟩

theorem poll_completed {shared : SharedState} {t : HashJoinStream S} (h : t.state = .completed) :
    C.poll shared t = none := by
  simp only [poll, h]

theorem endsWith_outputs [NeZero n] (hproper : C.Proper)
    (hserves : ∀ i, ∀ b ∈ inputs i, C.Serves partners chunksOf b) :
    C.EndsWith inputs fun out =>
      (C.join.nullAware = true ∧ C.HasNull inputs → ∀ i, out i = C.probeOutput (inputs i)) ∧
      (¬ (C.join.nullAware = true ∧ C.HasNull inputs) →
        ∃ k, ∀ i, out i = C.probeOutput (inputs i) +
          if i = k then C.lastRows (probeBag inputs) else 0) := by
  let I : JoinState S n → Nat → Prop := fun s m =>
    ∃ role bounds, C.RunOk partners chunksOf inputs role bounds s ∧ ∑ i, bounds i = m
  have hstep : ∀ {s m i t}, I s m → C.step s i = some t → ∃ m' < m, I t m' := by
    rintro s m i t ⟨role, bounds, hok, rfl⟩ ht
    have hne : (s.streams i).state ≠ .completed := by
      intro hstate
      rw [step, poll_completed hstate] at ht
      cases ht
    obtain ⟨s', role', bounds', hs', hok', hlt⟩ := hok.step hproper hserves hne
    rw [hs'] at ht
    cases ht
    exact ⟨_, hlt, role', bounds', hok', rfl⟩
  refine ⟨∑ i, (fetchBound chunksOf (inputs i) + 1), fun schedule s hrun => ?_⟩
  obtain ⟨m, ⟨role, bounds, hok, -⟩, hle⟩ :=
    Runs.bounded_of_run ⟨_, _, runOk_init, rfl⟩ hstep hrun
  refine ⟨(Nat.le_add_right _ _).trans hle, fun i hne => ?_, hok.outputs hproper⟩
  obtain ⟨s', -, -, hs', -⟩ := hok.step hproper hserves hne
  rw [hs']
  rfl

/-! ## The table serves every batch -/

/-- With the residual filter applied, the lookup of a table that finds the rows with equal keys
finds those that join. -/
theorem exists_serves {rowsOf' : Row S → List Nat} (hfinds : C.left.Finds C.hash C.join rowsOf')
    (hsize : 0 < C.batchSize) :
    ∃ partners chunksOf, ∀ batch, (∀ r ∈ batch, C.left.Typed C.join r) →
      C.Serves partners chunksOf batch := by
  choose chunks hyields hflat using fun batch => hfinds.yields batch hsize
  let partners : Row S → List Nat := fun r =>
    (rowsOf' r).filter fun k => (C.left.batch[k]?).any (C.join.filterPasses W · r)
  refine ⟨partners, fun batch =>
    (chunks batch).map (List.filter (C.join.applyJoinFilter W C.left.batch batch)),
    fun batch htyped => ⟨fun r hr => ?_, (hyields batch).filter _, ?_, fun hempty r hr => ?_⟩⟩
  · have hlists := hfinds.lists r (htyped r hr)
    refine ⟨hlists.nodup.filter _, fun k => ?_⟩
    rw [List.mem_filter, hlists.mem_iff]
    constructor
    · rintro ⟨⟨l, hl, heq⟩, hpass⟩
      rw [hl, Option.any_some] at hpass
      exact ⟨l, hl, by rw [HashJoinExec.joins_eq, heq, hpass]; rfl⟩
    · rintro ⟨l, hl, hjoin⟩
      rw [HashJoinExec.joins_eq, Bool.and_eq_true] at hjoin
      exact ⟨⟨l, hl, hjoin.1⟩, by rw [hl, Option.any_some]; exact hjoin.2⟩
  · have hrows : (matchesFrom rowsOf' 0 batch).filter
        (C.join.applyJoinFilter W C.left.batch batch) =
        (matchesFrom partners 0 batch).map (Prod.map id id) := by
      refine filter_matchesFrom _ rfl fun p r r' hr hr' => ?_
      rw [hr, Option.some_inj] at hr'
      subst hr'
      rw [List.map_id, Nat.zero_add]
      refine List.filter_congr fun k hk => ?_
      have hlists := hfinds.lists r (htyped r (List.mem_of_getElem? hr))
      obtain ⟨l, hl, -⟩ := (hlists.mem_iff k).1 hk
      rw [hl, Option.any_some, HashJoinExec.applyJoinFilter_eq _ _ hl hr]
    rw [← List.filter_flatten, hflat, hrows, Prod.map_id, List.map_id]
  · show (rowsOf' r).filter _ = []
    rw [hfinds.isEmpty hempty r]
    rfl

/-- The outputs of the streams over a build side as it was collected. -/
theorem endsWith_of_collectLeftInput {config : PerfectHashConfig} {keys : Option (IntegerKeys W)}
    {bounds : (t : IntegerType) → Option (List (ColumnBounds t))} {build : List (RecordBatch S)}
    (hproper : C.Proper) (hon : C.join.on ≠ []) (hsize : 1 ≤ C.batchSize) (hn : 1 ≤ n)
    (hleft : collectLeftInput W C.join C.hash config keys bounds build = .ok C.left)
    (hbuild : ∀ I, keys = some I →
      ∀ l ∈ build.flatten, I.IsValue ((C.join.leftKeys W l).headD .null))
    (hprobe : ∀ I, keys = some I → ∀ i, ∀ b ∈ inputs i, ∀ r ∈ b,
      I.IsValue ((C.join.rightKeys W r).headD .null)) :
    (C.left.batch : Multiset (Row S)) = rowsOf build ∧ C.EndsWith inputs fun out =>
      (C.join.nullAware = true ∧ C.HasNull inputs → ∀ i, out i = C.probeOutput (inputs i)) ∧
      (¬ (C.join.nullAware = true ∧ C.HasNull inputs) →
        ∃ k, ∀ i, out i = C.probeOutput (inputs i) +
          if i = k then C.lastRows (probeBag inputs) else 0) := by
  have hne : NeZero n := ⟨Nat.one_le_iff_ne_zero.1 hn⟩
  obtain ⟨hperm, hkeys, rowsOf', hfinds⟩ := collectLeftInput_finds hon hleft hbuild
  obtain ⟨partners, chunksOf, hserves⟩ := exists_serves hfinds hsize
  have hinputs : ∀ i, ∀ b ∈ inputs i, C.Serves partners chunksOf b := fun i b hb =>
    hserves b fun r hr I m hmap => hprobe I (hkeys I m hmap) i b hb r hr
  exact ⟨Multiset.coe_eq_coe.2 hperm, endsWith_outputs hproper hinputs⟩

end JoinContext

/-! ## The join -/

variable {W : World S}

/-- Each stream outputs what its own probe rows contribute, and one stream alone the rows of the
final pass. -/
def HashJoinExec.Shares (W : World S) (j : HashJoinExec S) (cis : List ColumnIndex)
    (L : Multiset (Row S)) {n : Nat} (R out : Fin n → Multiset (Row S)) : Prop :=
  ∃ k, ∀ i, out i = (R i).bind (j.probeRows W cis L) +
    if i = k then j.finalRows W cis L (∑ i, R i) else 0

/-- The shares of all streams are the join. -/
theorem HashJoinExec.Shares.sum_eq_join {j : HashJoinExec S} {cis : List ColumnIndex}
    {L : Multiset (Row S)} {n : Nat} {R out : Fin n → Multiset (Row S)}
    (h : j.Shares W cis L R out) : ∑ i, out i = j.join W cis L (∑ i, R i) := by
  obtain ⟨k, hk⟩ := h
  rw [Finset.sum_congr rfl fun i _ => hk i, Finset.sum_add_distrib, Finset.sum_ite_eq',
    if_pos (Finset.mem_univ k), HashJoinExec.join_eq_bind_add, sum_bind]

/-- The streams share the join of the two inputs. -/
theorem endsWith_shares {j : HashJoinExec S} {H : KeyHash W} {config : PerfectHashConfig}
    {keys : Option (IntegerKeys W)} {bounds : (t : IntegerType) → Option (List (ColumnBounds t))}
    {build : List (RecordBatch S)} {left : JoinLeftData W} (leftSchema rightSchema : Schema)
    (rightSideOrdered : Bool) {batchSize n : Nat} {inputs : Fin n → List (RecordBatch S)}
    (hon : j.on ≠ []) (hfetch : j.fetch = none) (haware : j.nullAware = false)
    (hsize : 1 ≤ batchSize) (hn : 1 ≤ n)
    (hleft : collectLeftInput W j H config keys bounds build = .ok left)
    (hbuild : ∀ I, keys = some I → ∀ l ∈ build.flatten, I.IsValue ((j.leftKeys W l).headD .null))
    (hprobe : ∀ I, keys = some I → ∀ i, ∀ b ∈ inputs i, ∀ r ∈ b,
      I.IsValue ((j.rightKeys W r).headD .null)) :
    let cis := j.columnIndices leftSchema rightSchema
    JoinContext.EndsWith ⟨j, cis, H, left, rightSideOrdered, batchSize⟩ inputs
      (j.Shares W cis (rowsOf build) fun i => rowsOf (inputs i)) := by
  intro cis
  let C : JoinContext W := ⟨j, cis, H, left, rightSideOrdered, batchSize⟩
  have hnot : ¬ C.join.nullAware = true := fun h => absurd (haware.symm.trans h) Bool.false_ne_true
  have hproper : C.Proper :=
    { fetch := hfetch
      outputSide := fun ci hci => HashJoinExec.outputSide_of_mem hci
      nullAware := fun h => absurd h hnot }
  obtain ⟨hbag, hends⟩ :=
    JoinContext.endsWith_of_collectLeftInput hproper hon hsize hn hleft hbuild hprobe
  refine hends.imp fun out hout => ?_
  obtain ⟨k, hk⟩ := hout.2 fun h => hnot h.1
  refine ⟨k, fun i => ?_⟩
  have hlast : C.lastRows (JoinContext.probeBag inputs) =
      j.finalRows W cis left.batch (∑ i, rowsOf (inputs i)) := if_neg fun h => hnot h.1
  rw [hk i, hlast, ← hbag]
  rfl

/-- **The streams of a hash join output the join of the two inputs.** However the streams are
interleaved, every run ends with all streams done; together they output the join of the build rows
and all probe rows, each stream what its own probe rows contribute, and one stream alone the rows
of the final pass. -/
theorem hashJoin_streams_eq_join (j : HashJoinExec S) (H : KeyHash W) (config : PerfectHashConfig)
    (keys : Option (IntegerKeys W)) (bounds : (t : IntegerType) → Option (List (ColumnBounds t)))
    (build : List (RecordBatch S)) (left : JoinLeftData W) (leftSchema rightSchema : Schema)
    (rightSideOrdered : Bool) (batchSize n : Nat) (inputs : Fin n → List (RecordBatch S))
    (hon : j.on ≠ []) (hfetch : j.fetch = none) (haware : j.nullAware = false)
    (hsize : 1 ≤ batchSize) (hn : 1 ≤ n)
    (hleft : collectLeftInput W j H config keys bounds build = .ok left)
    (hbuild : ∀ I, keys = some I →
      ∀ l ∈ build.flatten, I.IsValue ((j.leftKeys W l).headD .null))
    (hprobe : ∀ I, keys = some I → ∀ i, ∀ b ∈ inputs i, ∀ r ∈ b,
      I.IsValue ((j.rightKeys W r).headD .null)) :
    let cis := j.columnIndices leftSchema rightSchema
    JoinContext.EndsWith ⟨j, cis, H, left, rightSideOrdered, batchSize⟩ inputs fun out =>
      (∑ i, out i = j.join W cis (rowsOf build) (∑ i, rowsOf (inputs i))) ∧
      ∃ k, ∀ i, out i = (rowsOf (inputs i)).bind (j.probeRows W cis (rowsOf build)) +
        if i = k then j.finalRows W cis (rowsOf build) (∑ i, rowsOf (inputs i)) else 0 := by
  intro cis
  refine (endsWith_shares leftSchema rightSchema rightSideOrdered hon hfetch haware hsize hn hleft
    hbuild hprobe).imp fun out hout => ?_
  exact ⟨hout.sum_eq_join, hout⟩

/-! ## Customers and their orders, in two streams -/

/-- Scans, and one expression: the first column is less than the second. -/
def rowSig : Sig where
  Op := Schema
  Expr := Unit
  Datum := Empty
  display _ := "a@0 < b@1"
  columns _ := [("a", 0), ("b", 1)]
  opSchema schema _ := schema

def rowWorld : World rowSig where
  bloom := exactBloom
  evalExpr _ row := match Row.value row 0, Row.value row 1 with
    | .int64 a, .int64 b => .boolean (a < b)
    | _, _ => .null
  eqDatum := nofun
  opRows _ _ _ := 0
  joinRows _ _ _ _ := 0
  limit _ rows := rows

/-- A hash function for which all keys collide. -/
def collidingHash : KeyHash rowWorld := ⟨fun _ => 7, fun _ => rfl⟩

def noPerfectHash : PerfectHashConfig := ⟨0, fun _ _ => true, fun _ => .ok ()⟩

/-- `customers.customer_id = orders.customer`. -/
def onCustomer (joinType : JoinType) (filter : Option (JoinFilter rowSig)) (nullAware : Bool) :
    HashJoinExec rowSig where
  on := [(.column "customer_id" 0, .column "customer" 0)]
  filter := filter
  joinType := joinType
  mode := .collectLeft
  projection := none
  nullEquality := .nullEqualsNothing
  nullAware := nullAware
  fetch := none

/-- `customers.budget < orders.amount`. -/
def overBudget : JoinFilter rowSig := ⟨.other (), [⟨1, .left⟩, ⟨1, .right⟩]⟩

def customerBatches : List (RecordBatch rowSig) := [[[.int64 1], [.int64 2]], [[.null]]]

/-- The build side in the hash table's order. -/
def customerTable : JoinLeftData rowWorld :=
  ⟨.hashMap (.ofBatches [[7, 7], [7]]), [[.null], [.int64 1], [.int64 2]]⟩

/-- Two streams of orders, with an empty batch. -/
def orderBatches : Fin 2 → List (RecordBatch rowSig)
  | 0 => [[[.int64 2], [.int64 3], [.int64 2]], []]
  | 1 => [[[.null], [.int64 2]]]

theorem fullJoin_streams_eq_join :
    let j := onCustomer .full none false
    let cis := j.columnIndices [⟨"customer_id", .int64, true⟩] [⟨"customer", .int64, true⟩]
    collectLeftInput rowWorld j collidingHash noPerfectHash none (fun _ => none) customerBatches =
      .ok customerTable ∧
    JoinContext.EndsWith ⟨j, cis, collidingHash, customerTable, false, 1⟩ orderBatches fun out =>
      (∑ i, out i = j.join rowWorld cis (rowsOf customerBatches) (∑ i, rowsOf (orderBatches i))) ∧
      ∃ k, ∀ i, out i =
        (rowsOf (orderBatches i)).bind (j.probeRows rowWorld cis (rowsOf customerBatches)) +
        if i = k then j.finalRows rowWorld cis (rowsOf customerBatches)
          (∑ i, rowsOf (orderBatches i)) else 0 := by
  have hleft : collectLeftInput rowWorld (onCustomer .full none false) collidingHash noPerfectHash
      none (fun _ => none) customerBatches = .ok customerTable := rfl
  exact ⟨hleft, hashJoin_streams_eq_join (onCustomer .full none false) collidingHash noPerfectHash
    none (fun _ => none) customerBatches customerTable _ _ false 1 2 orderBatches
    (List.cons_ne_nil _ _) rfl rfl le_rfl (by decide) hleft nofun nofun⟩

end PredicateTransfer
