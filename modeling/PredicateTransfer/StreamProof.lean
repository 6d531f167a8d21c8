import PredicateTransfer.HashJoinStream
import PredicateTransfer.Lib.CountDown

/-!
# One stream of a hash join

What a stream knows at each point is `StreamOk`: which of its batches are done, which pairs of the
current batch went out, that its output is what those amount to, and what it has left behind in
the shared state. All of it survives whatever other streams do (`StreamOk.mono`), and polling the
stream keeps it and takes the stream further (`StreamOk.poll`).
-/

namespace PredicateTransfer

open SemiJoin Chunks CountDown

variable {S : Sig}

/-! ## What a stream knows -/

namespace JoinContext

variable {W : World S} (C : JoinContext W)

/-- The rows that a stream outputs for its probe batches. -/
def probeOutput (batches : List (RecordBatch S)) : Multiset (Row S) :=
  (batches.flatten : Multiset (Row S)).bind
    (C.join.probeRows W C.columnIndices C.left.batch)

/-- The rows of the final pass after a probe side `R` that empties no null-aware anti join. -/
def lastRows (R : Multiset (Row S)) : Multiset (Row S) :=
  if C.join.nullAware = true ∧ 0 < R.card then
    (anti (C.join.joins W) (C.left.batch : Multiset (Row S)) R |>.filter
      fun l => C.leftNull l = false).map fun l => joinedRow C.columnIndices (some l) none false
  else C.join.finalRows W C.columnIndices C.left.batch R

/-- What a run without a fetch limit takes from the plan. -/
structure Proper : Prop where
  fetch : C.join.fetch = none
  outputSide : ∀ ci ∈ C.columnIndices, C.join.joinType.outputSide ci.side = true
  nullAware : C.join.nullAware = true → C.join.joinType = .leftAnti

section
variable (partners : Row S → List Nat) (chunksOf : RecordBatch S → List (List (Nat × Nat)))

/-- The table answers for a batch: `partners` lists the partners of its rows, and the chunks of its
lookup are known. -/
structure Serves (batch : RecordBatch S) : Prop where
  lists : ∀ r ∈ batch, Lists W C.join C.left.batch r (partners r)
  yields : Yields (C.probe batch) C.batchSize (0, none) (chunksOf batch)
  flatten_eq : (chunksOf batch).flatten = matchesFrom partners 0 batch
  isEmpty : C.left.map.isEmpty = true → ∀ r ∈ batch, partners r = []

/-- What is left behind in the shared state when these batches are done. Once a `NULL` was seen,
batches are skipped and the bitmap no longer counts. -/
structure Seen (shared : SharedState) (batches : List (RecordBatch S)) : Prop where
  marked : shared.probeSideHasNull = false → C.join.joinType.needProduceResultInFinal = true →
    ∀ b ∈ batches, ∀ x ∈ matchesFrom partners 0 b, shared.visitedIndicesBitmap[x.2]? = some true
  hasNull : C.join.nullAware = true → ∀ b ∈ batches, b.any C.rightNull = true →
    shared.probeSideHasNull = true
  nonEmpty : C.join.nullAware = true → ∀ b ∈ batches, b ≠ [] → shared.probeSideNonEmpty = true

/-- A stream is at a batch: `consumed` is done and `right` to come, the pairs `done` of the batch
went out and `rest` is to come. -/
structure Probing (shared : SharedState) (input consumed right : List (RecordBatch S))
    (batch output : RecordBatch S) (joined : Option Nat) (done rest : List (Nat × Nat)) : Prop where
  input_eq : input = consumed ++ batch :: right
  pairs_eq : matchesFrom partners 0 batch = done ++ rest
  progress : Progress done rest (rangeStart joined)
  output_eq : (output : Multiset (Row S)) = C.probeOutput consumed +
    decidedRows C.join.joinType C.columnIndices C.left.batch batch done 0 (rangeStart joined)
  seen : C.Seen partners shared consumed
  marked : shared.probeSideHasNull = false → C.join.joinType.needProduceResultInFinal = true →
    ∀ x ∈ done, shared.visitedIndicesBitmap[x.2]? = some true

/-- The number of accesses at most, from fetching on. -/
def fetchBound (right : List (RecordBatch S)) : Nat :=
  (right.map fun b => 4 * (chunksOf b).length + 1).sum + 5

end

end JoinContext

/-- The accesses left for a chunk. -/
def ProbeAccess.bound : ProbeAccess → Nat
  | .storeNonEmpty => 4
  | .storeHasNull => 3
  | .loadHasNull => 2
  | .join => 1

namespace JoinContext

variable {W : World S} (C : JoinContext W)
variable (partners : Row S → List Nat) (chunksOf : RecordBatch S → List (List (Nat × Nat)))
variable (R : Multiset (Row S))

/-- A stream with this input is in order, in its role, with at most so many accesses to go. -/
inductive StreamOk (shared : SharedState) (input : List (RecordBatch S)) :
    HashJoinStream S → Role → Nat → Prop
  | waiting : StreamOk shared input ⟨.waitBuildSide, input, []⟩ .working
      (fetchBound chunksOf input + 1)
  | fetching {consumed right : List (RecordBatch S)} {output : RecordBatch S}
      (hinput : input = consumed ++ right)
      (hout : (output : Multiset (Row S)) = C.probeOutput consumed)
      (hseen : C.Seen partners shared consumed) :
      StreamOk shared input ⟨.fetchProbeBatch, right, output⟩ .working (fetchBound chunksOf right)
  | probing {consumed right : List (RecordBatch S)} {batch output : RecordBatch S}
      {offset : MapOffset} {joined : Option Nat} {next : ProbeAccess} {done : List (Nat × Nat)}
      {chunk : List (Nat × Nat)} {chunks : List (List (Nat × Nat))}
      (hprobing : C.Probing partners shared input consumed right batch output joined done
        (chunk :: chunks).flatten)
      (hyields : Yields (C.probe batch) C.batchSize offset (chunk :: chunks))
      (hnonEmpty : next ≠ .storeNonEmpty → C.join.nullAware = true → batch ≠ [] →
        shared.probeSideNonEmpty = true)
      (hnull : next = .loadHasNull ∨ next = .join → C.join.nullAware = true →
        batch.any C.rightNull = true → shared.probeSideHasNull = true) :
      StreamOk shared input ⟨.processProbeBatch batch offset joined next, right, output⟩ .working
        (4 * chunks.length + next.bound + fetchBound chunksOf right)
  | checking {output : RecordBatch S} (hout : (output : Multiset (Row S)) = C.probeOutput input)
      (hseen : C.Seen partners shared input) :
      StreamOk shared input ⟨.exhaustedProbeSide .loadHasNull, [], output⟩ .working 4
  | reporting {output : RecordBatch S} (hout : (output : Multiset (Row S)) = C.probeOutput input)
      (hseen : C.Seen partners shared input)
      (hfinal : C.join.joinType.needProduceResultInFinal = true)
      (hnull : C.join.nullAware = true → ∀ b ∈ input, b.any C.rightNull = false) :
      StreamOk shared input ⟨.exhaustedProbeSide .reportProbeCompleted, [], output⟩ .working 3
  | reading {output : RecordBatch S} (hout : (output : Multiset (Row S)) = C.probeOutput input)
      (hseen : C.Seen partners shared input)
      (hfinal : C.join.joinType.needProduceResultInFinal = true)
      (hnull : C.join.nullAware = true → ∀ b ∈ input, b.any C.rightNull = false) :
      StreamOk shared input ⟨.exhaustedProbeSide .readBitmap, [], output⟩ .last 2
  | finishing {output : RecordBatch S} (hout : (output : Multiset (Row S)) = C.probeOutput input)
      (hseen : C.Seen partners shared input)
      (hfinal : C.join.joinType.needProduceResultInFinal = true)
      (hnull : C.join.nullAware = true → ∀ b ∈ input, b.any C.rightNull = false) :
      StreamOk shared input ⟨.exhaustedProbeSide (.loadNonEmpty (getFinalIndices
        (C.left.batch.map (hasPartner (C.join.joins W) R)) C.join.joinType)), [], output⟩ .last 1
  | completed {output : RecordBatch S} {role : Role}
      (hout : (output : Multiset (Row S)) =
        C.probeOutput input + if role = .last then C.lastRows R else 0)
      (hseen : C.Seen partners shared input)
      (hworking : role = .working → C.join.joinType.needProduceResultInFinal = false ∨
        C.join.nullAware = true ∧ shared.probeSideHasNull = true)
      (hnull : role ≠ .working → C.join.nullAware = true →
        ∀ b ∈ input, b.any C.rightNull = false) :
      StreamOk shared input ⟨.completed, [], output⟩ role 0

/-! ## Changes to the shared state -/

/-- Nothing that was set is taken back. -/
structure Grows (shared shared' : SharedState) : Prop where
  visited : ∀ k : Nat, shared.visitedIndicesBitmap[k]? = some true →
    shared'.visitedIndicesBitmap[k]? = some true
  hasNull : shared.probeSideHasNull = true → shared'.probeSideHasNull = true
  nonEmpty : shared.probeSideNonEmpty = true → shared'.probeSideNonEmpty = true

/-- What a stream with this input may change. -/
structure Changes (input : List (RecordBatch S)) (shared shared' : SharedState) : Prop where
  grows : Grows shared shared'
  length_eq : shared'.visitedIndicesBitmap.length = shared.visitedIndicesBitmap.length
  visited : ∀ k : Nat, shared'.visitedIndicesBitmap[k]? = some true →
    shared.visitedIndicesBitmap[k]? = some true ∨
      ∃ b ∈ input, ∃ p, (p, k) ∈ matchesFrom partners 0 b
  hasNull : shared'.probeSideHasNull = true → shared.probeSideHasNull = true ∨
    C.join.nullAware = true ∧ ∃ b ∈ input, b.any C.rightNull = true
  nonEmpty : shared'.probeSideNonEmpty = true → shared.probeSideNonEmpty = true ∨
    ∃ b ∈ input, b ≠ []

variable {C partners chunksOf R}
variable {shared shared' : SharedState} {input : List (RecordBatch S)}

theorem Changes.refl : C.Changes partners input shared shared where
  grows := ⟨fun _ h => h, id, id⟩
  length_eq := rfl
  visited _ h := .inl h
  hasNull := .inl
  nonEmpty := .inl

theorem Grows.hasNull_eq_false (h : Grows shared shared')
    (hnull : shared'.probeSideHasNull = false) : shared.probeSideHasNull = false := by
  cases hold : shared.probeSideHasNull with
  | false => rfl
  | true => rw [h.hasNull hold] at hnull; cases hnull

theorem Seen.mono {batches : List (RecordBatch S)} (h : C.Seen partners shared batches)
    (hgrows : Grows shared shared') : C.Seen partners shared' batches where
  marked hnull hfinal b hb x hx :=
    hgrows.visited _ (h.marked (hgrows.hasNull_eq_false hnull) hfinal b hb x hx)
  hasNull haware b hb hany := hgrows.hasNull (h.hasNull haware b hb hany)
  nonEmpty haware b hb hne := hgrows.nonEmpty (h.nonEmpty haware b hb hne)

theorem Probing.mono {consumed right : List (RecordBatch S)} {batch output : RecordBatch S}
    {joined : Option Nat} {done rest : List (Nat × Nat)}
    (h : C.Probing partners shared input consumed right batch output joined done rest)
    (hgrows : Grows shared shared') :
    C.Probing partners shared' input consumed right batch output joined done rest :=
  { h with
    seen := h.seen.mono hgrows
    marked := fun hfalse hfinal x hx =>
      hgrows.visited _ (h.marked (hgrows.hasNull_eq_false hfalse) hfinal x hx) }

/-- What the other streams do to the shared state does not disturb a stream. -/
theorem StreamOk.mono {s : HashJoinStream S} {role : Role} {bound : Nat}
    (h : C.StreamOk partners chunksOf R shared input s role bound) (hgrows : Grows shared shared') :
    C.StreamOk partners chunksOf R shared' input s role bound := by
  cases h with
  | waiting => exact .waiting
  | fetching hinput hout hseen => exact .fetching hinput hout (hseen.mono hgrows)
  | probing hprobing hyields hnonEmpty hnull =>
    refine .probing (hprobing.mono hgrows) hyields ?_ ?_
    · exact fun hnext haware hne => hgrows.nonEmpty (hnonEmpty hnext haware hne)
    · exact fun hnext haware hany => hgrows.hasNull (hnull hnext haware hany)
  | checking hout hseen => exact .checking hout (hseen.mono hgrows)
  | reporting hout hseen hfinal hnull =>
    exact .reporting hout (hseen.mono hgrows) hfinal hnull
  | reading hout hseen hfinal hnull => exact .reading hout (hseen.mono hgrows) hfinal hnull
  | finishing hout hseen hfinal hnull => exact .finishing hout (hseen.mono hgrows) hfinal hnull
  | completed hout hseen hworking hnull =>
    refine .completed hout (hseen.mono hgrows) (fun hrole => ?_) hnull
    exact (hworking hrole).imp_right (And.imp_right hgrows.hasNull)

/-! ## Polling a stream -/

/-- The stream goes on in order. -/
def Advances (C : JoinContext W) (partners : Row S → List Nat)
    (chunksOf : RecordBatch S → List (List (Nat × Nat))) (R : Multiset (Row S))
    (shared : SharedState) (input : List (RecordBatch S)) (role : Role) (bound : Nat)
    (result : Option (SharedState × HashJoinStream S)) : Prop :=
  ∃ shared' s' role' bound', result = some (shared', s') ∧
    C.StreamOk partners chunksOf R shared' input s' role' bound' ∧ bound' < bound ∧
    C.Changes partners input shared shared' ∧
    Counts shared.probeThreadsCounter role shared'.probeThreadsCounter role'

theorem changes_nonEmpty {batch : RecordBatch S} (hbatch : batch ∈ input) (hne : batch ≠ []) :
    C.Changes partners input shared { shared with probeSideNonEmpty := true } where
  grows := ⟨fun _ h => h, id, fun _ => rfl⟩
  length_eq := rfl
  visited _ h := .inl h
  hasNull := .inl
  nonEmpty _ := .inr ⟨batch, hbatch, hne⟩

theorem changes_hasNull {batch : RecordBatch S} (haware : C.join.nullAware = true)
    (hbatch : batch ∈ input) (hany : batch.any C.rightNull = true) :
    C.Changes partners input shared { shared with probeSideHasNull := true } where
  grows := ⟨fun _ h => h, fun _ => rfl, id⟩
  length_eq := rfl
  visited _ h := .inl h
  hasNull _ := .inr ⟨haware, batch, hbatch, hany⟩
  nonEmpty := .inl

theorem changes_counter (counter : Nat) :
    C.Changes partners input shared { shared with probeThreadsCounter := counter } where
  grows := ⟨fun _ h => h, id, id⟩
  length_eq := rfl
  visited _ h := .inl h
  hasNull := .inl
  nonEmpty := .inl

theorem probeOutput_append (batches : List (RecordBatch S)) (batch : RecordBatch S) :
    C.probeOutput (batches ++ [batch]) = C.probeOutput batches +
      (batch : Multiset (Row S)).bind (C.join.probeRows W C.columnIndices C.left.batch) := by
  rw [probeOutput, List.flatten_append, List.flatten_singleton, ← Multiset.coe_add,
    Multiset.add_bind]
  rfl

/-- One more batch is done. -/
theorem Seen.append {batches : List (RecordBatch S)} {batch : RecordBatch S}
    (h : C.Seen partners shared batches)
    (hmarked : shared.probeSideHasNull = false →
      C.join.joinType.needProduceResultInFinal = true →
      ∀ x ∈ matchesFrom partners 0 batch, shared.visitedIndicesBitmap[x.2]? = some true)
    (hnonEmpty : C.join.nullAware = true → batch ≠ [] → shared.probeSideNonEmpty = true)
    (hnull : C.join.nullAware = true → batch.any C.rightNull = true →
      shared.probeSideHasNull = true) : C.Seen partners shared (batches ++ [batch]) where
  marked hfalse hfinal b hb := by
    rcases List.mem_append.1 hb with hb | hb
    · exact h.marked hfalse hfinal b hb
    · rw [List.mem_singleton.1 hb]
      exact hmarked hfalse hfinal
  hasNull haware b hb := by
    rcases List.mem_append.1 hb with hb | hb
    · exact h.hasNull haware b hb
    · rw [List.mem_singleton.1 hb]
      exact hnull haware
  nonEmpty haware b hb := by
    rcases List.mem_append.1 hb with hb | hb
    · exact h.nonEmpty haware b hb
    · rw [List.mem_singleton.1 hb]
      exact hnonEmpty haware

@[simp] theorem length_markVisited (bitmap : List Bool) (pairs : List (Nat × Nat)) :
    (markVisited bitmap pairs).length = bitmap.length := by
  unfold markVisited
  induction pairs generalizing bitmap with
  | nil => rfl
  | cons x pairs ih => rw [List.foldl_cons, ih, List.length_set]

theorem markVisited_eq_true {bitmap : List Bool} {pairs : List (Nat × Nat)} {k : Nat} :
    (markVisited bitmap pairs)[k]? = some true ↔
      bitmap[k]? = some true ∨ k < bitmap.length ∧ ∃ p, (p, k) ∈ pairs := by
  unfold markVisited
  induction pairs generalizing bitmap with
  | nil => simp
  | cons x pairs ih =>
    obtain ⟨p, b⟩ := x
    rw [List.foldl_cons, ih, List.length_set, List.getElem?_set]
    by_cases hk : b = k
    · subst hk
      by_cases hlt : b < bitmap.length
      · rw [if_pos rfl, if_pos hlt]
        exact ⟨fun _ => .inr ⟨hlt, p, List.mem_cons_self⟩, fun _ => .inl rfl⟩
      · simp [hlt]
    · rw [if_neg hk]
      simp only [List.mem_cons, Prod.mk.injEq, Ne.symm hk, and_false, false_or]

section
variable (shared : SharedState) (pairs : List (Nat × Nat))

@[simp] theorem markShared_hasNull :
    (C.markShared shared pairs).probeSideHasNull = shared.probeSideHasNull := by
  unfold markShared
  split_ifs <;> rfl

@[simp] theorem markShared_nonEmpty :
    (C.markShared shared pairs).probeSideNonEmpty = shared.probeSideNonEmpty := by
  unfold markShared
  split_ifs <;> rfl

@[simp] theorem markShared_counter :
    (C.markShared shared pairs).probeThreadsCounter = shared.probeThreadsCounter := by
  unfold markShared
  split_ifs <;> rfl

theorem markShared_eq_true {k : Nat} :
    (C.markShared shared pairs).visitedIndicesBitmap[k]? = some true ↔
      shared.visitedIndicesBitmap[k]? = some true ∨
        C.join.joinType.needProduceResultInFinal = true ∧
          k < shared.visitedIndicesBitmap.length ∧ ∃ p, (p, k) ∈ pairs := by
  unfold markShared
  split_ifs with hfinal
  · simp only [markVisited_eq_true, hfinal, true_and]
  · simp only [hfinal, false_and, or_false, Bool.false_eq_true]

end

/-- A chunk of a batch changes the bitmap only where the batch matches. -/
theorem markShared_changes {batch : RecordBatch S} {pairs : List (Nat × Nat)}
    (hbatch : batch ∈ input) (hpairs : ∀ x ∈ pairs, x ∈ matchesFrom partners 0 batch) :
    C.Changes partners input shared (C.markShared shared pairs) where
  grows := ⟨fun k hk => (markShared_eq_true _ _).2 (.inl hk), by simp, by simp⟩
  length_eq := by
    unfold markShared
    split_ifs <;> simp
  visited k hk := by
    rcases (markShared_eq_true _ _).1 hk with hk | ⟨-, -, p, hp⟩
    · exact .inl hk
    · exact .inr ⟨batch, hbatch, p, hpairs _ hp⟩
  hasNull h := .inl (by simpa using h)
  nonEmpty h := .inl (by simpa using h)

theorem pushBatch_none (output rows : RecordBatch S) :
    pushBatch none output rows = (output ++ rows, false) := rfl

section
variable {consumed right : List (RecordBatch S)} {batch output : RecordBatch S}
variable {offset : MapOffset} {joined : Option Nat} {done chunk rest : List (Nat × Nat)}

/-- The pairs that were marked before, and those of one more chunk. -/
theorem Probing.marked_append
    (h : C.Probing partners shared input consumed right batch output joined done (chunk ++ rest))
    (hserves : C.Serves partners chunksOf batch)
    (hlen : C.join.joinType.needProduceResultInFinal = true →
      shared.visitedIndicesBitmap.length = C.left.batch.length) :
    (C.markShared shared chunk).probeSideHasNull = false →
      C.join.joinType.needProduceResultInFinal = true →
      ∀ x ∈ done ++ chunk, (C.markShared shared chunk).visitedIndicesBitmap[x.2]? = some true := by
  intro hnull hfinal x hx
  rw [markShared_hasNull] at hnull
  rw [markShared_eq_true]
  rcases List.mem_append.1 hx with hx | hx
  · exact .inl (h.marked hnull hfinal x hx)
  · refine .inr ⟨hfinal, ?_, x.1, hx⟩
    have hmem : (x.1, x.2) ∈ matchesFrom partners 0 batch := by
      rw [h.pairs_eq]
      exact List.mem_append_right _ (List.mem_append_left _ hx)
    obtain ⟨-, r, hr, hk⟩ := (mem_matchesFrom partners).1 hmem
    obtain ⟨l, hl, -⟩ := ((hserves.lists r (List.mem_of_getElem? hr)).mem_iff x.2).1 hk
    rw [hlen hfinal]
    exact (List.getElem?_eq_some_iff.1 hl).1

theorem Probing.changes
    (h : C.Probing partners shared input consumed right batch output joined done (chunk ++ rest)) :
    C.Changes partners input shared (C.markShared shared chunk) := by
  have hbatch : batch ∈ input := by
    rw [h.input_eq]
    exact List.mem_append_right _ List.mem_cons_self
  refine markShared_changes hbatch fun x hx => ?_
  rw [h.pairs_eq]
  exact List.mem_append_right _ (List.mem_append_left _ hx)

/-- A batch that finds an empty table. -/
theorem Probing.join_empty
    (h : C.Probing partners shared input consumed right batch output joined done rest)
    (hproper : C.Proper) (hserves : C.Serves partners chunksOf batch)
    (hempty : (C.left.map.isEmpty && C.join.filter.isNone) = true)
    (hnonEmpty : C.join.nullAware = true → batch ≠ [] → shared.probeSideNonEmpty = true)
    (hnull : C.join.nullAware = true → batch.any C.rightNull = true →
      shared.probeSideHasNull = true) {bound : Nat} (hbound : fetchBound chunksOf right < bound) :
    C.Advances partners chunksOf R shared input .working bound
      (C.joinChunk shared ⟨.processProbeBatch batch offset joined .join, right, output⟩ batch
        offset joined) := by
  have hrows : ∀ r ∈ batch, partners r = [] := hserves.isEmpty (Bool.and_eq_true _ _ ▸ hempty).1
  have hnone : matchesFrom partners 0 batch = [] := by
    refine List.eq_nil_iff_forall_not_mem.2 fun x hx => ?_
    obtain ⟨-, r, hr, hk⟩ := (mem_matchesFrom partners).1 (show (x.1, x.2) ∈ _ from hx)
    rw [hrows r (List.mem_of_getElem? hr)] at hk
    cases hk
  obtain ⟨rfl, rfl⟩ := List.nil_eq_append_iff.1 (hnone.symm.trans h.pairs_eq)
  have hunjoined : ∀ r ∈ batch, ∀ l ∈ C.left.batch, C.join.joins W l r = false := by
    intro r hr l hl
    obtain ⟨k, hk⟩ := List.mem_iff_getElem?.1 hl
    rw [← Bool.not_eq_true]
    intro hjoin
    have hmem := ((hserves.lists r hr).mem_iff k).2 ⟨l, hk, hjoin⟩
    rw [hrows r hr] at hmem
    cases hmem
  refine ⟨shared, ⟨.fetchProbeBatch, right, output ++ buildBatchEmptyBuildSide batch
    C.columnIndices C.join.joinType⟩, .working, fetchBound chunksOf right, ?_, ?_, hbound, .refl,
    .keep⟩
  · rw [joinChunk, if_pos hempty, hproper.fetch]
    rfl
  · refine .fetching (by rw [h.input_eq, List.append_assoc]; rfl) ?_
      (h.seen.append (fun _ _ x hx => ?_) hnonEmpty hnull)
    · rw [probeOutput_append, ← Multiset.coe_add, h.output_eq, h.progress.start_eq_zero,
        decidedRows_self, add_zero, buildBatchEmptyBuildSide_eq hunjoined]
    · rw [hnone] at hx
      cases hx

/-- The last chunk of a batch. -/
theorem Probing.join_last
    (h : C.Probing partners shared input consumed right batch output joined done (chunk ++ []))
    (hproper : C.Proper) (hserves : C.Serves partners chunksOf batch)
    (hlen : C.join.joinType.needProduceResultInFinal = true →
      shared.visitedIndicesBitmap.length = C.left.batch.length)
    (hempty : ¬ (C.left.map.isEmpty && C.join.filter.isNone) = true)
    (hfetch : C.probe batch offset = some (chunk, none))
    (hnonEmpty : C.join.nullAware = true → batch ≠ [] → shared.probeSideNonEmpty = true)
    (hnull : C.join.nullAware = true → batch.any C.rightNull = true →
      shared.probeSideHasNull = true) {bound : Nat} (hbound : fetchBound chunksOf right < bound) :
    C.Advances partners chunksOf R shared input .working bound
      (C.joinChunk shared ⟨.processProbeBatch batch offset joined .join, right, output⟩ batch
        offset joined) := by
  have hall : matchesFrom partners 0 batch = done ++ chunk := by rw [h.pairs_eq, List.append_nil]
  have hlt : ∀ x ∈ done ++ chunk, x.1 < batch.length := by
    intro x hx
    rw [← hall] at hx
    obtain ⟨-, r, hr, -⟩ := (mem_matchesFrom partners).1 (show (x.1, x.2) ∈ _ from hx)
    exact (List.getElem?_eq_some_iff.1 hr).1
  have hstart : rangeStart joined ≤ batch.length := by
    cases joined with
    | none => exact Nat.zero_le _
    | some i =>
      obtain ⟨b, hb⟩ := isHit_iff.1 (h.progress.last_hit i rfl)
      exact hlt (i, b) (List.mem_append_left _ hb)
  refine ⟨C.markShared shared chunk, ⟨.fetchProbeBatch, right, output ++ chunkRows C.join.joinType
    C.columnIndices C.rightSideOrdered C.left.batch batch chunk (rangeStart joined) batch.length⟩,
    .working, fetchBound chunksOf right, ?_, ?_, hbound, h.changes, ?_⟩
  · rw [joinChunk, if_neg hempty, hfetch, hproper.fetch]
    rfl
  · refine .fetching (by rw [h.input_eq, List.append_assoc]; rfl) ?_
      ((h.seen.mono h.changes.grows).append ?_ (by simpa using hnonEmpty) (by simpa using hnull))
    · have hrange := h.progress.inRange fun x hx => hlt x (List.mem_append_right _ hx)
      rw [probeOutput_append, ← Multiset.coe_add, h.output_eq, chunkRows_eq hproper.outputSide _
        hrange, add_assoc, ← decidedRows_split (h.progress.splits hstart), ← hall,
        decidedRows_batch hserves.lists]
    · rw [hall]
      exact h.marked_append hserves hlen
  · rw [markShared_counter]
    exact .keep

/-- A chunk with more to come. Without a pair left after the filter, nothing is decided. -/
theorem Probing.join_more {offset' : MapOffset} {chunk' : List (Nat × Nat)}
    {chunks : List (List (Nat × Nat))}
    (h : C.Probing partners shared input consumed right batch output joined done
      (chunk ++ (chunk' :: chunks).flatten))
    (hproper : C.Proper) (hserves : C.Serves partners chunksOf batch)
    (hlen : C.join.joinType.needProduceResultInFinal = true →
      shared.visitedIndicesBitmap.length = C.left.batch.length)
    (hempty : ¬ (C.left.map.isEmpty && C.join.filter.isNone) = true)
    (hfetch : C.probe batch offset = some (chunk, some offset'))
    (hyields : Yields (C.probe batch) C.batchSize offset' (chunk' :: chunks)) {bound : Nat}
    (hbound : 4 * chunks.length + 4 + fetchBound chunksOf right < bound) :
    C.Advances partners chunksOf R shared input .working bound
      (C.joinChunk shared ⟨.processProbeBatch batch offset joined .join, right, output⟩ batch
        offset joined) := by
  have hlast : ∃ stop, stop = rangeStart (chunk.getLast?.map (·.1)) ∧
      C.Probing partners (C.markShared shared chunk) input consumed right
      batch (output ++ chunkRows C.join.joinType C.columnIndices C.rightSideOrdered C.left.batch
        batch chunk (rangeStart joined) stop) ((chunk.getLast?.map (·.1)).or joined)
      (done ++ chunk) (chunk' :: chunks).flatten := by
    cases hlast : chunk.getLast?.map (·.1) with
    | none =>
      have hnil : chunk = [] := by simpa using hlast
      subst hnil
      have hrange : InRange [] (rangeStart joined) 0 :=
        ⟨List.Pairwise.nil, by simp, by simp⟩
      refine ⟨0, rfl, h.input_eq, by rw [h.pairs_eq]; simp, ?_, ?_,
        h.seen.mono h.changes.grows, h.marked_append hserves hlen⟩
      · rw [List.append_nil]
        exact h.progress
      · have hnone : decidedRows C.join.joinType C.columnIndices C.left.batch batch []
            (rangeStart joined) 0 = 0 := by
          cases C.join.joinType <;> simp [decidedRows, getAntiIndices, getSemiIndices]
        rw [← Multiset.coe_add, chunkRows_eq hproper.outputSide _ hrange, hnone, add_zero,
          List.append_nil]
        exact h.output_eq
    | some last =>
      obtain ⟨hstart, hlt, hprogress⟩ := h.progress.advance hlast
      have hrange : InRange chunk (rangeStart joined) (last + 1) := h.progress.inRange hlt
      refine ⟨last + 1, rfl, h.input_eq, by rw [h.pairs_eq, List.append_assoc], hprogress,
        ?_, h.seen.mono h.changes.grows, h.marked_append hserves hlen⟩
      rw [← Multiset.coe_add, chunkRows_eq hproper.outputSide _ hrange, h.output_eq, add_assoc,
        ← decidedRows_split (h.progress.splits hstart)]
      rfl
  obtain ⟨stop, hstop, hnext⟩ := hlast
  refine ⟨C.markShared shared chunk, ⟨.processProbeBatch batch offset'
    ((chunk.getLast?.map (·.1)).or joined) .storeNonEmpty, right, output ++ chunkRows
    C.join.joinType C.columnIndices C.rightSideOrdered C.left.batch batch chunk (rangeStart joined)
    stop⟩, .working, _, ?_, .probing hnext hyields ?_ ?_, hbound, h.changes, ?_⟩
  · rw [joinChunk, if_neg hempty, hfetch, hproper.fetch, hstop]
    rfl
  · exact fun hne => absurd rfl hne
  · rintro (hnext | hnext) <;> cases hnext
  · rw [markShared_counter]
    exact .keep

end

/-- What the last stream needs to know before the final pass. -/
structure Settled (C : JoinContext W) (R : Multiset (Row S)) (shared : SharedState) : Prop where
  visited : shared.visitedIndicesBitmap = C.left.batch.map (hasPartner (C.join.joins W) R)
  nonEmpty : C.join.nullAware = true → (shared.probeSideNonEmpty = true ↔ 0 < R.card)

/-- The rows of the final pass. -/
theorem finalBatch_eq (hproper : C.Proper)
    (hfinal : C.join.joinType.needProduceResultInFinal = true) (h : C.Settled R shared) :
    (C.finalBatch shared (getFinalIndices (C.left.batch.map (hasPartner (C.join.joins W) R))
      C.join.joinType) : Multiset (Row S)) = C.lastRows R := by
  unfold finalBatch lastRows
  by_cases haware : C.join.nullAware = true
  · have hjoin := hproper.nullAware haware
    simp only [haware, hjoin, decide_true, Bool.true_and, Bool.and_true, true_and]
    by_cases hne : 0 < R.card
    · have hindices : getFinalIndices (C.left.batch.map (hasPartner (C.join.joins W) R)) .leftAnti =
          finalSlots C.left.batch fun l => !hasPartner (C.join.joins W) R l :=
        filter_zipIdx_map _ fun b => !b
      rw [if_pos ((h.nonEmpty haware).2 hne), if_pos hne, hindices, dropNullKeys_finalSlots,
        finalSlots_rows, anti, Multiset.filter_coe, Multiset.filter_coe, Multiset.map_coe,
        List.filter_filter]
      refine congrArg _ (congrArg _ (List.filter_congr fun l _ => ?_))
      cases hasPartner (C.join.joins W) R l <;> cases C.leftNull l <;> rfl
    · have hempty : ¬ shared.probeSideNonEmpty = true :=
        fun hset => hne ((h.nonEmpty haware).1 hset)
      rw [if_neg hempty, if_neg hne, ← hjoin]
      exact getFinalIndices_rows hproper.outputSide hfinal R
  · simp only [haware, Bool.false_and, Bool.false_eq_true, if_false, false_and]
    exact getFinalIndices_rows hproper.outputSide hfinal R

/-- A null-aware anti join outputs nothing while it reads the probe side. -/
theorem probeRows_leftAnti (hjoin : C.join.joinType = .leftAnti) (L : Multiset (Row S))
    (r : Row S) : C.join.probeRows W C.columnIndices L r = 0 := by
  simp only [HashJoinExec.probeRows, hjoin]

section
variable {consumed right : List (RecordBatch S)} {batch output : RecordBatch S}
variable {offset : MapOffset} {joined : Option Nat} {done chunk : List (Nat × Nat)}
variable {chunks : List (List (Nat × Nat))}

/-- The accesses of a null-aware join before the lookup. -/
theorem Probing.poll_flags {next : ProbeAccess}
    (h : C.Probing partners shared input consumed right batch output joined done
      (chunk :: chunks).flatten)
    (hyields : Yields (C.probe batch) C.batchSize offset (chunk :: chunks)) (hproper : C.Proper)
    (hnonEmpty : next ≠ .storeNonEmpty → C.join.nullAware = true → batch ≠ [] →
      shared.probeSideNonEmpty = true)
    (hnull : next = .loadHasNull ∨ next = .join → C.join.nullAware = true →
      batch.any C.rightNull = true → shared.probeSideHasNull = true) (hnext : next ≠ .join) :
    C.Advances partners chunksOf R shared input .working
      (4 * chunks.length + next.bound + fetchBound chunksOf right)
      (C.poll shared ⟨.processProbeBatch batch offset joined next, right, output⟩) := by
  have hmem : batch ∈ input := by
    rw [h.input_eq]
    exact List.mem_append_right _ List.mem_cons_self
  have hless : ∀ {a b c d : Nat}, a < b → c + a + d < c + b + d := by
    intro a b c d hab
    omega
  cases next with
  | storeNonEmpty =>
    by_cases hstore : (C.join.nullAware && !batch.isEmpty) = true
    · have hne : batch ≠ [] := by
        rintro rfl
        simp at hstore
      have hchanges : C.Changes partners input shared _ := changes_nonEmpty hmem hne
      refine ⟨_, _, .working, _, congrArg (fun x => some (x, _)) (if_pos hstore),
        .probing (h.mono hchanges.grows) hyields (fun _ _ _ => rfl) ?_, hless (by decide),
        hchanges, .keep⟩
      rintro (hnext | hnext) <;> cases hnext
    · refine ⟨_, _, .working, _, congrArg (fun x => some (x, _)) (if_neg hstore),
        .probing h hyields (fun _ haware hne => ?_) ?_, hless (by decide), .refl, .keep⟩
      · refine absurd ?_ hstore
        simp [haware, hne]
      · rintro (hnext | hnext) <;> cases hnext
  | storeHasNull =>
    by_cases hstore : (C.join.nullAware && batch.any C.rightNull) = true
    · obtain ⟨haware, hany⟩ := Bool.and_eq_true_iff.1 hstore
      have hchanges : C.Changes partners input shared _ := changes_hasNull haware hmem hany
      exact ⟨_, _, .working, _, congrArg (fun x => some (x, _)) (if_pos hstore),
        .probing (h.mono hchanges.grows) hyields (fun _ => hnonEmpty (by simp))
          (fun _ _ _ => rfl), hless (by decide), hchanges, .keep⟩
    · refine ⟨_, _, .working, _, congrArg (fun x => some (x, _)) (if_neg hstore),
        .probing h hyields (fun _ => hnonEmpty (by simp)) (fun _ haware hany => ?_),
        hless (by decide), .refl, .keep⟩
      exact absurd (Bool.and_eq_true_iff.2 ⟨haware, hany⟩) hstore
  | loadHasNull =>
    by_cases hload : (C.join.nullAware && shared.probeSideHasNull) = true
    · -- The batch is skipped. It would not have been output anyway.
      obtain ⟨haware, hset⟩ := Bool.and_eq_true_iff.1 hload
      have hjoin := hproper.nullAware haware
      refine ⟨shared, ⟨.fetchProbeBatch, right, output⟩, .working, fetchBound chunksOf right, ?_,
        .fetching (by rw [h.input_eq, List.append_assoc]; rfl) ?_
          (h.seen.append (fun hfalse => ?_) (hnonEmpty (by simp)) (hnull (.inl rfl))), ?_, .refl,
        .keep⟩
      · simp only [JoinContext.poll, if_pos hload]
      · rw [probeOutput_append, h.output_eq]
        simp only [decidedRows, hjoin, probeRows_leftAnti hjoin, Multiset.bind_zero]
      · rw [hset] at hfalse
        cases hfalse
      · simp only [ProbeAccess.bound]
        omega
    · refine ⟨shared, ⟨.processProbeBatch batch offset joined .join, right, output⟩, .working, _,
        ?_,
        .probing h hyields (fun _ => hnonEmpty (by simp)) (fun _ => hnull (.inl rfl)),
        hless (by decide), .refl, .keep⟩
      simp only [JoinContext.poll, if_neg hload]
  | join => exact absurd rfl hnext

/-- The next chunk of a batch. -/
theorem Probing.poll_join
    (h : C.Probing partners shared input consumed right batch output joined done
      (chunk :: chunks).flatten)
    (hyields : Yields (C.probe batch) C.batchSize offset (chunk :: chunks)) (hproper : C.Proper)
    (hserves : C.Serves partners chunksOf batch)
    (hlen : C.join.joinType.needProduceResultInFinal = true →
      shared.visitedIndicesBitmap.length = C.left.batch.length)
    (hnonEmpty : C.join.nullAware = true → batch ≠ [] → shared.probeSideNonEmpty = true)
    (hnull : C.join.nullAware = true → batch.any C.rightNull = true →
      shared.probeSideHasNull = true) :
    C.Advances partners chunksOf R shared input .working
      (4 * chunks.length + ProbeAccess.join.bound + fetchBound chunksOf right)
      (C.poll shared ⟨.processProbeBatch batch offset joined .join, right, output⟩) := by
  have hbound : fetchBound chunksOf right <
      4 * chunks.length + 1 + fetchBound chunksOf right := by
    omega
  by_cases hempty : (C.left.map.isEmpty && C.join.filter.isNone) = true
  · exact h.join_empty hproper hserves hempty hnonEmpty hnull hbound
  · cases hyields with
    | last hfetch _ =>
      exact h.join_last hproper hserves hlen hempty hfetch hnonEmpty hnull hbound
    | more hfetch _ hrest =>
      cases chunks with
      | nil => cases hrest
      | cons chunk' chunks =>
        refine h.join_more hproper hserves hlen hempty hfetch hrest ?_
        simp only [List.length_cons, ProbeAccess.bound]
        omega

/-- The next batch, of which nothing is joined yet, or the end of the input. -/
theorem poll_fetch (hinput : input = consumed ++ right)
    (hout : (output : Multiset (Row S)) = C.probeOutput consumed)
    (hseen : C.Seen partners shared consumed)
    (hserves : ∀ b ∈ input, C.Serves partners chunksOf b) :
    C.Advances partners chunksOf R shared input .working (fetchBound chunksOf right)
      (C.poll shared ⟨.fetchProbeBatch, right, output⟩) := by
  cases right with
  | nil =>
    rw [List.append_nil] at hinput
    subst hinput
    exact ⟨shared, _, .working, 4, rfl, .checking hout hseen, by simp [fetchBound], .refl, .keep⟩
  | cons batch right =>
    have hmem : batch ∈ input := by
      rw [hinput]
      exact List.mem_append_right _ List.mem_cons_self
    have hflat := (hserves batch hmem).flatten_eq
    have hyields := (hserves batch hmem).yields
    cases hchunks : chunksOf batch with
    | nil =>
      rw [hchunks] at hyields
      cases hyields
    | cons chunk chunks =>
      rw [hchunks] at hflat hyields
      have hprobing : C.Probing partners shared input consumed right batch output none []
          (chunk :: chunks).flatten :=
        { input_eq := hinput
          pairs_eq := hflat.symm
          progress := .zero (hflat ▸ sorted_matchesFrom partners 0 batch)
          output_eq := by
            rw [hout, rangeStart, Option.elim_none, decidedRows_self, add_zero]
          seen := hseen
          marked := fun _ _ x hx => absurd hx List.not_mem_nil }
      refine ⟨shared, _, .working, _, rfl, .probing hprobing hyields (fun hne => absurd rfl hne)
        ?_, ?_, .refl, .keep⟩
      · rintro (hnext | hnext) <;> cases hnext
      · simp only [fetchBound, List.map_cons, List.sum_cons, hchunks, List.length_cons,
          ProbeAccess.bound]
        omega

/-- After the last batch, a stream without a final pass is done, and so is one that has seen the
flag for a `NULL` key. -/
theorem poll_check (hout : (output : Multiset (Row S)) = C.probeOutput input)
    (hseen : C.Seen partners shared input) :
    C.Advances partners chunksOf R shared input .working 4
      (C.poll shared ⟨.exhaustedProbeSide .loadHasNull, [], output⟩) := by
  have hdone : (output : Multiset (Row S)) =
      C.probeOutput input + if Role.working = .last then C.lastRows R else 0 := by
    rw [hout, if_neg (by simp), add_zero]
  by_cases hfinal : C.join.joinType.needProduceResultInFinal = true
  · by_cases hload : (C.join.nullAware && shared.probeSideHasNull) = true
    · refine ⟨shared, ⟨.completed, [], output⟩, .working, 0, ?_, .completed hdone hseen
        (fun _ => .inr (Bool.and_eq_true_iff.1 hload)) (fun hrole => absurd rfl hrole),
        Nat.succ_pos _, .refl, .keep⟩
      simp [JoinContext.poll, hfinal, hload]
    · refine ⟨shared, ⟨.exhaustedProbeSide .reportProbeCompleted, [], output⟩, .working, 3, ?_,
        .reporting hout hseen hfinal (fun haware b hb => ?_), Nat.lt_succ_self _, .refl, .keep⟩
      · simp only [JoinContext.poll, hfinal, Bool.not_true, Bool.false_eq_true, if_false,
          if_neg hload]
      · rw [← Bool.not_eq_true]
        intro hany
        exact hload (Bool.and_eq_true_iff.2 ⟨haware, hseen.hasNull haware b hb hany⟩)
  · refine ⟨shared, ⟨.completed, [], output⟩, .working, 0, ?_, .completed hdone hseen
      (fun _ => .inl (Bool.eq_false_iff.2 hfinal)) (fun hrole => absurd rfl hrole),
      Nat.succ_pos _, .refl, .keep⟩
    simp [JoinContext.poll, hfinal]

/-- The stream that takes the counter to zero goes on to the final pass, any other is done. -/
theorem poll_report (hout : (output : Multiset (Row S)) = C.probeOutput input)
    (hseen : C.Seen partners shared input)
    (hfinal : C.join.joinType.needProduceResultInFinal = true)
    (hnull : C.join.nullAware = true → ∀ b ∈ input, b.any C.rightNull = false) :
    C.Advances partners chunksOf R shared input .working 3
      (C.poll shared ⟨.exhaustedProbeSide .reportProbeCompleted, [], output⟩) := by
  have hseen' : C.Seen partners
      { shared with probeThreadsCounter := shared.probeThreadsCounter - 1 } input :=
    hseen.mono (changes_counter _ : C.Changes partners input shared _).grows
  by_cases hone : shared.probeThreadsCounter = 1
  · refine ⟨_, ⟨.exhaustedProbeSide .readBitmap, [], output⟩,
      if shared.probeThreadsCounter = 1 then .last else .reported, 2, ?_, ?_, Nat.lt_succ_self _,
      changes_counter _, .report⟩
    · simp only [JoinContext.poll, if_pos hone]
    · rw [if_pos hone]
      exact .reading hout hseen' hfinal hnull
  · refine ⟨_, ⟨.completed, [], output⟩,
      if shared.probeThreadsCounter = 1 then .last else .reported, 0, ?_, ?_, Nat.succ_pos _,
      changes_counter _, .report⟩
    · simp only [JoinContext.poll, if_neg hone]
    · rw [if_neg hone]
      refine .completed ?_ hseen' (fun hrole => ?_) fun _ => hnull
      · rw [hout, if_neg (by simp), add_zero]
      · cases hrole

end

/-- **Polling a stream that is not done takes it further, in order.** -/
theorem StreamOk.poll {s : HashJoinStream S} {role : Role} {bound : Nat}
    (h : C.StreamOk partners chunksOf R shared input s role bound) (hproper : C.Proper)
    (hserves : ∀ b ∈ input, C.Serves partners chunksOf b)
    (hlen : C.join.joinType.needProduceResultInFinal = true →
      shared.visitedIndicesBitmap.length = C.left.batch.length)
    (hsettled : role = .last → C.Settled R shared) (hne : s.state ≠ .completed) :
    C.Advances partners chunksOf R shared input role bound (C.poll shared s) := by
  cases h with
  | waiting =>
    have hnone : input = [] ++ input := rfl
    exact ⟨shared, ⟨.fetchProbeBatch, input, []⟩, .working, _, rfl,
      .fetching hnone rfl ⟨by simp, by simp, by simp⟩, Nat.lt_succ_self _, .refl, .keep⟩
  | fetching hinput hout hseen => exact poll_fetch hinput hout hseen hserves
  | @probing consumed right batch output offset joined next done chunk chunks hprobing hyields
      hnonEmpty hnull =>
    by_cases hnext : next = .join
    · subst hnext
      have hbatch : batch ∈ input := by
        rw [hprobing.input_eq]
        exact List.mem_append_right _ List.mem_cons_self
      exact hprobing.poll_join hyields hproper (hserves batch hbatch) hlen (hnonEmpty (by simp))
        (hnull (.inr rfl))
    · exact hprobing.poll_flags hyields hproper hnonEmpty hnull hnext
  | checking hout hseen => exact poll_check hout hseen
  | reporting hout hseen hfinal hnull => exact poll_report hout hseen hfinal hnull
  | @reading output hout hseen hfinal hnull =>
    refine ⟨shared, _, .last, 1, ?_, .finishing hout hseen hfinal hnull, Nat.lt_succ_self _, .refl,
      .keep⟩
    simp only [JoinContext.poll, (hsettled rfl).visited]
  | @finishing output hout hseen hfinal hnull =>
    refine ⟨shared, ⟨.completed, [], output ++ C.finalBatch shared (getFinalIndices
      (C.left.batch.map (hasPartner (C.join.joins W) R)) C.join.joinType)⟩, .last, 0, ?_,
      .completed ?_ hseen (fun hrole => ?_) (fun _ => hnull), Nat.succ_pos _, .refl, .keep⟩
    · simp only [JoinContext.poll, hproper.fetch, pushBatch_none]
    · rw [← Multiset.coe_add, hout, finalBatch_eq hproper hfinal (hsettled rfl), if_pos rfl]
    · cases hrole
  | completed _ _ _ _ => exact absurd rfl hne

end JoinContext

end PredicateTransfer
