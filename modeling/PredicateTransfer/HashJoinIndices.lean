import PredicateTransfer.RelationalJoin
import PredicateTransfer.JoinHashMap

/-!
# From matched indices to output rows

A probe batch is joined in chunks. Each chunk comes with the pairs of indices that matched in it,
and with a range of probe rows whose fate it decides: `adjust_indices_by_join_type` adds the rows
of the range that matched nothing, or keeps one index for each row that did, as the join type
needs it. `build_batch_from_indices` then takes the rows.

`decidedRows` is what a list of pairs and a range of probe rows amount to, without the order of
the output. A chunk outputs that (`chunkRows_eq`), it adds up over adjacent ranges
(`decidedRows_split`), and over a whole batch with all its pairs it is what the rows of the batch
contribute to the join (`decidedRows_batch`).
-/

namespace PredicateTransfer

open SemiJoin

variable {S : Sig}

/-! ## Adjusting indices -/

/-- A pair of a build index and a probe index, either of which may be null. -/
abbrev Slot := Option Nat × Option Nat

/-- `need_produce_result_in_final`. -/
def JoinType.needProduceResultInFinal : JoinType → Bool
  | .left | .leftAnti | .leftSemi | .leftMark | .full => true
  | _ => false

/-- The bit that `build_range_bitmap` sets for a row of the range: it is among the indices. -/
def isHit (pairs : List (Nat × Nat)) (idx : Nat) : Bool := pairs.any (·.1 == idx)

/-- `get_anti_indices`, for the probe rows of the pairs. -/
def getAntiIndices (start stop : Nat) (pairs : List (Nat × Nat)) : List Nat :=
  (List.range' start (stop - start)).filter fun idx => !isHit pairs idx

/-- `get_semi_indices`. -/
def getSemiIndices (start stop : Nat) (pairs : List (Nat × Nat)) : List Nat :=
  (List.range' start (stop - start)).filter fun idx => isHit pairs idx

/-- `append_probe_indices_in_order`, from the previous index on. -/
def appendProbeIndicesInOrder (stop : Nat) : Nat → List (Nat × Nat) → List Slot
  | prevIndex, [] => (List.range' prevIndex (stop - prevIndex)).map fun value => (none, some value)
  | prevIndex, (probeIndex, buildIndex) :: pairs =>
    ((List.range' prevIndex (probeIndex - prevIndex)).map fun value => (none, some value)) ++
      (some buildIndex, some probeIndex) :: appendProbeIndicesInOrder stop (probeIndex + 1) pairs

/-- The matched pairs as they are. -/
def matchedSlots (pairs : List (Nat × Nat)) : List Slot := pairs.map fun x => (some x.2, some x.1)

/-- `append_right_indices`. -/
def appendRightIndices (pairs : List (Nat × Nat)) (start stop : Nat)
    (preserveOrderForRight : Bool) : List Slot :=
  if preserveOrderForRight then appendProbeIndicesInOrder stop start pairs
  else matchedSlots pairs ++ (getAntiIndices start stop pairs).map fun idx => (none, some idx)

/-- `adjust_indices_by_join_type` for the range from `start` to `stop`. The left indices of a right
semi or anti join are not used later. -/
def adjustIndicesByJoinType (pairs : List (Nat × Nat)) (start stop : Nat) (joinType : JoinType)
    (preserveOrderForRight : Bool) : List Slot :=
  match joinType with
  | .inner | .left => matchedSlots pairs
  | .right => appendRightIndices pairs start stop preserveOrderForRight
  | .full => appendRightIndices pairs start stop false
  | .rightSemi => (getSemiIndices start stop pairs).map fun idx => (none, some idx)
  | .rightAnti => (getAntiIndices start stop pairs).map fun idx => (none, some idx)
  | .rightMark =>
    -- `get_mark_indices`: index 0, valid where the row was hit.
    (List.range' start (stop - start)).map fun idx =>
      (some idx, if isHit pairs idx then some 0 else none)
  | .leftSemi | .leftAnti | .leftMark => []

/-- `get_final_indices_from_bit_map`, for a hash join. -/
def getFinalIndices (bitmap : List Bool) (joinType : JoinType) : List Slot :=
  match joinType with
  | .leftMark => bitmap.zipIdx.map fun x => (some x.2, if x.1 then some 0 else none)
  | .leftSemi => (bitmap.zipIdx.filter (·.1)).map fun x => (some x.2, none)
  | _ => (bitmap.zipIdx.filter (!·.1)).map fun x => (some x.2, none)

/-- `build_batch_from_indices`: the slots of one column after the other; here row by row. -/
def buildBatchFromIndices (build probe : RecordBatch S) (slots : List Slot)
    (columnIndices : List ColumnIndex) (buildSide : JoinSide) : RecordBatch S :=
  slots.map fun x => columnIndices.map fun ci =>
    if ci.side = .none then .boolean x.2.isSome
    else if ci.side = buildSide then
      ((x.1.bind (build[·]?)).map (Row.value · ci.index)).getD .null
    else ((x.2.bind (probe[·]?)).map (Row.value · ci.index)).getD .null

/-- `build_batch_empty_build_side`. -/
def buildBatchEmptyBuildSide (probe : RecordBatch S) (columnIndices : List ColumnIndex)
    (joinType : JoinType) : RecordBatch S :=
  match joinType with
  | .inner | .left | .leftSemi | .rightSemi | .leftAnti | .leftMark => []
  | .right | .full | .rightAnti | .rightMark =>
    probe.map fun r => columnIndices.map fun ci => match ci.side with
      | .left => .null
      | .right => Row.value r ci.index
      | .none => .boolean false

/-- The rows a chunk of a probe batch outputs. -/
def chunkRows (joinType : JoinType) (columnIndices : List ColumnIndex)
    (preserveOrderForRight : Bool) (left batch : RecordBatch S) (pairs : List (Nat × Nat))
    (start stop : Nat) : RecordBatch S :=
  let slots := adjustIndicesByJoinType pairs start stop joinType preserveOrderForRight
  if joinType = .rightMark then buildBatchFromIndices batch left slots columnIndices .right
  else buildBatchFromIndices left batch slots columnIndices .left

/-! ## What a chunk decides -/

section
variable (joinType : JoinType) (cis : List ColumnIndex) (left batch : RecordBatch S)

/-- The rows that the pairs and the probe rows from `lo` to `hi` amount to. -/
def decidedRows (pairs : List (Nat × Nat)) (lo hi : Nat) : Multiset (Row S) :=
  let matched : List (Row S) := pairs.map fun x => joinedRow cis left[x.2]? batch[x.1]? true
  let unmatched : List (Row S) :=
    (getAntiIndices lo hi pairs).map fun i => joinedRow cis none batch[i]? false
  match joinType with
  | .inner | .left => matched
  | .right | .full => matched + unmatched
  | .rightSemi =>
    ((getSemiIndices lo hi pairs).map fun i => joinedRow cis none batch[i]? true : List (Row S))
  | .rightAnti => unmatched
  | .rightMark =>
    ((List.range' lo (hi - lo)).map fun i => joinedRow cis none batch[i]? (isHit pairs i) :
      List (Row S))
  | .leftSemi | .leftAnti | .leftMark => 0

end

theorem isHit_iff {pairs : List (Nat × Nat)} {i : Nat} :
    isHit pairs i = true ↔ ∃ b, (i, b) ∈ pairs := by
  rw [isHit, List.any_eq_true]
  constructor
  · rintro ⟨⟨p, b⟩, hmem, heq⟩
    cases eq_of_beq heq
    exact ⟨b, hmem⟩
  · rintro ⟨b, hmem⟩
    exact ⟨(i, b), hmem, beq_self_eq_true i⟩

theorem isHit_append (c d : List (Nat × Nat)) (i : Nat) :
    isHit (c ++ d) i = (isHit c i || isHit d i) := List.any_append

theorem isHit_eq_false {pairs : List (Nat × Nat)} {i : Nat} (h : ∀ x ∈ pairs, x.1 ≠ i) :
    isHit pairs i = false := by
  rw [← Bool.not_eq_true, isHit_iff]
  rintro ⟨b, hmem⟩
  exact h _ hmem rfl

theorem range'_split {lo mid hi : Nat} (hlo : lo ≤ mid) (hhi : mid ≤ hi) :
    List.range' lo (hi - lo) = List.range' lo (mid - lo) ++ List.range' mid (hi - mid) := by
  have hmid : lo + 1 * (mid - lo) = mid := by omega
  have hlen : hi - lo = (mid - lo) + (hi - mid) := by omega
  rw [hlen, ← List.range'_append, hmid]

/-- The pairs `c` and the rows from `lo` to `mid`, then the pairs `d` and the rows from `mid` to
`hi`: each row is hit in its own part if it is hit at all. -/
structure Splits (c d : List (Nat × Nat)) (lo mid hi : Nat) : Prop where
  lo_le : lo ≤ mid
  le_hi : mid ≤ hi
  hit_left : ∀ i, lo ≤ i → i < mid → isHit (c ++ d) i = isHit c i
  hit_right : ∀ i, mid ≤ i → i < hi → isHit (c ++ d) i = isHit d i

section
variable {c d : List (Nat × Nat)} {lo mid hi : Nat}

/-- Selecting rows of the range by whether they are hit. -/
theorem Splits.filter_range' (h : Splits c d lo mid hi) (q : Bool → Bool) :
    (List.range' lo (hi - lo)).filter (fun i => q (isHit (c ++ d) i)) =
      (List.range' lo (mid - lo)).filter (fun i => q (isHit c i)) ++
        (List.range' mid (hi - mid)).filter fun i => q (isHit d i) := by
  rw [range'_split h.lo_le h.le_hi, List.filter_append]
  congr 1
  · refine List.filter_congr fun i hi => ?_
    obtain ⟨hle, hlt⟩ := List.mem_range'_1.1 hi
    rw [h.hit_left i hle (by omega)]
  · refine List.filter_congr fun i hi => ?_
    obtain ⟨hle, hlt⟩ := List.mem_range'_1.1 hi
    rw [h.hit_right i hle (by have := h.le_hi; omega)]

theorem Splits.map_range' (h : Splits c d lo mid hi) {β : Type} (f : Nat → Bool → β) :
    (List.range' lo (hi - lo)).map (fun i => f i (isHit (c ++ d) i)) =
      (List.range' lo (mid - lo)).map (fun i => f i (isHit c i)) ++
        (List.range' mid (hi - mid)).map fun i => f i (isHit d i) := by
  rw [range'_split h.lo_le h.le_hi, List.map_append]
  congr 1
  · refine List.map_congr_left fun i hi => ?_
    obtain ⟨hle, hlt⟩ := List.mem_range'_1.1 hi
    rw [h.hit_left i hle (by omega)]
  · refine List.map_congr_left fun i hi => ?_
    obtain ⟨hle, hlt⟩ := List.mem_range'_1.1 hi
    rw [h.hit_right i hle (by have := h.le_hi; omega)]

/-- **Adjacent parts add up.** -/
theorem decidedRows_split {joinType : JoinType} {cis : List ColumnIndex}
    {left batch : RecordBatch S} (h : Splits c d lo mid hi) :
    decidedRows joinType cis left batch (c ++ d) lo hi =
      decidedRows joinType cis left batch c lo mid +
        decidedRows joinType cis left batch d mid hi := by
  have hanti : getAntiIndices lo hi (c ++ d) = getAntiIndices lo mid c ++ getAntiIndices mid hi d :=
    h.filter_range' fun b => !b
  have hsemi : getSemiIndices lo hi (c ++ d) = getSemiIndices lo mid c ++ getSemiIndices mid hi d :=
    h.filter_range' fun b => b
  cases joinType with
  | inner | left => simp [decidedRows]
  | right | full =>
    simp only [decidedRows, hanti, List.map_append, ← Multiset.coe_add]
    abel
  | rightSemi => simp only [decidedRows, hsemi, List.map_append, ← Multiset.coe_add]
  | rightAnti => simp only [decidedRows, hanti, List.map_append, ← Multiset.coe_add]
  | rightMark =>
    simp only [decidedRows]
    rw [h.map_range' fun i hit => joinedRow cis none batch[i]? hit, ← Multiset.coe_add]
  | leftSemi | leftAnti | leftMark => rfl

end

/-! ## The rows of a chunk -/

/-- The pairs of a chunk that decides the rows from `start` to `stop`: in the order of their probe
rows, none of them before the last row decided. -/
structure InRange (pairs : List (Nat × Nat)) (start stop : Nat) : Prop where
  sorted : pairs.Pairwise fun x y => x.1 ≤ y.1
  start_le : ∀ x ∈ pairs, start ≤ x.1 + 1
  lt_stop : ∀ x ∈ pairs, x.1 < stop

theorem isHit_singleton_eq_false {p b i : Nat} (h : i ≠ p) : isHit [(p, b)] i = false := by
  apply isHit_eq_false
  intro y hy hyi
  rw [List.mem_singleton.1 hy] at hyi
  exact h hyi.symm

theorem InRange.tail {p b start stop : Nat} {pairs : List (Nat × Nat)}
    (h : InRange ((p, b) :: pairs) start stop) : InRange pairs (p + 1) stop := by
  have hsorted := List.pairwise_cons.1 h.sorted
  exact ⟨hsorted.2, fun y hy => Nat.succ_le_succ (hsorted.1 y hy),
    fun y hy => h.lt_stop y (List.mem_cons_of_mem _ hy)⟩

/-- Of the rows up to that of the pair, only its own is hit. -/
theorem filter_range'_first (p b start : Nat) :
    (List.range' start (p + 1 - start)).filter (fun i => !isHit [(p, b)] i) =
      List.range' start (p - start) := by
  have hself : isHit [(p, b)] p = true := isHit_iff.2 ⟨b, List.mem_singleton_self _⟩
  by_cases hlt : p < start
  · have hzero : p + 1 - start = 0 := by omega
    have hzero' : p - start = 0 := by omega
    rw [hzero, hzero']
    rfl
  · have hsucc : p + 1 - start = (p - start) + 1 := by omega
    have hlast : start + 1 * (p - start) = p := by omega
    rw [hsucc, List.range'_concat, List.filter_append, hlast]
    have hp : [p].filter (fun i => !isHit [(p, b)] i) = [] := by simp [hself]
    rw [hp, List.append_nil, List.filter_eq_self]
    intro i hi
    obtain ⟨_, hlt'⟩ := List.mem_range'_1.1 hi
    have hne : i ≠ p := by omega
    rw [isHit_singleton_eq_false hne]
    rfl

/-- The rows before the first pair's are missing, its own is hit, and later rows are hit by the
other pairs. -/
theorem getAntiIndices_cons {p b start stop : Nat} {pairs : List (Nat × Nat)}
    (h : InRange ((p, b) :: pairs) start stop) :
    getAntiIndices start stop ((p, b) :: pairs) =
      List.range' start (p - start) ++ getAntiIndices (p + 1) stop pairs := by
  have hself : isHit [(p, b)] p = true := isHit_iff.2 ⟨b, List.mem_singleton_self _⟩
  have hsorted := List.pairwise_cons.1 h.sorted
  have hlater : Splits [(p, b)] pairs start (p + 1) stop :=
    { lo_le := h.start_le _ List.mem_cons_self
      le_hi := h.lt_stop _ List.mem_cons_self
      hit_left := by
        intro i _ hlt
        rw [isHit_append]
        by_cases hi : i = p
        · rw [hi, hself, Bool.true_or]
        · have hnone : isHit pairs i = false := isHit_eq_false fun y hy hyi => by
            have hle := hsorted.1 y hy
            simp only at hle
            omega
          rw [hnone, Bool.or_false]
      hit_right := by
        intro i hle _
        have hne : i ≠ p := by omega
        rw [isHit_append, isHit_singleton_eq_false hne, Bool.false_or] }
  have hanti := hlater.filter_range' fun b => !b
  exact hanti.trans (congrArg (· ++ _) (filter_range'_first p b start))

theorem appendProbeIndicesInOrder_perm {pairs : List (Nat × Nat)} {start stop : Nat}
    (h : InRange pairs start stop) :
    (appendProbeIndicesInOrder stop start pairs).Perm
      (matchedSlots pairs ++
        (getAntiIndices start stop pairs).map fun idx => (none, some idx)) := by
  induction pairs generalizing start with
  | nil => simp [appendProbeIndicesInOrder, matchedSlots, getAntiIndices, isHit]
  | cons x pairs ih =>
    obtain ⟨p, b⟩ := x
    rw [appendProbeIndicesInOrder, getAntiIndices_cons h, List.map_append]
    have hmatched : matchedSlots ((p, b) :: pairs) = (some b, some p) :: matchedSlots pairs := rfl
    rw [hmatched, List.cons_append]
    refine List.perm_middle.trans (List.Perm.cons _ ?_)
    refine ((ih h.tail).append_left _).trans ?_
    rw [← List.append_assoc, ← List.append_assoc]
    exact (List.perm_append_comm).append_right _

theorem appendRightIndices_perm {pairs : List (Nat × Nat)} {start stop : Nat}
    (h : InRange pairs start stop) (preserveOrderForRight : Bool) :
    (appendRightIndices pairs start stop preserveOrderForRight).Perm
      (matchedSlots pairs ++
        (getAntiIndices start stop pairs).map fun idx => (none, some idx)) := by
  cases preserveOrderForRight with
  | true => exact appendProbeIndicesInOrder_perm h
  | false => exact List.Perm.refl _

theorem buildBatchFromIndices_left (left batch : RecordBatch S) (slots : List Slot)
    (cis : List ColumnIndex) : buildBatchFromIndices left batch slots cis .left =
      slots.map fun x =>
        joinedRow cis (x.1.bind (left[·]?)) (x.2.bind (batch[·]?)) x.2.isSome := by
  refine List.map_congr_left fun x _ => List.map_congr_left fun ci _ => ?_
  cases ci.side <;> rfl

theorem buildBatchFromIndices_right (left batch : RecordBatch S) (slots : List Slot)
    (cis : List ColumnIndex) : buildBatchFromIndices batch left slots cis .right =
      slots.map fun x =>
        joinedRow cis (x.2.bind (left[·]?)) (x.1.bind (batch[·]?)) x.2.isSome := by
  refine List.map_congr_left fun x _ => List.map_congr_left fun ci _ => ?_
  cases ci.side <;> rfl

section
variable {joinType : JoinType} {cis : List ColumnIndex} {left batch : RecordBatch S}

/-- Where no output column is the mark, the mark does not matter. -/
theorem joinedRow_mark (hcis : ∀ ci ∈ cis, joinType.outputSide ci.side = true)
    (hnone : joinType.outputSide .none = false) (l r : Option (Row S)) (mark mark' : Bool) :
    joinedRow cis l r mark = joinedRow cis l r mark' := by
  refine joinedRow_congr (fun _ _ _ => rfl) (fun _ _ _ => rfl) fun ci hci hside => ?_
  have hout := hcis ci hci
  rw [hside, hnone] at hout
  cases hout

/-- Where no output column is from the left side, the left row does not matter. -/
theorem joinedRow_right_only (hcis : ∀ ci ∈ cis, joinType.outputSide ci.side = true)
    (hleft : joinType.outputSide .left = false) (l l' r : Option (Row S)) (mark : Bool) :
    joinedRow cis l r mark = joinedRow cis l' r mark := by
  refine joinedRow_congr (fun ci hci hside => ?_) (fun _ _ _ => rfl) fun _ _ _ => rfl
  have hout := hcis ci hci
  rw [hside, hleft] at hout
  cases hout

/-- **A chunk outputs what it decides.** -/
theorem chunkRows_eq (hcis : ∀ ci ∈ cis, joinType.outputSide ci.side = true)
    (preserveOrderForRight : Bool) {pairs : List (Nat × Nat)} {start stop : Nat}
    (h : InRange pairs start stop) :
    (chunkRows joinType cis preserveOrderForRight left batch pairs start stop :
      Multiset (Row S)) = decidedRows joinType cis left batch pairs start stop := by
  have hright : ∀ preserve, joinType.outputSide .none = false →
      ((buildBatchFromIndices left batch (appendRightIndices pairs start stop preserve) cis .left :
        List (Row S)) : Multiset (Row S)) =
      ((pairs.map fun x => joinedRow cis left[x.2]? batch[x.1]? true : List (Row S)) :
        Multiset (Row S)) +
      ((getAntiIndices start stop pairs).map fun i => joinedRow cis none batch[i]? false :
        List (Row S)) := by
    intro preserve hnone
    rw [buildBatchFromIndices_left, Multiset.coe_add]
    refine Multiset.coe_eq_coe.2 (((appendRightIndices_perm h preserve).map _).trans ?_)
    rw [List.map_append, matchedSlots, List.map_map, List.map_map]
    refine List.Perm.of_eq (congrArg (_ ++ ·) (List.map_congr_left fun i _ => ?_))
    exact joinedRow_mark hcis hnone _ _ _ _
  cases joinType with
  | inner | left =>
    show ((buildBatchFromIndices _ _ _ _ _ : List (Row S)) : Multiset (Row S)) = _
    rw [buildBatchFromIndices_left]
    show ((List.map _ (matchedSlots pairs) : List (Row S)) : Multiset (Row S)) = _
    rw [matchedSlots, List.map_map]
    rfl
  | right => exact hright _ rfl
  | full => exact hright _ rfl
  | rightSemi =>
    show ((buildBatchFromIndices _ _ _ _ _ : List (Row S)) : Multiset (Row S)) = _
    rw [buildBatchFromIndices_left]
    show ((List.map _ (List.map _ (getSemiIndices start stop pairs)) : List (Row S)) :
      Multiset (Row S)) = _
    rw [List.map_map]
    rfl
  | rightAnti =>
    show ((buildBatchFromIndices _ _ _ _ _ : List (Row S)) : Multiset (Row S)) = _
    rw [buildBatchFromIndices_left]
    show ((List.map _ (List.map _ (getAntiIndices start stop pairs)) : List (Row S)) :
      Multiset (Row S)) = _
    rw [List.map_map]
    exact congrArg _ (List.map_congr_left fun i _ => joinedRow_mark hcis rfl _ _ _ _)
  | rightMark =>
    show ((buildBatchFromIndices _ _ _ _ _ : List (Row S)) : Multiset (Row S)) = _
    rw [buildBatchFromIndices_right]
    show ((List.map _ (List.map _ (List.range' start (stop - start))) : List (Row S)) :
      Multiset (Row S)) = _
    rw [List.map_map]
    refine congrArg _ (List.map_congr_left fun i _ => ?_)
    refine (joinedRow_right_only hcis rfl _ none _ _).trans (congrArg _ ?_)
    show (if isHit pairs i then some 0 else none : Option Nat).isSome = isHit pairs i
    cases isHit pairs i <;> rfl
  | leftSemi | leftAnti | leftMark => rfl

end

/-! ## A whole batch -/

section
variable {W : World S} {j : HashJoinExec S} {cis : List ColumnIndex} {left : RecordBatch S}
variable {partners : Row S → List Nat}

/-- The list holds the build rows that join with `r`, each once. -/
structure Lists (W : World S) (j : HashJoinExec S) (left : RecordBatch S) (r : Row S)
    (rows : List Nat) : Prop where
  nodup : rows.Nodup
  mem_iff : ∀ k, k ∈ rows ↔ ∃ l, left[k]? = some l ∧ j.joins W l r = true

/-- As a bag, the rows listed are the partners. -/
theorem Lists.map_eq {r : Row S} {rows : List Nat} (h : Lists W j left r rows) :
    (rows.map (left[·]?) : Multiset (Option (Row S))) =
      (Multiset.filter (j.joins W · r) (left : Multiset (Row S))).map some := by
  let found := left.zipIdx.filter fun x => j.joins W x.1 r
  have hall : (left.zipIdx.map (·.2)).Nodup := by
    rw [List.zipIdx_map_snd]
    exact List.nodup_range' 1
  have hnodup : (found.map (·.2)).Nodup := hall.sublist (List.filter_sublist.map _)
  have hperm : rows.Perm (found.map (·.2)) := by
    rw [List.perm_ext_iff_of_nodup h.nodup hnodup]
    intro k
    rw [h.mem_iff, List.mem_map]
    constructor
    · rintro ⟨l, hl, hjoin⟩
      exact ⟨(l, k), List.mem_filter.2 ⟨List.mem_zipIdx_iff_getElem?.2 hl, hjoin⟩, rfl⟩
    · rintro ⟨⟨l, k⟩, hmem, rfl⟩
      obtain ⟨hmem, hjoin⟩ := List.mem_filter.1 hmem
      exact ⟨l, List.mem_zipIdx_iff_getElem?.1 hmem, hjoin⟩
  have hrows : (found.map (·.2)).map (left[·]?) = (found.map (·.1)).map some := by
    rw [List.map_map, List.map_map]
    refine List.map_congr_left fun x hx => ?_
    exact List.mem_zipIdx_iff_getElem?.1 (List.mem_of_mem_filter hx)
  have hfilter : found.map (·.1) = left.filter (j.joins W · r) := by
    conv_rhs => rw [← List.zipIdx_map_fst 0 left, List.filter_map]
    rfl
  rw [Multiset.coe_eq_coe.2 (hperm.map _), hrows, hfilter, Multiset.filter_coe, Multiset.map_coe]
  simp only [Bool.decide_eq_true]

theorem isHit_rowPairs (k : Nat) (rows : List Nat) :
    isHit (rowPairs k rows) k = !rows.isEmpty := by
  cases rows with
  | nil => rfl
  | cons b rows => simp [isHit, rowPairs]

/-- One row with all its pairs is what the row contributes to the join. -/
theorem decidedRows_row {batch : RecordBatch S} {k : Nat} {r : Row S} (hr : batch[k]? = some r)
    (h : Lists W j left r (partners r)) :
    decidedRows j.joinType cis left batch (rowPairs k (partners r)) k (k + 1) =
      j.probeRows W cis left r := by
  have hpaired : hasPartner (flip (j.joins W)) (left : Multiset (Row S)) r =
      !(partners r).isEmpty := by
    have hcard := congrArg Multiset.card h.map_eq
    rw [Multiset.card_map, Multiset.coe_card, List.length_map] at hcard
    rw [Bool.eq_iff_iff, ← Bool.not_eq_false, hasPartner_eq_false_iff_filter]
    show ¬ Multiset.filter (fun l => j.joins W l r = true) _ = 0 ↔ _
    rw [← Multiset.card_eq_zero, ← hcard]
    simp
  have hmatched : ((rowPairs k (partners r)).map
      (fun x => joinedRow cis left[x.2]? batch[x.1]? true) : Multiset (Row S)) =
      (Multiset.filter (j.joins W · r) (left : Multiset (Row S))).map
        fun l => joinedRow cis (some l) (some r) true := by
    have hmap := congrArg (Multiset.map fun l => joinedRow cis l (some r) true) h.map_eq
    rw [Multiset.map_map, Multiset.map_coe, List.map_map] at hmap
    rw [rowPairs, List.map_map]
    simpa only [Function.comp_def, hr] using hmap
  have hanti : getAntiIndices k (k + 1) (rowPairs k (partners r)) =
      if hasPartner (flip (j.joins W)) (left : Multiset (Row S)) r then [] else [k] := by
    rw [hpaired, getAntiIndices, Nat.add_sub_cancel_left, List.range'_one, List.filter_cons,
      isHit_rowPairs]
    cases (partners r).isEmpty <;> rfl
  have hsemi : getSemiIndices k (k + 1) (rowPairs k (partners r)) =
      if hasPartner (flip (j.joins W)) (left : Multiset (Row S)) r then [k] else [] := by
    rw [hpaired, getSemiIndices, Nat.add_sub_cancel_left, List.range'_one, List.filter_cons,
      isHit_rowPairs]
    cases (partners r).isEmpty <;> rfl
  unfold decidedRows HashJoinExec.probeRows
  cases j.joinType with
  | inner | left => exact hmatched
  | right | full =>
    simp only [hmatched, hanti]
    cases hasPartner (flip (j.joins W)) (left : Multiset (Row S)) r <;> simp [hr]
  | rightSemi =>
    simp only [hsemi]
    cases hasPartner (flip (j.joins W)) (left : Multiset (Row S)) r <;> simp [hr]
  | rightAnti =>
    simp only [hanti]
    cases hasPartner (flip (j.joins W)) (left : Multiset (Row S)) r <;> simp [hr]
  | rightMark => simp [isHit_rowPairs, hpaired, hr]
  | leftSemi | leftAnti | leftMark => rfl

theorem decidedRows_self (joinType : JoinType) (batch : RecordBatch S) (k : Nat) :
    decidedRows joinType cis left batch [] k k = 0 := by
  cases joinType <;> simp [decidedRows, getAntiIndices, getSemiIndices]

theorem decidedRows_from {batch pre rest : RecordBatch S} (hbatch : batch = pre ++ rest)
    (h : ∀ r ∈ rest, Lists W j left r (partners r)) :
    decidedRows j.joinType cis left batch (matchesFrom partners pre.length rest) pre.length
      batch.length = (rest : Multiset (Row S)).bind (j.probeRows W cis left) := by
  induction rest generalizing pre with
  | nil =>
    rw [List.append_nil] at hbatch
    rw [hbatch]
    exact decidedRows_self _ _ _
  | cons r rest ih =>
    have hlen : batch.length = pre.length + (rest.length + 1) := by
      rw [hbatch, List.length_append, List.length_cons]
    have hr : batch[pre.length]? = some r := by
      rw [hbatch, List.getElem?_append_right le_rfl, Nat.sub_self, List.getElem?_cons_zero]
    have hsplit : Splits (rowPairs pre.length (partners r))
        (matchesFrom partners (pre.length + 1) rest) pre.length (pre.length + 1) batch.length :=
      { lo_le := Nat.le_succ _
        le_hi := by omega
        hit_left := by
          intro i _ hlt
          have hnone : isHit (matchesFrom partners (pre.length + 1) rest) i = false :=
            isHit_eq_false fun x hx hxi => by
              have hle := ((mem_matchesFrom partners).1 hx).1
              omega
          rw [isHit_append, hnone, Bool.or_false]
        hit_right := by
          intro i hle _
          have hnone : isHit (rowPairs pre.length (partners r)) i = false :=
            isHit_eq_false fun x hx hxi => by
              obtain ⟨b, -, rfl⟩ := List.mem_map.1 hx
              simp only at hxi
              omega
          rw [isHit_append, hnone, Bool.false_or] }
    have hpre : batch = (pre ++ [r]) ++ rest := by rw [hbatch, List.append_assoc]; rfl
    have hrest := ih hpre fun r' hr' => h r' (List.mem_cons_of_mem _ hr')
    rw [List.length_append, List.length_singleton] at hrest
    rw [matchesFrom, decidedRows_split hsplit, hrest,
      decidedRows_row hr (h r List.mem_cons_self), ← Multiset.cons_coe, Multiset.cons_bind]

/-- **A batch with all its pairs is what its rows contribute to the join.** -/
theorem decidedRows_batch {batch : RecordBatch S}
    (h : ∀ r ∈ batch, Lists W j left r (partners r)) :
    decidedRows j.joinType cis left batch (matchesFrom partners 0 batch) 0 batch.length =
      (batch : Multiset (Row S)).bind (j.probeRows W cis left) :=
  decidedRows_from (List.nil_append _).symm h

/-- The shortcut for a build side without a match is what the rows of the batch contribute. -/
theorem buildBatchEmptyBuildSide_eq {batch : RecordBatch S}
    (h : ∀ r ∈ batch, ∀ l ∈ left, j.joins W l r = false) :
    (buildBatchEmptyBuildSide batch cis j.joinType : Multiset (Row S)) =
      (batch : Multiset (Row S)).bind (j.probeRows W cis left) := by
  have hpaired : ∀ r ∈ (batch : Multiset (Row S)),
      hasPartner (flip (j.joins W)) (left : Multiset (Row S)) r = false := by
    intro r hr
    rw [hasPartner_eq_false_iff]
    exact fun l hl => h r (Multiset.mem_coe.1 hr) l (Multiset.mem_coe.1 hl)
  have hmatched : ∀ r ∈ (batch : Multiset (Row S)),
      Multiset.filter (j.joins W · r) (left : Multiset (Row S)) = 0 := fun r hr =>
    hasPartner_eq_false_iff_filter.1 (hpaired r hr)
  have hnull : ∀ r : Row S, (cis.map fun ci => match ci.side with
      | .left => .null
      | .right => Row.value r ci.index
      | .none => .boolean false) = joinedRow cis none (some r) false := by
    intro r
    refine List.map_congr_left fun ci _ => ?_
    cases ci.side <;> rfl
  have hrow : ∀ r ∈ (batch : Multiset (Row S)), j.probeRows W cis left r =
      match j.joinType with
      | .right | .full | .rightAnti | .rightMark => {joinedRow cis none (some r) false}
      | _ => 0 := by
    intro r hr
    unfold HashJoinExec.probeRows
    cases j.joinType <;> simp [hpaired r hr, hmatched r hr]
  rw [Multiset.bind_congr hrow]
  unfold buildBatchEmptyBuildSide
  cases j.joinType <;>
    simp only [hnull, Multiset.bind_zero, Multiset.bind_singleton, Multiset.map_coe,
      Multiset.coe_nil]

end

/-! ## Cutting a batch into chunks -/

theorem sorted_matchesFrom {η : Type} (partners : η → List Nat) (i : Nat) (xs : List η) :
    (matchesFrom partners i xs).Pairwise fun x y => x.1 ≤ y.1 := by
  induction xs generalizing i with
  | nil => exact List.Pairwise.nil
  | cons x xs ih =>
    rw [matchesFrom, List.pairwise_append]
    refine ⟨?_, ih (i + 1), ?_⟩
    · rw [rowPairs, List.pairwise_map]
      exact List.pairwise_of_forall fun _ _ => le_rfl
    · intro y hy z hz
      obtain ⟨b, -, rfl⟩ := List.mem_map.1 hy
      have hle := ((mem_matchesFrom partners).1 hz).1
      simp only
      omega

/-- The pairs of a batch after some chunks: `done` went out, `rest` is to come, and the rows before
`start` are decided. The last row decided was hit, and may be hit again. -/
structure Progress (done rest : List (Nat × Nat)) (start : Nat) : Prop where
  sorted : (done ++ rest).Pairwise fun x y => x.1 ≤ y.1
  done_lt : ∀ x ∈ done, x.1 < start
  start_le : ∀ x ∈ rest, start ≤ x.1 + 1
  last_hit : ∀ i, start = i + 1 → isHit done i = true

section
variable {done chunk rest : List (Nat × Nat)} {start stop : Nat}

theorem Progress.zero (h : rest.Pairwise fun x y => x.1 ≤ y.1) : Progress [] rest 0 where
  sorted := h
  done_lt _ hx := absurd hx List.not_mem_nil
  start_le _ _ := Nat.zero_le _
  last_hit _ hi := absurd hi (Nat.succ_ne_zero _).symm

/-- If nothing was found, nothing was decided. -/
theorem Progress.start_eq_zero (h : Progress [] rest start) : start = 0 := by
  cases start with
  | zero => rfl
  | succ i => cases h.last_hit i rfl

theorem Progress.inRange (h : Progress done (chunk ++ rest) start)
    (hstop : ∀ x ∈ chunk, x.1 < stop) : InRange chunk start stop where
  sorted := ((List.pairwise_append.1 (List.pairwise_append.1 h.sorted).2.1)).1
  start_le x hx := h.start_le x (List.mem_append_left _ hx)
  lt_stop := hstop

/-- A chunk that decides the rows up to `stop` continues what was decided before. -/
theorem Progress.splits (h : Progress done (chunk ++ rest) start) (hle : start ≤ stop) :
    Splits done chunk 0 start stop where
  lo_le := Nat.zero_le _
  le_hi := hle
  hit_left i _ hlt := by
    rw [isHit_append]
    by_cases hlast : start = i + 1
    · rw [h.last_hit i hlast, Bool.true_or]
    · have hnone : isHit chunk i = false := isHit_eq_false fun x hx hxi => by
        have hle := h.start_le x (List.mem_append_left _ hx)
        omega
      rw [hnone, Bool.or_false]
  hit_right i hge _ := by
    have hnone : isHit done i = false := isHit_eq_false fun x hx hxi => by
      have hlt := h.done_lt x hx
      omega
    rw [isHit_append, hnone, Bool.false_or]

/-- A chunk that ends in row `last`. -/
theorem Progress.advance (h : Progress done (chunk ++ rest) start) {last : Nat}
    (hlast : (chunk.getLast?).map (·.1) = some last) :
    start ≤ last + 1 ∧ (∀ x ∈ chunk, x.1 < last + 1) ∧
      Progress (done ++ chunk) rest (last + 1) := by
  obtain ⟨x, hx, rfl⟩ := Option.map_eq_some_iff.1 hlast
  obtain ⟨init, rfl⟩ := List.getLast?_eq_some_iff.1 hx
  have hsorted := List.pairwise_append.1 (List.pairwise_append.1 h.sorted).2.1
  have hinit := (List.pairwise_append.1 hsorted.1).2.2
  have hstart : start ≤ x.1 + 1 := h.start_le x (by simp)
  have hchunk : ∀ y ∈ init ++ [x], y.1 < x.1 + 1 := by
    intro y hy
    rcases List.mem_append.1 hy with hy | hy
    · exact Nat.lt_succ_of_le (hinit y hy x (List.mem_singleton_self x))
    · rw [List.mem_singleton.1 hy]
      exact Nat.lt_succ_self _
  refine ⟨hstart, hchunk, ?_, ?_, ?_, ?_⟩
  · rw [List.append_assoc]
    exact h.sorted
  · intro y hy
    rcases List.mem_append.1 hy with hy | hy
    · exact (h.done_lt y hy).trans_le hstart
    · exact hchunk y hy
  · intro y hy
    exact Nat.succ_le_succ (hsorted.2.2 x (by simp) y hy)
  · intro i hi
    have hxi : x.1 = i := by omega
    rw [isHit_append, Bool.or_eq_true]
    exact .inr (isHit_iff.2 ⟨x.2, by rw [← hxi]; simp⟩)

end

/-! ## The final pass -/

section
variable {W : World S} {j : HashJoinExec S} {cis : List ColumnIndex} {left : RecordBatch S}

/-- The slots of the build rows that are selected, without a probe row. -/
def finalSlots (left : RecordBatch S) (select : Row S → Bool) : List Slot :=
  (left.zipIdx.filter fun x => select x.1).map fun x => (some x.2, none)

theorem filter_zipIdx_map (p : Row S → Bool) (q : Bool → Bool) :
    (((left.map p).zipIdx.filter fun x => q x.1).map fun x => ((some x.2, none) : Slot)) =
      finalSlots left fun l => q (p l) := by
  rw [List.zipIdx_map, List.filter_map, List.map_map]
  rfl

theorem finalSlots_rows (select : Row S → Bool) :
    buildBatchFromIndices left [] (finalSlots left select) cis .left =
      (left.filter select).map fun l => joinedRow cis (some l) none false := by
  have hleft : left.filter select = (left.zipIdx.filter fun x => select x.1).map (·.1) := by
    conv_lhs => rw [← List.zipIdx_map_fst 0 left, List.filter_map]
    rfl
  rw [buildBatchFromIndices_left, hleft, finalSlots, List.map_map, List.map_map]
  refine List.map_congr_left fun x hx => ?_
  show joinedRow cis left[x.2]? none false = joinedRow cis (some x.1) none false
  rw [List.mem_zipIdx_iff_getElem?.1 (List.mem_of_mem_filter hx)]

/-- Dropping the build rows with a `NULL` key from the final indices. -/
def dropNullKeys (isNull : Row S → Bool) (left : RecordBatch S) (slots : List Slot) : List Slot :=
  (slots.filter fun x => x.1.any fun idx => (left[idx]?).any fun l => !isNull l).map
    fun x => (x.1, none)

theorem dropNullKeys_finalSlots (isNull select : Row S → Bool) :
    dropNullKeys isNull left (finalSlots left select) =
      finalSlots left fun l => select l && !isNull l := by
  rw [dropNullKeys, finalSlots, List.filter_map, List.map_map, List.filter_filter, finalSlots]
  refine congrArg (List.map _) (List.filter_congr fun x hx => ?_)
  show ((left[x.2]?).any (fun l => !isNull l) && select x.1) = _
  rw [List.mem_zipIdx_iff_getElem?.1 hx, Option.any_some, Bool.and_comm]

/-- **A correct bitmap gives the rows of the final pass.** -/
theorem getFinalIndices_rows (hcis : ∀ ci ∈ cis, j.joinType.outputSide ci.side = true)
    (hfinal : j.joinType.needProduceResultInFinal = true) (R : Multiset (Row S)) :
    (buildBatchFromIndices left []
      (getFinalIndices (left.map (hasPartner (j.joins W) R)) j.joinType)
      cis .left : Multiset (Row S)) = j.finalRows W cis left R := by
  have hanti : ((buildBatchFromIndices left []
      (((left.map (hasPartner (j.joins W) R)).zipIdx.filter (!·.1)).map fun x => (some x.2, none))
      cis .left : List (Row S)) : Multiset (Row S)) =
      (anti (j.joins W) (left : Multiset (Row S)) R).map
        fun l => joinedRow cis (some l) none false := by
    rw [filter_zipIdx_map _ fun b => !b, finalSlots_rows, anti, Multiset.filter_coe,
      Multiset.map_coe]
    simp
  unfold HashJoinExec.finalRows
  cases hjt : j.joinType with
  | left | full | leftAnti => exact hanti
  | leftSemi =>
    show ((buildBatchFromIndices left [] (((left.map (hasPartner (j.joins W) R)).zipIdx.filter
      (·.1)).map fun x => (some x.2, none)) cis .left : List (Row S)) : Multiset (Row S)) = _
    rw [filter_zipIdx_map _ fun b => b, finalSlots_rows, semi, Multiset.filter_coe,
      Multiset.map_coe]
    simp only [Bool.decide_eq_true]
    refine congrArg _ (List.map_congr_left fun l _ => ?_)
    rw [hjt] at hcis
    exact joinedRow_mark hcis rfl _ _ _ _
  | leftMark =>
    show ((buildBatchFromIndices left [] ((left.map (hasPartner (j.joins W) R)).zipIdx.map fun x =>
      (some x.2, if x.1 then some 0 else none)) cis .left : List (Row S)) : Multiset (Row S)) = _
    rw [buildBatchFromIndices_left, List.zipIdx_map, List.map_map, List.map_map, Multiset.map_coe]
    conv_rhs => rw [← List.zipIdx_map_fst 0 left, List.map_map]
    refine congrArg _ (List.map_congr_left fun x hx => ?_)
    show joinedRow cis left[x.2]?
        ((if hasPartner (j.joins W) R x.1 then some 0 else none).bind (([] : RecordBatch S)[·]?))
        (if hasPartner (j.joins W) R x.1 then some 0 else none : Option Nat).isSome =
      joinedRow cis (some x.1) none (hasPartner (j.joins W) R x.1)
    rw [List.mem_zipIdx_iff_getElem?.1 hx]
    cases hasPartner (j.joins W) R x.1 <;> rfl
  | inner | right | rightSemi | rightAnti | rightMark =>
    rw [hjt] at hfinal
    cases hfinal

end

end PredicateTransfer
