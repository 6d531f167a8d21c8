import PredicateTransfer.HashJoinRun
import PredicateTransfer.Lib.ThreeValued

/-!
# `NOT IN`

A null-aware anti join is how `l.key NOT IN (SELECT r.key ...)` is run. Whatever the order in which
its streams set and read the shared flags, it keeps a build row if no probe key is `NULL`, no probe
row joins with it, and its own key is not `NULL` unless the probe side is empty
(`nullAware_streams`).

Without a residual filter that is `NOT IN` in SQL's three-valued logic
(`nullAware_streams_eq_notIn`). With one, SQL compares the key only with the probe rows that pass
the filter for that build row, but the flags are about the whole probe side; the two agree exactly
when they do not disagree on some build row (`correlated_notIn_iff`).
-/

namespace PredicateTransfer

open SemiJoin

variable {S : Sig}

/-! ## SQL -/

section
variable (W : World S)

/-- `a = b` in SQL. -/
def World.sqlEq (a b : Value S) : ThreeValued.Truth :=
  if a.isNull || b.isNull then none else some (W.valueEq a b)

/-- `key NOT IN (keys)`. -/
def World.notIn (key : Value S) (keys : List (Value S)) : ThreeValued.Truth :=
  ThreeValued.not (ThreeValued.any (keys.map (W.sqlEq key)))

variable (j : HashJoinExec S)

/-- The only key of a build row. -/
def HashJoinExec.leftKey (l : Row S) : Value S := (j.leftKeys W l).headD .null

/-- The only key of a probe row. -/
def HashJoinExec.rightKey (r : Row S) : Value S := (j.rightKeys W r).headD .null

end

variable {W : World S} {j : HashJoinExec S}

theorem World.notIn_eq_true {key : Value S} {keys : List (Value S)} :
    W.notIn key keys = some true ↔ ∀ k ∈ keys, W.sqlEq key k = some false := by
  rw [World.notIn, ThreeValued.not_eq_true, ThreeValued.any_eq_false, List.forall_mem_map]

theorem World.sqlEq_eq_false {a b : Value S} :
    W.sqlEq a b = some false ↔ a.isNull = false ∧ b.isNull = false ∧ W.valueEq a b = false := by
  unfold World.sqlEq
  split_ifs with h
  · simp only [Bool.or_eq_true] at h
    simp only [false_iff, not_and]
    intro ha hb
    rw [ha, hb] at h
    rcases h with h | h <;> cases h
  · simp only [Bool.or_eq_true, not_or, Bool.not_eq_true] at h
    simp [h]

/-- The equality of the join and that of SQL differ on `NULL`s only. -/
theorem World.keyEq_of_not_isNull {nullEquality : NullEquality} {a b : Value S}
    (h : a.isNull = false) : W.keyEq nullEquality a b = W.valueEq a b := by
  cases a with
  | null => cases h
  | int32 _ | int64 _ | utf8 _ | boolean _ | other _ => rfl

/-! ## What a null-aware anti join keeps -/

/-- All probe rows, stream by stream. -/
def allRows {n : Nat} (inputs : Fin n → List (RecordBatch S)) : List (Row S) :=
  (List.finRange n).flatMap fun i => (inputs i).flatten

theorem mem_allRows {n : Nat} {inputs : Fin n → List (RecordBatch S)} {r : Row S} :
    r ∈ allRows inputs ↔ r ∈ JoinContext.probeBag inputs := by
  simp only [allRows, List.mem_flatMap, List.mem_finRange, true_and, List.mem_flatten,
    JoinContext.mem_probeBag]

section
variable (W j)

/-- The build row stays. -/
def HashJoinExec.nullAwareKeeps (probe : List (Row S)) (l : Row S) : Bool :=
  !probe.any (fun r => (j.rightKey W r).isNull) && !probe.any (j.joins W l) &&
    (probe.isEmpty || !(j.leftKey W l).isNull)

/-- The rows that a null-aware anti join outputs, from the build rows it keeps. -/
def keptRows (cis : List ColumnIndex) (keeps : Row S → Bool) (L : Multiset (Row S)) :
    Multiset (Row S) :=
  (L.filter (keeps ·)).map fun l => joinedRow cis (some l) none false

end

theorem HashJoinExec.nullAwareKeeps_iff {probe : List (Row S)} {l : Row S} :
    j.nullAwareKeeps W probe l = true ↔
      (∀ r ∈ probe, (j.rightKey W r).isNull = false) ∧ (∀ r ∈ probe, j.joins W l r = false) ∧
        (probe ≠ [] → (j.leftKey W l).isNull = false) := by
  simp only [nullAwareKeeps, Bool.and_eq_true, Bool.not_eq_true', List.any_eq_false,
    Bool.or_eq_true, List.isEmpty_iff, Bool.not_eq_true, and_assoc, ne_eq]
  tauto

/-- Row by row: no probe row and no `NULL` speaks against the build row. -/
theorem HashJoinExec.nullAwareKeeps_iff_forall {probe : List (Row S)} {l : Row S} :
    j.nullAwareKeeps W probe l = true ↔
      ∀ r ∈ probe, (j.rightKey W r).isNull = false ∧ (j.leftKey W l).isNull = false ∧
        j.joins W l r = false := by
  rw [nullAwareKeeps_iff]
  constructor
  · rintro ⟨hright, hjoin, hleft⟩ r hr
    exact ⟨hright r hr, hleft (List.ne_nil_of_mem hr), hjoin r hr⟩
  · intro h
    refine ⟨fun r hr => (h r hr).1, fun r hr => (h r hr).2.2, fun hne => ?_⟩
    obtain ⟨r, hr⟩ := List.exists_mem_of_ne_nil _ hne
    exact (h r hr).2.1

theorem HashJoinExec.nullAwareKeeps_of_null {probe : List (Row S)} {l r : Row S} (hr : r ∈ probe)
    (hrn : (j.rightKey W r).isNull = true) : j.nullAwareKeeps W probe l = false := by
  rw [← Bool.not_eq_true]
  intro hkeep
  rw [(nullAwareKeeps_iff_forall.1 hkeep r hr).1] at hrn
  cases hrn

section
variable {cis : List ColumnIndex} {keeps keeps' : Row S → Bool} {L : Multiset (Row S)}

theorem keptRows_congr (h : ∀ l ∈ L, keeps l = true ↔ keeps' l = true) :
    keptRows cis keeps L = keptRows cis keeps' L :=
  congrArg _ (Multiset.filter_congr h)

theorem keptRows_eq_zero (h : ∀ l ∈ L, keeps l = false) : keptRows cis keeps L = 0 := by
  have hnone : L.filter (keeps ·) = 0 :=
    Multiset.filter_eq_nil.2 fun l hl => by rw [h l hl]; exact Bool.false_ne_true
  rw [keptRows, hnone, Multiset.map_zero]

end

/-- A null-aware anti join over a plan: the hypotheses that all results share. -/
structure NullAwareRun (W : World S) {n : Nat} (j : HashJoinExec S) (H : KeyHash W)
    (build : List (RecordBatch S)) (left : JoinLeftData W) (batchSize : Nat)
    (inputs : Fin n → List (RecordBatch S)) : Prop where
  joinType : j.joinType = .leftAnti
  nullAware : j.nullAware = true
  on : j.on.length = 1
  fetch : j.fetch = none
  batchSize : 1 ≤ batchSize
  streams : 1 ≤ n
  left : ∃ config keys bounds, collectLeftInput W j H config keys bounds build = .ok left ∧
    ∀ I, keys = some I → (∀ l ∈ build.flatten, I.IsValue (j.leftKey W l)) ∧
      ∀ i, ∀ b ∈ inputs i, ∀ r ∈ b, I.IsValue (j.rightKey W r)

section
variable {n : Nat} {H : KeyHash W} {build : List (RecordBatch S)} {left : JoinLeftData W}
variable {batchSize : Nat} {inputs : Fin n → List (RecordBatch S)}

theorem JoinContext.hasNull_iff {C : JoinContext W} :
    C.HasNull inputs ↔ ∃ r ∈ allRows inputs, (C.join.rightKey W r).isNull = true := by
  simp only [mem_allRows, mem_probeBag, HasNull, List.any_eq_true]
  constructor
  · rintro ⟨i, b, hb, r, hr, hrn⟩
    exact ⟨r, ⟨i, b, hb, hr⟩, hrn⟩
  · rintro ⟨r, ⟨i, b, hb, hr⟩, hrn⟩
    exact ⟨i, b, hb, r, hr, hrn⟩

/-- What the last stream adds when no probe row has a `NULL` key. -/
theorem JoinContext.lastRows_eq_keptRows {C : JoinContext W} (hjoin : C.join.joinType = .leftAnti)
    (haware : C.join.nullAware = true)
    (hno : ∀ r ∈ allRows inputs, (C.join.rightKey W r).isNull = false) :
    C.lastRows (probeBag inputs) =
      keptRows C.columnIndices (C.join.nullAwareKeeps W (allRows inputs)) C.left.batch := by
  have hanti : ∀ l, hasPartner (C.join.joins W) (probeBag inputs) l = false ↔
      ∀ r ∈ allRows inputs, C.join.joins W l r = false := by
    intro l
    simp only [hasPartner_eq_false_iff, mem_allRows]
  unfold lastRows keptRows
  by_cases hcard : 0 < (probeBag inputs).card
  · have hne : allRows inputs ≠ [] := by
      obtain ⟨r, hr⟩ := Multiset.card_pos_iff_exists_mem.1 hcard
      exact List.ne_nil_of_mem (mem_allRows.2 hr)
    rw [if_pos ⟨haware, hcard⟩, anti, Multiset.filter_filter]
    refine congrArg _ (Multiset.filter_congr fun l _ => ?_)
    rw [HashJoinExec.nullAwareKeeps_iff, hanti]
    exact ⟨fun hl => ⟨hno, hl.2, fun _ => hl.1⟩, fun hl => ⟨hl.2.2 hne, hl.2.1⟩⟩
  · have hnil : allRows inputs = [] := by
      refine List.eq_nil_iff_forall_not_mem.2 fun r hr => hcard ?_
      exact Multiset.card_pos_iff_exists_mem.2 ⟨r, mem_allRows.1 hr⟩
    rw [if_neg fun hboth => hcard hboth.2]
    simp only [HashJoinExec.finalRows, hjoin]
    refine congrArg _ (Multiset.filter_congr fun l _ => ?_)
    rw [HashJoinExec.nullAwareKeeps_iff, hanti, hnil]
    simp

/-- **What the streams of a null-aware anti join output**, in any interleaving. -/
theorem nullAware_streams (h : NullAwareRun W j H build left batchSize inputs)
    (leftSchema rightSchema : Schema) (rightSideOrdered : Bool) :
    let cis := j.columnIndices leftSchema rightSchema
    JoinContext.EndsWith ⟨j, cis, H, left, rightSideOrdered, batchSize⟩ inputs fun out =>
      ∑ i, out i = keptRows cis (j.nullAwareKeeps W (allRows inputs)) (rowsOf build) := by
  intro cis
  let C : JoinContext W := ⟨j, cis, H, left, rightSideOrdered, batchSize⟩
  have hproper : C.Proper :=
    { fetch := h.fetch
      outputSide := fun ci hci => HashJoinExec.outputSide_of_mem hci
      nullAware := fun _ => h.joinType }
  have hon : j.on ≠ [] := by
    rintro hnil
    have hlen := h.on
    rw [hnil] at hlen
    cases hlen
  obtain ⟨config, keys, bounds, hleft, htyped⟩ := h.left
  obtain ⟨hbag, hends⟩ := JoinContext.endsWith_of_collectLeftInput hproper hon h.batchSize
    h.streams hleft (fun I hI => (htyped I hI).1) fun I hI => (htyped I hI).2
  have hjoin : C.join.joinType = .leftAnti := h.joinType
  have hprobe : ∀ batches, C.probeOutput batches = 0 := by
    intro batches
    simp only [JoinContext.probeOutput, JoinContext.probeRows_leftAnti hjoin, Multiset.bind_zero]
  refine hends.imp fun out hout => ?_
  by_cases hset : C.HasNull inputs
  · have hout := hout.1 ⟨h.nullAware, hset⟩
    obtain ⟨r, hr, hrn⟩ := JoinContext.hasNull_iff.1 hset
    rw [Finset.sum_eq_zero fun i _ => (hout i).trans (hprobe _)]
    exact (keptRows_eq_zero fun l _ => HashJoinExec.nullAwareKeeps_of_null hr hrn).symm
  · obtain ⟨k, hk⟩ := hout.2 fun hboth => hset hboth.2
    have hlast : ∑ i, out i = C.lastRows (JoinContext.probeBag inputs) := by
      rw [Finset.sum_congr rfl fun i _ => (hk i).trans (by rw [hprobe, zero_add]),
        Finset.sum_ite_eq', if_pos (Finset.mem_univ k)]
    have hno : ∀ r ∈ allRows inputs, (j.rightKey W r).isNull = false := by
      intro r hr
      rw [← Bool.not_eq_true]
      exact fun hrn => hset (JoinContext.hasNull_iff.2 ⟨r, hr, hrn⟩)
    rw [hlast, ← hbag]
    exact JoinContext.lastRows_eq_keptRows hjoin h.nullAware hno

/-! ## Correlated `NOT IN` -/

section
variable (W j)

/-- `l.key NOT IN (SELECT r.key FROM probe r WHERE f(l, r))`. -/
def HashJoinExec.correlatedNotIn (probe : List (Row S)) (l : Row S) : ThreeValued.Truth :=
  W.notIn (j.leftKey W l) ((probe.filter (j.filterPasses W l)).map (j.rightKey W))

/-- The probe rows that pass the filter for `l` already say what the flags say about the whole probe
side: if there is a `NULL` key anywhere, one of them keeps `l` out, and if there are probe rows at
all and the key of `l` is `NULL`, there is one of them. -/
def HashJoinExec.Covered (probe : List (Row S)) (l : Row S) : Prop :=
  ((∃ r ∈ probe, (j.rightKey W r).isNull = true) →
    ∃ r ∈ probe, j.filterPasses W l r = true ∧
      W.sqlEq (j.leftKey W l) (j.rightKey W r) ≠ some false) ∧
  (probe ≠ [] → (j.leftKey W l).isNull = true → ∃ r ∈ probe, j.filterPasses W l r = true)

end

section
variable {probe : List (Row S)} {l : Row S}

theorem HashJoinExec.correlatedNotIn_iff :
    j.correlatedNotIn W probe l = some true ↔
      ∀ r ∈ probe, j.filterPasses W l r = true →
        W.sqlEq (j.leftKey W l) (j.rightKey W r) = some false := by
  rw [correlatedNotIn, World.notIn_eq_true, List.forall_mem_map]
  simp only [List.mem_filter, and_imp]

theorem HashJoinExec.joins_eq_of_length_one (hon : j.on.length = 1) (r : Row S) :
    j.joins W l r = (W.keyEq j.nullEquality (j.leftKey W l) (j.rightKey W r) &&
      j.filterPasses W l r) := by
  rw [HashJoinExec.joins_eq, keysEqual_of_length_one hon]
  rfl

/-- What the join keeps, SQL keeps. -/
theorem HashJoinExec.correlatedNotIn_of_keeps (hon : j.on.length = 1)
    (h : j.nullAwareKeeps W probe l = true) : j.correlatedNotIn W probe l = some true := by
  rw [correlatedNotIn_iff]
  intro r hr hpass
  obtain ⟨hrn, hln, hjoin⟩ := nullAwareKeeps_iff_forall.1 h r hr
  rw [joins_eq_of_length_one hon, hpass, Bool.and_true, World.keyEq_of_not_isNull hln] at hjoin
  exact World.sqlEq_eq_false.2 ⟨hln, hrn, hjoin⟩

/-- What SQL keeps, the join keeps exactly if the flags say nothing new. -/
theorem HashJoinExec.keeps_of_correlatedNotIn_iff (hon : j.on.length = 1) :
    (j.correlatedNotIn W probe l = some true → j.nullAwareKeeps W probe l = true) ↔
      j.Covered W probe l := by
  rw [correlatedNotIn_iff, nullAwareKeeps_iff_forall]
  constructor
  · intro h
    constructor
    · rintro ⟨r, hr, hrn⟩
      by_contra hnone
      have hall := h fun r hr hpass => by
        by_contra hsql
        exact hnone ⟨r, hr, hpass, hsql⟩
      rw [(hall r hr).1] at hrn
      cases hrn
    · intro hne hln
      by_contra hnone
      obtain ⟨r, hr⟩ := List.exists_mem_of_ne_nil _ hne
      have hall := h fun r hr hpass => absurd ⟨r, hr, hpass⟩ hnone
      rw [(hall r hr).2.1] at hln
      cases hln
  · rintro ⟨hnull, hleft⟩ hsql r hr
    refine ⟨?_, ?_, ?_⟩
    · rw [← Bool.not_eq_true]
      intro hrn
      obtain ⟨r', hr', hpass, hother⟩ := hnull ⟨r, hr, hrn⟩
      exact hother (hsql r' hr' hpass)
    · rw [← Bool.not_eq_true]
      intro hln
      obtain ⟨r', hr', hpass⟩ := hleft (List.ne_nil_of_mem hr) hln
      rw [(World.sqlEq_eq_false.1 (hsql r' hr' hpass)).1] at hln
      cases hln
    · rw [joins_eq_of_length_one hon]
      cases hpass : j.filterPasses W l r with
      | false => rw [Bool.and_false]
      | true =>
        obtain ⟨hln, -, hvalue⟩ := World.sqlEq_eq_false.1 (hsql r hr hpass)
        rw [World.keyEq_of_not_isNull hln, hvalue, Bool.false_and]

end

/-! ## The join and SQL -/

/-- **A null-aware anti join is `NOT IN`**, in any interleaving of its streams: all build rows if
there is no probe row, none if a probe key is `NULL`, and the unmatched rows with a key
otherwise. -/
theorem nullAware_streams_eq_notIn (h : NullAwareRun W j H build left batchSize inputs)
    (hfilter : j.filter = none) (leftSchema rightSchema : Schema) (rightSideOrdered : Bool) :
    let cis := j.columnIndices leftSchema rightSchema
    let probe := allRows inputs
    JoinContext.EndsWith ⟨j, cis, H, left, rightSideOrdered, batchSize⟩ inputs fun out =>
      (∑ i, out i = keptRows cis
        (fun l => W.notIn (j.leftKey W l) (probe.map (j.rightKey W)) == some true)
        (rowsOf build)) ∧
      ∑ i, out i =
        if probe = [] then keptRows cis (fun _ => true) (rowsOf build)
        else if ∃ r ∈ probe, (j.rightKey W r).isNull = true then 0
        else keptRows cis (fun l => !(j.leftKey W l).isNull &&
          probe.all fun r => !W.valueEq (j.leftKey W l) (j.rightKey W r)) (rowsOf build) := by
  intro cis probe
  have hpass : ∀ l r, j.filterPasses W l r = true := by
    intro l r
    rw [HashJoinExec.filterPasses, hfilter]
    rfl
  have hall : ∀ l, probe.filter (j.filterPasses W l) = probe := fun l =>
    List.filter_eq_self.2 fun r _ => hpass l r
  have hcovered : ∀ l, j.Covered W probe l := by
    intro l
    refine ⟨fun ⟨r, hr, hrn⟩ => ⟨r, hr, hpass l r, ?_⟩, fun hne _ => ?_⟩
    · intro hsql
      rw [(World.sqlEq_eq_false.1 hsql).2.1] at hrn
      cases hrn
    · obtain ⟨r, hr⟩ := List.exists_mem_of_ne_nil _ hne
      exact ⟨r, hr, hpass l r⟩
  have hkeeps : ∀ l, j.nullAwareKeeps W probe l = true ↔
      W.notIn (j.leftKey W l) (probe.map (j.rightKey W)) = some true := by
    intro l
    have hnotIn : j.correlatedNotIn W probe l =
        W.notIn (j.leftKey W l) (probe.map (j.rightKey W)) := by
      rw [HashJoinExec.correlatedNotIn, hall]
    rw [← hnotIn]
    exact ⟨HashJoinExec.correlatedNotIn_of_keeps h.on,
      (HashJoinExec.keeps_of_correlatedNotIn_iff h.on).2 (hcovered l)⟩
  refine (nullAware_streams h leftSchema rightSchema rightSideOrdered).imp fun out hout => ?_
  rw [hout]
  refine ⟨keptRows_congr fun l _ => ?_, ?_⟩
  · rw [hkeeps, beq_iff_eq]
  by_cases hnil : probe = []
  · rw [if_pos hnil]
    refine keptRows_congr fun l _ => ?_
    rw [hkeeps, World.notIn_eq_true, hnil]
    simp
  rw [if_neg hnil]
  by_cases hnull : ∃ r ∈ probe, (j.rightKey W r).isNull = true
  · rw [if_pos hnull]
    obtain ⟨r, hr, hrn⟩ := hnull
    exact keptRows_eq_zero fun l _ => HashJoinExec.nullAwareKeeps_of_null hr hrn
  · rw [if_neg hnull]
    refine keptRows_congr fun l _ => ?_
    obtain ⟨r, hr⟩ := List.exists_mem_of_ne_nil _ hnil
    rw [hkeeps, World.notIn_eq_true, List.forall_mem_map]
    simp only [World.sqlEq_eq_false, Bool.and_eq_true, Bool.not_eq_true', List.all_eq_true]
    constructor
    · intro hsql
      exact ⟨(hsql r hr).1, fun r hr => (hsql r hr).2.2⟩
    · rintro ⟨hl, hvalue⟩ r hr
      refine ⟨hl, ?_, hvalue r hr⟩
      rw [← Bool.not_eq_true]
      exact fun hrn => hnull ⟨r, hr, hrn⟩

theorem customers_notIn_orders :
    let j := onCustomer .leftAnti none true
    let cis := j.columnIndices [⟨"customer_id", .int64, true⟩] [⟨"customer", .int64, true⟩]
    let probe := allRows orderBatches
    collectLeftInput rowWorld j collidingHash noPerfectHash none (fun _ => none) customerBatches =
      .ok customerTable ∧
    JoinContext.EndsWith ⟨j, cis, collidingHash, customerTable, false, 1⟩ orderBatches fun out =>
      (∑ i, out i = keptRows cis
        (fun l => rowWorld.notIn (j.leftKey rowWorld l) (probe.map (j.rightKey rowWorld)) ==
          some true) (rowsOf customerBatches)) ∧
      ∑ i, out i =
        if probe = [] then keptRows cis (fun _ => true) (rowsOf customerBatches)
        else if ∃ r ∈ probe, (j.rightKey rowWorld r).isNull = true then 0
        else keptRows cis (fun l => !(j.leftKey rowWorld l).isNull &&
          probe.all fun r => !rowWorld.valueEq (j.leftKey rowWorld l) (j.rightKey rowWorld r))
            (rowsOf customerBatches) := by
  have hleft : collectLeftInput rowWorld (onCustomer .leftAnti none true) collidingHash
      noPerfectHash none (fun _ => none) customerBatches = .ok customerTable := rfl
  refine ⟨hleft, nullAware_streams_eq_notIn ?_ rfl _ _ false⟩
  exact
    { joinType := rfl
      nullAware := rfl
      on := rfl
      fetch := rfl
      batchSize := le_rfl
      streams := by decide
      left := ⟨noPerfectHash, none, fun _ => none, hleft, nofun⟩ }

/-- **With a residual filter** the join is the correlated `NOT IN` exactly if the flags say nothing
new about any build row. -/
theorem correlated_notIn_iff (h : NullAwareRun W j H build left batchSize inputs)
    (leftSchema rightSchema : Schema) (rightSideOrdered : Bool) :
    let cis := j.columnIndices leftSchema rightSchema
    let probe := allRows inputs
    JoinContext.EndsWith ⟨j, cis, H, left, rightSideOrdered, batchSize⟩ inputs fun out =>
      ∑ i, out i = keptRows cis (fun l => j.correlatedNotIn W probe l == some true) (rowsOf build) ↔
        ∀ l ∈ rowsOf build, j.Covered W probe l := by
  intro cis probe
  refine (nullAware_streams h leftSchema rightSchema rightSideOrdered).imp fun out hout => ?_
  rw [hout, keptRows, keptRows, map_filter_eq_map_filter_iff]
  · refine forall₂_congr fun l _ => ?_
    rw [beq_iff_eq, HashJoinExec.keeps_of_correlatedNotIn_iff h.on]
  · intro l _ hkeep
    rw [beq_iff_eq]
    exact HashJoinExec.correlatedNotIn_of_keeps h.on hkeep

/-- One customer with a budget of 50. -/
def budgetBatches : List (RecordBatch rowSig) := [[[.int64 1, .int64 50]]]

def budgetTable : JoinLeftData rowWorld :=
  ⟨.hashMap (.ofBatches [[7]]), [[.int64 1, .int64 50]]⟩

/-- One order over 20, whose customer is not known. -/
def anonymousOrder : Fin 1 → List (RecordBatch rowSig) := fun _ => [[[.null, .int64 20]]]

theorem anonymousOrder_covered_iff :
    let j := onCustomer .leftAnti (some overBudget) true
    let cis := j.columnIndices [⟨"customer_id", .int64, true⟩, ⟨"budget", .int64, true⟩]
      [⟨"customer", .int64, true⟩, ⟨"amount", .int64, true⟩]
    let probe := allRows anonymousOrder
    collectLeftInput rowWorld j collidingHash noPerfectHash none (fun _ => none) budgetBatches =
      .ok budgetTable ∧
    JoinContext.EndsWith ⟨j, cis, collidingHash, budgetTable, false, 1⟩ anonymousOrder fun out =>
      ∑ i, out i = keptRows cis (fun l => j.correlatedNotIn rowWorld probe l == some true)
          (rowsOf budgetBatches) ↔
        ∀ l ∈ rowsOf budgetBatches, j.Covered rowWorld probe l := by
  have hleft : collectLeftInput rowWorld (onCustomer .leftAnti (some overBudget) true)
      collidingHash noPerfectHash none (fun _ => none) budgetBatches = .ok budgetTable := rfl
  refine ⟨hleft, correlated_notIn_iff ?_ _ _ false⟩
  exact
    { joinType := rfl
      nullAware := rfl
      on := rfl
      fetch := rfl
      batchSize := le_rfl
      streams := by decide
      left := ⟨noPerfectHash, none, fun _ => none, hleft, nofun⟩ }

/-- `customer_id NOT IN (SELECT customer FROM orders WHERE budget < amount)` over these rows
compares the customer with nothing and keeps it; the join does not. -/
theorem anonymousOrder_suppresses_customer :
    let j := onCustomer .leftAnti (some overBudget) true
    let cis := j.columnIndices [⟨"customer_id", .int64, true⟩, ⟨"budget", .int64, true⟩]
      [⟨"customer", .int64, true⟩, ⟨"amount", .int64, true⟩]
    let C : JoinContext rowWorld := ⟨j, cis, collidingHash, budgetTable, false, 1⟩
    (Runs.run C.step (fun _ _ => True) (C.init anonymousOrder) [0, 0, 0, 0, 0, 0, 0]).map
        (fun s => ((s.streams 0).state, (s.streams 0).output)) = some (.completed, []) ∧
      keptRows cis (fun l => j.correlatedNotIn rowWorld (allRows anonymousOrder) l == some true)
        (rowsOf budgetBatches) = rowsOf budgetBatches :=
  ⟨rfl, rfl⟩

end

end PredicateTransfer
