import PredicateTransfer.HashJoinStream
import PredicateTransfer.Lib.ThreeValued

/-!
# The dynamic filter of a hash join

A hash join hands its probe side a filter made from its build side. Every build partition reports
its keys, as an `IN` list or as a reference to its table, and the range of each key. From one report
comes a conjunction of range checks and a membership check; from the reports of several partitions
comes a `CASE` that sends a probe row to the check of the partition its keys hash to.

The parts treat `NULL` each in their own way. A comparison with `NULL` is `NULL`, and so is a
membership test in a list of single keys. A list of key tuples finds a tuple with a `NULL` in it,
and the table of a hash join finds the hash of any tuple. So on a probe row with a partner
(`condition_eq_true_iff`) the check of the partner's partition is true exactly if no key is `NULL`
or the report is of the second kind (`NullSafe`), and the whole filter says what that check says
(`dynamicFilter_eq_true_iff`).
-/

namespace PredicateTransfer

open ThreeValued (Truth)

variable {S : Sig}

/-- A filter expression over a probe row. -/
abbrev Predicate (S : Sig) := Row S → Truth

/-! ## The range of a key -/

/-- The comparison kernels on the values of a key: any total order that respects equality. -/
structure KeyOrder (W : World S) where
  le : Value S → Value S → Bool
  total : ∀ a b, le a b = true ∨ le b a = true
  trans : ∀ {a b c}, le a b = true → le b c = true → le a c = true
  le_of_valueEq : ∀ {a b}, W.valueEq a b = true → le a b = true ∧ le b a = true

namespace KeyOrder

variable {W : World S}

/-- The other way round. -/
def flip (O : KeyOrder W) : KeyOrder W where
  le a b := O.le b a
  total a b := O.total b a
  trans h h' := O.trans h' h
  le_of_valueEq h := (O.le_of_valueEq h).symm

variable (O : KeyOrder W)

/-- `a <= b`. -/
def ltEq (a b : Value S) : Truth := if a.isNull || b.isNull then none else some (O.le a b)

/-- `a >= b`. -/
def gtEq (a b : Value S) : Truth := O.flip.ltEq a b

/-- The smaller value; a `NULL` does not count. -/
def least (a b : Value S) : Value S :=
  if a.isNull then b else if b.isNull then a else if O.le a b then a else b

/-- A `MinAccumulator` after these batches of a column, and with the order the other way round a
`MaxAccumulator`. -/
def minOf (batches : List (List (Value S))) : Value S :=
  (batches.map (List.foldl O.least .null)).foldl O.least .null

/-- `m` is below `v`, unless `v` is `NULL`. -/
def Below (m v : Value S) : Prop := v.isNull = false → m.isNull = false ∧ O.le m v = true

variable {O} {a b v m : Value S}

theorem Below.trans (h : O.Below a b) (h' : O.Below b v) : O.Below a v := by
  intro hv
  obtain ⟨hb, hbv⟩ := h' hv
  obtain ⟨ha, hab⟩ := h hb
  exact ⟨ha, O.trans hab hbv⟩

theorem below_refl : O.Below a a := by
  intro ha
  refine ⟨ha, ?_⟩
  rcases O.total a a with h | h <;> exact h

theorem least_below_left : O.Below (O.least a b) a := by
  intro ha
  unfold least
  rw [if_neg (by simp [ha])]
  split_ifs with hb hle
  · exact below_refl ha
  · exact below_refl ha
  · rw [Bool.not_eq_true] at hb hle
    refine ⟨hb, (O.total a b).resolve_left ?_⟩
    rw [hle]
    exact Bool.false_ne_true

theorem least_below_right : O.Below (O.least a b) b := by
  intro hb
  unfold least
  split_ifs with ha hb' hle
  · exact below_refl hb
  · rw [hb] at hb'
    cases hb'
  · rw [Bool.not_eq_true] at ha
    exact ⟨ha, hle⟩
  · exact below_refl hb

theorem foldl_least_below (acc : Value S) (vs : List (Value S)) :
    O.Below (vs.foldl O.least acc) acc ∧ ∀ v ∈ vs, O.Below (vs.foldl O.least acc) v := by
  induction vs generalizing acc with
  | nil => exact ⟨below_refl, fun v hv => absurd hv List.not_mem_nil⟩
  | cons w vs ih =>
    obtain ⟨hacc, hvs⟩ := ih (O.least acc w)
    refine ⟨hacc.trans least_below_left, fun v hv => ?_⟩
    rcases List.mem_cons.1 hv with rfl | hv
    · exact hacc.trans least_below_right
    · exact hvs v hv

/-- The accumulator ends below every value it has seen. -/
theorem minOf_below {batches : List (List (Value S))} {batch : List (Value S)}
    (hbatch : batch ∈ batches) (hv : v ∈ batch) : O.Below (O.minOf batches) v :=
  ((foldl_least_below _ _).2 _ (List.mem_map_of_mem hbatch)).trans
    ((foldl_least_below _ batch).2 v hv)

theorem foldl_least_mem (acc : Value S) (vs : List (Value S)) :
    vs.foldl O.least acc = acc ∨ vs.foldl O.least acc ∈ vs := by
  induction vs generalizing acc with
  | nil => exact .inl rfl
  | cons w vs ih =>
    have hleast : O.least acc w = acc ∨ O.least acc w = w := by
      unfold least
      split_ifs <;> simp
    rcases ih (O.least acc w) with h | h
    · rw [List.foldl_cons, h]
      exact hleast.imp_right fun h => List.mem_cons.2 (.inl h)
    · exact .inr (List.mem_cons_of_mem w h)

/-- It ends at a value it has seen, or at `NULL`. -/
theorem minOf_mem {batches : List (List (Value S))} (h : (O.minOf batches).isNull = false) :
    ∃ batch ∈ batches, O.minOf batches ∈ batch := by
  have hne : O.minOf batches ≠ .null := by
    intro hnull
    rw [hnull] at h
    cases h
  obtain ⟨batch, hbatch, heq⟩ := List.mem_map.1 ((foldl_least_mem _ _).resolve_left hne)
  have heq : batch.foldl O.least .null = O.minOf batches := heq
  refine ⟨batch, hbatch, ?_⟩
  rw [← heq] at hne ⊢
  exact (foldl_least_mem _ _).resolve_left hne

theorem ltEq_eq_true :
    O.ltEq a b = some true ↔ a.isNull = false ∧ b.isNull = false ∧ O.le a b = true := by
  unfold ltEq
  cases a.isNull <;> cases b.isNull <;> simp

/-- What is above the smallest value is above some value. -/
theorem ltEq_minOf_iff {batches : List (List (Value S))} :
    O.ltEq (O.minOf batches) v = some true ↔
      ∃ batch ∈ batches, ∃ a ∈ batch, O.ltEq a v = some true := by
  constructor
  · intro h
    obtain ⟨batch, hbatch, hmem⟩ := minOf_mem (ltEq_eq_true.1 h).1
    exact ⟨batch, hbatch, _, hmem, h⟩
  · rintro ⟨batch, hbatch, a, ha, h⟩
    obtain ⟨hnull, hv, hle⟩ := ltEq_eq_true.1 h
    obtain ⟨hm, hbelow⟩ := minOf_below hbatch ha hnull
    exact ltEq_eq_true.2 ⟨hm, hv, O.trans hbelow hle⟩

theorem flip_ltEq (a b : Value S) : O.flip.ltEq a b = O.ltEq b a := by
  simp only [ltEq, Bool.or_comm a.isNull]
  rfl

end KeyOrder

/-- `ColumnBounds`, for a key of any type. -/
structure KeyBounds (S : Sig) where
  min : Value S
  max : Value S

/-! ## Reports -/

inductive PushdownStrategy (W : World S) where
  | inList (values : List (List (Value S)))
  | map (map : Map W)
  | empty

/-- What one build partition reports. -/
structure PartitionData (W : World S) where
  pushdown : PushdownStrategy W
  bounds : List (KeyBounds S)

section
variable (W : World S) (j : HashJoinExec S) (H : KeyHash W) (O : KeyOrder W)

/-- `CollectLeftAccumulator::evaluate` for one key. -/
def keyBounds (batches : List (RecordBatch S)) (key : PhysicalExpr S × PhysicalExpr S) :
    KeyBounds S :=
  let column := batches.map (List.map (key.1.evaluate W))
  ⟨O.minOf column, O.flip.minOf column⟩

/-- The bounds that `collect_left_input` computes. -/
def collectBounds (batches : List (RecordBatch S)) : List (KeyBounds S) :=
  j.on.map (keyBounds W O batches)

/-- The `membership` and `bounds` of `collect_left_input`. `inList` says that the keys stay within
the limits for an `IN` list, `withBounds` that bounds were asked for. -/
def partitionData (left : JoinLeftData W) (batches : List (RecordBatch S))
    (inList withBounds : Bool) : PartitionData W where
  pushdown :=
    if batches.flatten.isEmpty then .empty
    else if inList then .inList (left.batch.map (j.leftKeys W))
    else .map left.map
  bounds := if withBounds && !batches.flatten.isEmpty then collectBounds W j O batches else []

/-- The first key, where it is looked up as an integer, is one. -/
def RightTyped (keys : Option (IntegerKeys W)) (r : Row S) : Prop :=
  ∀ I, keys = some I → I.IsValue ((j.rightKeys W r).headD .null)

/-- A partition with these build batches may report `d`. -/
structure Reports (keys : Option (IntegerKeys W)) (batches : List (RecordBatch S))
    (d : PartitionData W) : Prop where
  data : ∃ config bounds left inList withBounds,
    collectLeftInput W j H config keys bounds batches = .ok left ∧
      d = partitionData W j O left batches inList withBounds
  typed : ∀ I, keys = some I → ∀ l ∈ batches.flatten, I.IsValue ((j.leftKeys W l).headD .null)

/-! ## The check of one partition -/

/-- `InListExpr` over single values: `ArrayStaticFilter::contains` on one needle. -/
def inListValue (haystack : List (Value S)) (needle : Value S) : Truth :=
  if needle.isNull then none
  else if haystack.any (W.valueEq · needle) then some true
  else if haystack.any Value.isNull then none
  else some false

/-- `InListExpr` over structs. A struct with a `NULL` in it is not `NULL`, and structs are compared
field by field with `NULL` equal to `NULL`. -/
def inListStruct (haystack : List (List (Value S))) (needle : List (Value S)) : Truth :=
  some (haystack.any fun v => (v.zip needle).all fun x => W.keyEq .nullEqualsNull x.1 x.2)

def createMembershipPredicate : PushdownStrategy W → Option (Predicate S)
  | .inList values => some fun r =>
    if j.on.length = 1 then
      inListValue W (values.map (·.headD .null)) ((j.rightKeys W r).headD .null)
    else inListStruct W values (j.rightKeys W r)
  | .map map => some fun r => some (map.contains H j r)
  | .empty => none

/-- `col >= min AND col <= max`. -/
def rangeExpr (x : (PhysicalExpr S × PhysicalExpr S) × KeyBounds S) : Predicate S := fun r =>
  ThreeValued.and (O.gtEq (x.1.2.evaluate W r) x.2.min) (O.ltEq (x.1.2.evaluate W r) x.2.max)

def createBoundsPredicate (bounds : List (KeyBounds S)) : Option (Predicate S) :=
  match (j.on.zip bounds).map (rangeExpr W O) with
  | [] => none
  | p :: ps => some (ps.foldl (fun acc pred r => ThreeValued.and (acc r) (pred r)) p)

/-- The bounds and the membership check, where there are any. -/
def conditionOf (d : PartitionData W) : Option (Predicate S) :=
  match createMembershipPredicate W j H d.pushdown, createBoundsPredicate W j O d.bounds with
  | some membership, some bounds => some fun r => ThreeValued.and (bounds r) (membership r)
  | some membership, none => some membership
  | none, some bounds => some bounds
  | none, none => none

/-! ## The filter -/

/-- `AccumulatedBuildData`: what was reported so far. -/
inductive AccumulatedBuildData (n : Nat) where
  | partitioned (partitions : Fin n → Option (PartitionData W))
  | collectLeft (data : Option (PartitionData W))

/-- `CASE hash(keys) % numPartitions WHEN ... THEN ... ELSE false END`. -/
def caseExpr (route : KeyHash W) (numPartitions : Nat) (branches : List (Nat × Predicate S)) :
    Predicate S := fun r =>
  match branches.find? (·.1 == (route.hash (j.rightKeys W r)).toNat % numPartitions) with
  | some branch => branch.2 r
  | none => some false

/-- The branches for the partitions that are not empty. -/
def whenThenBranches {n : Nat} (partitions : Fin n → Option (PartitionData W)) :
    List (Nat × Predicate S) :=
  (List.finRange n).filterMap fun i => (partitions i).bind fun d => match d.pushdown with
    | .empty => none
    | _ => some (i.1, (conditionOf W j H O d).getD fun _ => some true)

/-- The filter expression that the leader of `report_build_data` builds, if it updates the filter.
`route` is the hash function of the repartitioning. -/
def buildFilter (route : KeyHash W) {n : Nat} : AccumulatedBuildData W n → Option (Predicate S)
  | .collectLeft data => data.bind (conditionOf W j H O)
  | .partitioned partitions =>
    let numPartitions := ((List.finRange n).filterMap partitions).length
    if numPartitions = 0 then none
    else match whenThenBranches W j H O partitions with
      | [] => some fun _ => some false
      | [branch] => some branch.2
      | branches => some (caseExpr W j route numPartitions branches)

/-! ## What a check says about a row with a partner -/

/-- Some key of the probe row is `NULL`. -/
def HashJoinExec.hasNullKey (r : Row S) : Bool := (j.rightKeys W r).any Value.isNull

end

variable {W : World S} {j : HashJoinExec S} {H : KeyHash W} {O : KeyOrder W}

/-- The check made from the report can be true on a row with a `NULL` key. -/
def PartitionData.NullSafe (j : HashJoinExec S) (d : PartitionData W) : Prop :=
  d.bounds = [] ∧ (j.on.length = 1 → ∀ values, d.pushdown ≠ .inList values)

variable {keys : Option (IntegerKeys W)} {batches : List (RecordBatch S)} {d : PartitionData W}
variable {l r : Row S}

/-- A value is only equal to `NULL` if it is `NULL`. -/
theorem isNull_of_keyEq {nullEquality : NullEquality} {a b : Value S}
    (h : W.keyEq nullEquality a b = true) : a.isNull = b.isNull := by
  cases a <;> cases b <;> first | rfl | cases h

theorem Value.isNull_eq_false_iff {v : Value S} : v.isNull = false ↔ v ≠ .null := by
  cases v <;> simp [Value.isNull]

theorem keyEq_of_mem (h : j.keysEqual W l r = true) {key : PhysicalExpr S × PhysicalExpr S}
    (hkey : key ∈ j.on) :
    W.keyEq j.nullEquality (key.1.evaluate W l) (key.2.evaluate W r) = true :=
  List.all_eq_true.1 h key hkey

theorem hasNullKey_eq_true_iff :
    j.hasNullKey W r = true ↔ ∃ key ∈ j.on, (key.2.evaluate W r).isNull = true := by
  simp [HashJoinExec.hasNullKey, HashJoinExec.rightKeys]

/-- Where `NULL`s are equal to nothing, a row with a partner has no `NULL` key. -/
theorem hasNullKey_of_keysEqual (hne : j.nullEquality = .nullEqualsNothing)
    (h : j.keysEqual W l r = true) : j.hasNullKey W r = false := by
  rw [← Bool.not_eq_true, hasNullKey_eq_true_iff]
  rintro ⟨key, hkey, hnull⟩
  have heq := keyEq_of_mem h hkey
  rw [hne] at heq
  rw [Value.isNull_eq_false_iff.2 (ne_null_of_keyEq heq)] at hnull
  cases hnull

theorem foldl_and_eq_true {p : Predicate S} {ps : List (Predicate S)} :
    ps.foldl (fun acc pred r => ThreeValued.and (acc r) (pred r)) p r = some true ↔
      ∀ q ∈ p :: ps, q r = some true := by
  induction ps generalizing p with
  | nil => simp
  | cons q ps ih =>
    rw [List.foldl_cons, ih]
    simp only [List.forall_mem_cons, ThreeValued.and_eq_true, and_assoc]

/-- The range check of a key holds on what is between two build keys. -/
theorem rangeExpr_keyBounds_iff {key : PhysicalExpr S × PhysicalExpr S} :
    rangeExpr W O (key, keyBounds W O batches key) r = some true ↔
      (∃ l ∈ batches.flatten,
        O.ltEq (key.1.evaluate W l) (key.2.evaluate W r) = some true) ∧
      ∃ l ∈ batches.flatten, O.ltEq (key.2.evaluate W r) (key.1.evaluate W l) = some true := by
  have hmin : ∀ (O : KeyOrder W) (v : Value S),
      O.ltEq (O.minOf (batches.map (List.map (key.1.evaluate W)))) v = some true ↔
        ∃ l ∈ batches.flatten, O.ltEq (key.1.evaluate W l) v = some true := by
    intro O v
    rw [KeyOrder.ltEq_minOf_iff]
    constructor
    · rintro ⟨column, hcolumn, a, ha, hle⟩
      obtain ⟨batch, hbatch, rfl⟩ := List.mem_map.1 hcolumn
      obtain ⟨l, hl, rfl⟩ := List.mem_map.1 ha
      exact ⟨l, List.mem_flatten_of_mem hbatch hl, hle⟩
    · rintro ⟨l, hl, hle⟩
      obtain ⟨batch, hbatch, hmem⟩ := List.mem_flatten.1 hl
      exact ⟨_, List.mem_map_of_mem hbatch, _, List.mem_map_of_mem hmem, hle⟩
  rw [rangeExpr, ThreeValued.and_eq_true, KeyOrder.gtEq, KeyOrder.flip_ltEq, keyBounds]
  refine and_congr (hmin O _) ?_
  rw [← KeyOrder.flip_ltEq, hmin O.flip]
  simp only [KeyOrder.flip_ltEq]

/-- The range check of a key holds on what is equal to a value in the range, unless it is `NULL`. -/
theorem rangeExpr_eq_true_iff {key : PhysicalExpr S × PhysicalExpr S} (hl : l ∈ batches.flatten)
    (hkey : key ∈ j.on) (heq : j.keysEqual W l r = true) :
    rangeExpr W O (key, keyBounds W O batches key) r = some true ↔
      (key.2.evaluate W r).isNull = false := by
  rw [rangeExpr_keyBounds_iff]
  have hkeyEq := keyEq_of_mem heq hkey
  constructor
  · rintro ⟨⟨l', -, hle⟩, -⟩
    exact (KeyOrder.ltEq_eq_true.1 hle).2.1
  · intro hr
    have hl' : (key.1.evaluate W l).isNull = false := (isNull_of_keyEq hkeyEq).trans hr
    have hle := O.le_of_valueEq (valueEq_of_keyEq hkeyEq (Value.isNull_eq_false_iff.1 hr))
    exact ⟨⟨l, hl, KeyOrder.ltEq_eq_true.2 ⟨hl', hr, hle.1⟩⟩,
      ⟨l, hl, KeyOrder.ltEq_eq_true.2 ⟨hr, hl', hle.2⟩⟩⟩

/-- The check of the bounds is the range check of every key. -/
theorem createBoundsPredicate_collectBounds (hon : j.on ≠ []) :
    ∃ p, createBoundsPredicate W j O (collectBounds W j O batches) = some p ∧
      (p r = some true ↔
        ∀ key ∈ j.on, rangeExpr W O (key, keyBounds W O batches key) r = some true) := by
  have hzip : (j.on.zip (collectBounds W j O batches)).map (rangeExpr W O) =
      j.on.map fun key => rangeExpr W O (key, keyBounds W O batches key) := by
    have hself := List.zip_map' (f := id) (g := keyBounds W O batches) (l := j.on)
    rw [List.map_id] at hself
    rw [collectBounds, hself, List.map_map]
    rfl
  unfold createBoundsPredicate
  rw [hzip]
  cases hps : j.on.map fun key => rangeExpr W O (key, keyBounds W O batches key) with
  | nil => exact absurd (List.map_eq_nil_iff.1 hps) hon
  | cons p ps =>
    refine ⟨_, rfl, ?_⟩
    rw [foldl_and_eq_true, ← hps, List.forall_mem_map]

/-- On a row with a partner the ranges of all keys hold exactly if no key is `NULL`. -/
theorem ranges_eq_true_iff (hl : l ∈ batches.flatten) (heq : j.keysEqual W l r = true) :
    (∀ key ∈ j.on, rangeExpr W O (key, keyBounds W O batches key) r = some true) ↔
      j.hasNullKey W r = false := by
  rw [← Bool.not_eq_true, hasNullKey_eq_true_iff]
  constructor
  · rintro hrange ⟨key, hkey, hnull⟩
    rw [(rangeExpr_eq_true_iff hl hkey heq).1 (hrange key hkey)] at hnull
    cases hnull
  · intro hnone key hkey
    refine (rangeExpr_eq_true_iff hl hkey heq).2 ?_
    rw [← Bool.not_eq_true]
    exact fun hnull => hnone ⟨key, hkey, hnull⟩

/-- An `IN` list has the key of a row with a partner, unless it is a list of single keys and the key
is `NULL`. -/
theorem inList_eq_true_iff {left : JoinLeftData W} (hperm : left.batch.Perm batches.flatten)
    (hl : l ∈ batches.flatten) (heq : j.keysEqual W l r = true) :
    (if j.on.length = 1 then
      inListValue W ((left.batch.map (j.leftKeys W)).map (·.headD .null))
        ((j.rightKeys W r).headD .null)
    else inListStruct W (left.batch.map (j.leftKeys W)) (j.rightKeys W r)) = some true ↔
      (j.hasNullKey W r = true → j.on.length ≠ 1) := by
  have hmem : j.leftKeys W l ∈ left.batch.map (j.leftKeys W) :=
    List.mem_map_of_mem (hperm.mem_iff.2 hl)
  by_cases hone : j.on.length = 1
  · rw [if_pos hone]
    have heq' := heq
    rw [keysEqual_of_length_one hone] at heq'
    have hnull : j.hasNullKey W r = ((j.rightKeys W r).headD .null).isNull := by
      obtain ⟨key, hkey⟩ := List.length_eq_one_iff.1 hone
      simp [HashJoinExec.hasNullKey, HashJoinExec.rightKeys, hkey]
    rw [hnull, inListValue]
    cases hr : ((j.rightKeys W r).headD .null).isNull with
    | true => simp [hone]
    | false =>
      have hany : ((left.batch.map (j.leftKeys W)).map (·.headD .null)).any
          (W.valueEq · ((j.rightKeys W r).headD .null)) = true :=
        List.any_eq_true.2 ⟨_, List.mem_map_of_mem hmem,
          valueEq_of_keyEq heq' (Value.isNull_eq_false_iff.1 hr)⟩
      rw [if_neg Bool.false_ne_true, if_pos hany]
      simp
  · rw [if_neg hone, inListStruct]
    have hstruct : ((j.leftKeys W l).zip (j.rightKeys W r)).all
        (fun x => W.keyEq .nullEqualsNull x.1 x.2) = true := by
      rw [HashJoinExec.leftKeys, HashJoinExec.rightKeys, List.zip_map', List.all_map,
        List.all_eq_true]
      exact fun key hkey => keyEq_nullEqualsNull (keyEq_of_mem heq hkey)
    rw [List.any_eq_true.2 ⟨_, hmem, hstruct⟩]
    simp [hone]

/-- The membership part of the check: only an `IN` list of single keys rejects a `NULL` key. -/
theorem membership_eq_true_iff (O : KeyOrder W) {left : JoinLeftData W}
    (inList withBounds : Bool) (hperm : left.batch.Perm batches.flatten)
    (hcontains : left.map.contains H j r = true) (hl : l ∈ batches.flatten)
    (heq : j.keysEqual W l r = true) :
    ∃ m, createMembershipPredicate W j H
        (partitionData W j O left batches inList withBounds).pushdown = some m ∧
      (m r = some true ↔ (j.hasNullKey W r = true → j.on.length = 1 → ∀ values,
        (partitionData W j O left batches inList withBounds).pushdown ≠ .inList values)) := by
  have hne := List.isEmpty_eq_false_iff_exists_mem.2 ⟨l, hl⟩
  cases inList with
  | true =>
    have hpush : (partitionData W j O left batches true withBounds).pushdown =
        .inList (left.batch.map (j.leftKeys W)) := by
      simp [partitionData, hne]
    rw [hpush]
    refine ⟨_, rfl, (inList_eq_true_iff hperm hl heq).trans ?_⟩
    simp
  | false =>
    have hpush : (partitionData W j O left batches false withBounds).pushdown =
        .map left.map := by
      simp [partitionData, hne]
    rw [hpush]
    refine ⟨_, rfl, ?_⟩
    simp [hcontains]

/-- **The check of the partition a partner is in**: true, unless a key is `NULL` and the report is
not made for it. -/
theorem condition_eq_true_iff (hon : j.on ≠ []) (hd : Reports W j H O keys batches d)
    (hr : RightTyped W j keys r) (hl : l ∈ batches.flatten) (heq : j.keysEqual W l r = true) :
    d.pushdown ≠ .empty ∧ ∃ p, conditionOf W j H O d = some p ∧
      (p r = some true ↔ (j.hasNullKey W r = true → d.NullSafe j)) := by
  obtain ⟨config, intBounds, left, inList, withBounds, hleft, rfl⟩ := hd.data
  have hne := List.isEmpty_eq_false_iff_exists_mem.2 ⟨l, hl⟩
  have hperm := (collectLeftInput_finds hon hleft hd.typed).1
  have hcontains := collectLeftInput_contains hon hleft hd.typed hr hl heq
  obtain ⟨m, hm, hmr⟩ :=
    membership_eq_true_iff O inList withBounds hperm hcontains hl heq
  refine ⟨?_, ?_⟩
  · intro hempty
    rw [hempty] at hm
    cases hm
  unfold conditionOf
  rw [hm]
  cases withBounds with
  | true =>
    obtain ⟨p, hp, hpr⟩ := createBoundsPredicate_collectBounds (O := O) (r := r) hon
    rw [ranges_eq_true_iff hl heq] at hpr
    have hbounds : (partitionData W j O left batches inList true).bounds =
        collectBounds W j O batches := by
      simp [partitionData, hne]
    have hnil : collectBounds W j O batches ≠ [] := by
      simpa [collectBounds] using hon
    rw [hbounds, hp]
    refine ⟨_, rfl, ?_⟩
    rw [ThreeValued.and_eq_true, hpr, hmr]
    unfold PartitionData.NullSafe
    rw [hbounds]
    cases j.hasNullKey W r with
    | true => simp [hnil]
    | false => simp
  | false =>
    have hbounds : (partitionData W j O left batches inList false).bounds = [] := rfl
    have hnone : createBoundsPredicate W j O [] = none := by
      simp [createBoundsPredicate]
    rw [hbounds, hnone]
    refine ⟨_, rfl, ?_⟩
    rw [hmr]
    unfold PartitionData.NullSafe
    simp [hbounds]

/-! ## What the filter says about a row with a partner -/

section
variable {route : KeyHash W} {n : Nat} {report : Fin n → PartitionData W}

theorem mem_whenThenBranches {branch : Nat × Predicate S} :
    branch ∈ whenThenBranches W j H O (fun i => some (report i)) ↔
      ∃ i, (report i).pushdown ≠ .empty ∧
        branch = (i.1, (conditionOf W j H O (report i)).getD fun _ => some true) := by
  simp only [whenThenBranches, List.mem_filterMap, List.mem_finRange, true_and, Option.bind_some]
  refine exists_congr fun i => ?_
  cases (report i).pushdown <;> simp [eq_comm]

/-- **The filter is the check of the partition that the row is sent to.** With one partition that is
not empty there is no `CASE`, and a row with a partner has it there. -/
theorem buildFilter_partitioned {q : Predicate S} {k : Fin n}
    (hk : (route.hash (j.rightKeys W r)).toNat % n = k)
    (hempty : (report k).pushdown ≠ .empty) (hq : conditionOf W j H O (report k) = some q) :
    ∃ f, buildFilter W j H O route (.partitioned fun i => some (report i)) = some f ∧
      f r = q r := by
  have hlength : ((List.finRange n).filterMap fun i => some (report i)).length = n := by
    rw [List.filterMap_eq_map', List.length_map, List.length_finRange]
  have hn : n ≠ 0 := Nat.ne_of_gt (Nat.lt_of_le_of_lt (Nat.zero_le _) k.2)
  have hmem : (k.1, q) ∈ whenThenBranches W j H O (fun i => some (report i)) :=
    mem_whenThenBranches.2 ⟨k, hempty, by rw [hq]; rfl⟩
  have huniq : ∀ branch ∈ whenThenBranches W j H O (fun i => some (report i)),
      branch.1 = k → branch = (k.1, q) := by
    intro branch hbranch hfst
    obtain ⟨i, -, rfl⟩ := mem_whenThenBranches.1 hbranch
    have hi : i = k := Fin.ext hfst
    rw [hi, hq]
    rfl
  unfold buildFilter
  simp only [hlength, hn, if_false]
  generalize whenThenBranches W j H O (fun i => some (report i)) = branches at hmem huniq
  match branches, hmem, huniq with
  | [branch], hmem, _ =>
    rw [← List.mem_singleton.1 hmem]
    exact ⟨_, rfl, rfl⟩
  | b₁ :: b₂ :: branches, hmem, huniq =>
    refine ⟨_, rfl, ?_⟩
    unfold caseExpr
    cases hfind : (b₁ :: b₂ :: branches).find?
        (·.1 == (route.hash (j.rightKeys W r)).toNat % n) with
    | none =>
      have hnone := List.find?_eq_none.1 hfind _ hmem
      simp [hk] at hnone
    | some branch =>
      have hfst : branch.1 = k := by
        have hsome := List.find?_some hfind
        rwa [beq_iff_eq, hk] at hsome
      rw [huniq branch (List.mem_of_find?_eq_some hfind) hfst]

end

/-- What has been accumulated when all have reported. -/
def AccumulatedBuildData.all {n : Nat} (mode : PartitionMode) (report : Fin n → PartitionData W) :
    AccumulatedBuildData W n :=
  match mode with
  | .partitioned => .partitioned fun i => some (report i)
  | _ => .collectLeft ((List.finRange n).head?.map report)

section
variable (W j H O) (route : KeyHash W) {n : Nat} (report : Fin n → PartitionData W)

/-- The filter that all reports together lead to; it starts as `true`. -/
def dynamicFilter : Predicate S :=
  (buildFilter W j H O route (.all j.mode report)).getD fun _ => some true

/-- The reports of all build partitions, or of all streams over one build side. -/
structure BuildReports (keys : Option (IntegerKeys W)) (build : Fin n → List (RecordBatch S)) :
    Prop where
  on : j.on ≠ []
  mode : j.mode ≠ .auto
  reports : ∀ i, Reports W j H O keys (build i) (report i)
  shared : j.mode = .collectLeft → ∀ i k, build i = build k ∧ report i = report k
  routed : j.mode = .partitioned → ∀ i, ∀ l ∈ (build i).flatten,
    (route.hash (j.leftKeys W l)).toNat % n = i

end

section
variable {route : KeyHash W} {n : Nat} {report : Fin n → PartitionData W}
variable {build : Fin n → List (RecordBatch S)} {i : Fin n}

/-- **The filter on a row with a partner**: true, unless a key is `NULL` and the report with the
partner is not made for it. -/
theorem dynamicFilter_eq_true_iff (h : BuildReports W j H O route report keys build)
    (hr : RightTyped W j keys r) (hl : l ∈ (build i).flatten) (heq : j.keysEqual W l r = true) :
    dynamicFilter W j H O route report r = some true ↔
      (j.hasNullKey W r = true → (report i).NullSafe j) := by
  obtain ⟨hempty, q, hq, hqr⟩ := condition_eq_true_iff h.on (h.reports i) hr hl heq
  rw [← hqr]
  unfold dynamicFilter AccumulatedBuildData.all
  cases hmode : j.mode with
  | auto => exact absurd hmode h.mode
  | partitioned =>
    have hroute : (route.hash (j.rightKeys W r)).toNat % n = i := by
      rw [← route.hash_of_keysEqual heq]
      exact h.routed hmode i l hl
    obtain ⟨f, hf, hfr⟩ := buildFilter_partitioned hroute hempty hq
    simp only [hf, Option.getD_some, hfr]
  | collectLeft =>
    have hne : List.finRange n ≠ [] := List.ne_nil_of_mem (List.mem_finRange i)
    have hk := List.head?_eq_some_head hne
    generalize (List.finRange n).head hne = k at hk
    simp only [hk, Option.map_some, buildFilter, Option.bind_some]
    rw [← (h.shared hmode i k).2, hq, Option.getD_some]

end

end PredicateTransfer
