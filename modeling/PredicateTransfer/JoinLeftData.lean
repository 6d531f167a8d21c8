import PredicateTransfer.RelationalJoin
import PredicateTransfer.ArrayMap

/-!
# The build side of a hash join

`collect_left_input` stores the build rows in one batch and indexes their keys: in a perfect-hash
table (`ArrayMap`) where there is one integer key and its values are dense enough, in a hash table
otherwise. Every stream of the join looks its probe batches up in it, a chunk at a time.

Both tables find the same (`collectLeftInput_finds`): for each probe row in order, the build rows
with equal keys. The hash table relies on equal keys having equal hashes and checks the keys of
every candidate, so the hash function may collide in any way.
-/

namespace PredicateTransfer

open ChainedTable Chunks
open IntegerType (Native)

variable {S : Sig}

/-! ## Keys -/

section
variable (W : World S) (j : HashJoinExec S)

/-- The join keys of a build row. -/
def HashJoinExec.leftKeys (l : Row S) : List (Value S) := j.on.map fun key => key.1.evaluate W l

/-- The join keys of a probe row. -/
def HashJoinExec.rightKeys (r : Row S) : List (Value S) := j.on.map fun key => key.2.evaluate W r

/-- All keys of the two rows are equal. -/
def HashJoinExec.keysEqual (l r : Row S) : Bool :=
  j.on.all fun key => W.keyEq j.nullEquality (key.1.evaluate W l) (key.2.evaluate W r)

/-- The residual filter, if there is one, is true on the two rows. -/
def HashJoinExec.filterPasses (l r : Row S) : Bool := j.filter.all (JoinFilter.passes W · l r)

theorem HashJoinExec.joins_eq (l r : Row S) :
    j.joins W l r = (j.keysEqual W l r && j.filterPasses W l r) := rfl

/-- `equal_rows_arr` on one pair of a probe row and a build row. -/
def HashJoinExec.equalRows (build probe : RecordBatch S) (x : Nat × Nat) : Bool :=
  match build[x.2]?, probe[x.1]? with
  | some l, some r => j.keysEqual W l r
  | _, _ => false

/-- `apply_join_filter_to_indices` on one pair, if there is a filter. -/
def HashJoinExec.applyJoinFilter (build probe : RecordBatch S) (x : Nat × Nat) : Bool :=
  match j.filter with
  | none => true
  | some f => match build[x.2]?, probe[x.1]? with
    | some l, some r => f.passes W l r
    | _, _ => false

theorem HashJoinExec.applyJoinFilter_eq {build probe : RecordBatch S} {p b : Nat} {l r : Row S}
    (hl : build[b]? = some l) (hr : probe[p]? = some r) :
    j.applyJoinFilter W build probe (p, b) = j.filterPasses W l r := by
  unfold applyJoinFilter filterPasses
  cases j.filter with
  | none => rfl
  | some f => simp only [hl, hr, Option.all_some]

end

/-- `create_hashes` on the keys of one row: any function that respects the equality of keys. -/
structure KeyHash (W : World S) where
  hash : List (Value S) → UInt64
  hash_eq : ∀ {a b}, List.Forall₂ (fun x y => W.keyEq .nullEqualsNull x y = true) a b →
    hash a = hash b

/-- A key column of an integer type: which values it has and how they are read. -/
structure IntegerKeys (W : World S) where
  type : IntegerType
  decode : Value S → Option (Native type)
  IsValue : Value S → Prop
  keyEq_eq : ∀ (nullEquality : NullEquality) {a b : Value S}, IsValue a → IsValue b →
    W.keyEq nullEquality a b = keyEqual nullEquality (decode a) (decode b)

variable {W : World S} {j : HashJoinExec S}

theorem keyEq_nullEqualsNull {nullEquality : NullEquality} {a b : Value S}
    (h : W.keyEq nullEquality a b = true) : W.keyEq .nullEqualsNull a b = true := by
  cases a <;> cases b <;> first | exact h | rfl

theorem KeyHash.hash_of_keysEqual (H : KeyHash W) {l r : Row S} (h : j.keysEqual W l r = true) :
    H.hash (j.leftKeys W l) = H.hash (j.rightKeys W r) := by
  apply H.hash_eq
  unfold HashJoinExec.leftKeys HashJoinExec.rightKeys
  rw [List.forall₂_map_left_iff, List.forall₂_map_right_iff, List.forall₂_same]
  exact fun key hkey => keyEq_nullEqualsNull (List.all_eq_true.1 h key hkey)

/-! ## Building -/

/-- The table of the build keys. -/
inductive Map (W : World S) where
  | hashMap (m : JoinHashMap)
  | arrayMap (keys : IntegerKeys W) (m : ArrayMap)

def Map.isEmpty : Map W → Bool
  | .hashMap m => m.isEmpty
  | .arrayMap _ m => m.numOfDistinctKey == 0

/-- `HashTableLookupExpr::evaluate` on one probe row. -/
def Map.contains (H : KeyHash W) (j : HashJoinExec S) (map : Map W) (r : Row S) : Bool :=
  match map with
  | .hashMap m => m.containHash (H.hash (j.rightKeys W r))
  | .arrayMap I m => m.containKey (I.decode ((j.rightKeys W r).headD .null))

/-- What all streams share and only read. -/
structure JoinLeftData (W : World S) where
  map : Map W
  batch : RecordBatch S

section
variable (W : World S) (j : HashJoinExec S)

/-- The first key column of build rows. -/
def IntegerKeys.leftColumn {W : World S} (I : IntegerKeys W) (j : HashJoinExec S)
    (rows : RecordBatch S) : List (Option (Native I.type)) :=
  rows.map fun l => I.decode ((j.leftKeys W l).headD .null)

/-- The first key column of probe rows. -/
def IntegerKeys.rightColumn {W : World S} (I : IntegerKeys W) (j : HashJoinExec S)
    (rows : RecordBatch S) : List (Option (Native I.type)) :=
  rows.map fun r => I.decode ((j.rightKeys W r).headD .null)

/-- `try_create_array_map`. `keys` is there if the first key is of a supported type. -/
def tryArrayMap (config : PerfectHashConfig) (keys : Option (IntegerKeys W))
    (bounds : (t : IntegerType) → Option (List (ColumnBounds t))) (batches : List (RecordBatch S)) :
    Except DataFusionError (Option (Map W)) :=
  match keys with
  | none => .ok none
  | some I =>
    if j.on.length = 1 then do
      let m ← tryCreateArrayMap config j.nullEquality (bounds I.type)
        (batches.map (I.leftColumn j))
      return m.map (.arrayMap I)
    else .ok none

/-- `collect_left_input`, after the build input was read. -/
def collectLeftInput (H : KeyHash W) (config : PerfectHashConfig) (keys : Option (IntegerKeys W))
    (bounds : (t : IntegerType) → Option (List (ColumnBounds t))) (batches : List (RecordBatch S)) :
    Except DataFusionError (JoinLeftData W) := do
  match ← tryArrayMap W j config keys bounds batches with
  | some m => return ⟨m, batches.flatten⟩
  | none =>
    let hashes := batches.map (List.map fun l => H.hash (j.leftKeys W l))
    return ⟨.hashMap (.ofBatches hashes), batches.reverse.flatten⟩

/-- The lookup of `process_probe_batch`: pairs of a probe row and a build row with equal keys.
`equal_rows_arr` fails without a key. -/
def JoinLeftData.lookup {W : World S} (H : KeyHash W) (j : HashJoinExec S) (left : JoinLeftData W)
    (batch : RecordBatch S) (limit : Nat) (offset : MapOffset) :
    Option (List (Nat × Nat) × Option MapOffset) :=
  match left.map with
  | .hashMap m =>
    if j.on.isEmpty then none
    else lookupJoinHashmap m (batch.map fun r => H.hash (j.rightKeys W r))
      (j.equalRows W left.batch batch) limit offset
  | .arrayMap I m => m.getMatchedIndicesWithLimitOffset (I.rightColumn j batch) limit offset

end

/-! ## What a lookup finds -/

/-- The list holds the build rows whose keys are equal to those of `r`, each once. -/
structure ListsEqual (j : HashJoinExec S) (left : JoinLeftData W) (r : Row S) (rows : List Nat) :
    Prop where
  nodup : rows.Nodup
  mem_iff : ∀ k, k ∈ rows ↔ ∃ l, left.batch[k]? = some l ∧ j.keysEqual W l r = true

/-- The keys of these rows can be looked up: where the table has integer keys, they are values of
the type. -/
def JoinLeftData.Typed (j : HashJoinExec S) (left : JoinLeftData W) (r : Row S) : Prop :=
  ∀ I m, left.map = .arrayMap I m → I.IsValue ((j.rightKeys W r).headD .null)

/-- **The table finds the build rows with equal keys.** -/
structure JoinLeftData.Finds (H : KeyHash W) (j : HashJoinExec S) (left : JoinLeftData W)
    (rowsOf : Row S → List Nat) : Prop where
  lists : ∀ r, left.Typed j r → ListsEqual j left r (rowsOf r)
  isEmpty : left.map.isEmpty = true → ∀ r, rowsOf r = []
  contains : ∀ r, rowsOf r ≠ [] → left.map.contains H j r = true
  yields : ∀ (batch : RecordBatch S) {limit : Nat}, 0 < limit →
    ∃ chunks, Yields (left.lookup H j batch limit) limit (0, none) chunks ∧
      chunks.flatten = matchesFrom rowsOf 0 batch

section
variable {H : KeyHash W} {batches : List (RecordBatch S)}

theorem hashMap_finds (hon : j.on ≠ []) :
    JoinLeftData.Finds H j
      ⟨.hashMap (.ofBatches (batches.map (List.map fun l => H.hash (j.leftKeys W l)))),
        batches.reverse.flatten⟩
      fun r => ((inOrder batches).filter fun x => j.keysEqual W x.2 r).map (·.1) where
  lists r _ := by
    refine ⟨(nodup_inOrder batches).sublist (List.filter_sublist.map _), fun k => ?_⟩
    rw [List.mem_map]
    constructor
    · rintro ⟨⟨k, l⟩, hmem, rfl⟩
      obtain ⟨hmem, heq⟩ := List.mem_filter.1 hmem
      exact ⟨l, mem_inOrder_iff.1 hmem, heq⟩
    · rintro ⟨l, hl, heq⟩
      exact ⟨(k, l), List.mem_filter.2 ⟨mem_inOrder_iff.2 hl, heq⟩, rfl⟩
  isEmpty hempty r := by
    have hflat := (JoinHashMap.isEmpty_ofBatches _).1 hempty
    rw [← List.map_flatten, List.map_eq_nil_iff] at hflat
    have hnil : inOrder batches = [] := by
      rw [← List.length_eq_zero_iff, length_inOrder, hflat, List.length_nil]
    rw [hnil]
    rfl
  contains r hrows := by
    obtain ⟨k, hk⟩ := List.exists_mem_of_ne_nil _ hrows
    obtain ⟨⟨k, l⟩, hmem, -⟩ := List.mem_map.1 hk
    obtain ⟨hmem, heq⟩ := List.mem_filter.1 hmem
    have hl : l ∈ batches.flatten := by
      rw [← map_snd_inOrder]
      exact List.mem_map_of_mem hmem
    show JoinHashMap.containHash _ _ = true
    rw [JoinHashMap.containHash_ofBatches, ← List.map_flatten, ← H.hash_of_keysEqual heq]
    exact List.mem_map_of_mem hl
  yields batch limit hlimit := by
    obtain ⟨chunks, hyields, hflat⟩ := JoinHashMap.ofBatches_yields
      (batches.map (List.map fun l => H.hash (j.leftKeys W l)))
      (batch.map fun r => H.hash (j.rightKeys W r)) hlimit
    have hempty : ¬ j.on.isEmpty = true := fun h => hon (List.isEmpty_iff.1 h)
    refine ⟨chunks.map (List.filter (j.equalRows W batches.reverse.flatten batch)), ?_, ?_⟩
    · show Yields (fun offset => if j.on.isEmpty then none else lookupJoinHashmap _ _ _ _ _) _ _ _
      simp only [if_neg hempty]
      exact hyields.filter (j.equalRows W batches.reverse.flatten batch)
    · rw [← List.filter_flatten, hflat, matchesFrom_map]
      have hrows : (matchesFrom (fun r => bucket
          (inOrder (batches.map (List.map fun l => H.hash (j.leftKeys W l))))
          (H.hash (j.rightKeys W r))) 0 batch).filter
            (j.equalRows W batches.reverse.flatten batch) =
          (matchesFrom (fun r => ((inOrder batches).filter fun x => j.keysEqual W x.2 r).map (·.1))
            0 batch).map (Prod.map id id) := by
        refine filter_matchesFrom _ rfl fun p x y hx hy => ?_
        rw [hx, Option.some_inj] at hy
        subst hy
        rw [List.map_id, Nat.zero_add]
        refine filter_bucket_inOrder (fun l h => H.hash_of_keysEqual h) fun x' hx' => ?_
        unfold HashJoinExec.equalRows
        rw [mem_inOrder_iff.1 hx', hx]
      rw [hrows, Prod.map_id, List.map_id]

/-- With one key, the keys of two rows are equal if the first keys are. -/
theorem keysEqual_of_length_one (hon : j.on.length = 1) (l r : Row S) :
    j.keysEqual W l r = W.keyEq j.nullEquality ((j.leftKeys W l).headD .null)
      ((j.rightKeys W r).headD .null) := by
  obtain ⟨key, hkey⟩ := List.length_eq_one_iff.1 hon
  simp [HashJoinExec.keysEqual, HashJoinExec.leftKeys, HashJoinExec.rightKeys, hkey]

/-- The rows of a perfect-hash table match where a bucket has the key. -/
theorem IntegerKeys.keysEqual_iff {I : IntegerKeys W} {l r : Row S} (hon : j.on.length = 1)
    (hl : I.IsValue ((j.leftKeys W l).headD .null))
    (hr : I.IsValue ((j.rightKeys W r).headD .null))
    (hnull : j.nullEquality = .nullEqualsNull →
      I.decode ((j.leftKeys W l).headD .null) ≠ none) :
    j.keysEqual W l r = true ↔
      (I.decode ((j.leftKeys W l).headD .null)).isSome = true ∧
        I.decode ((j.leftKeys W l).headD .null) = I.decode ((j.rightKeys W r).headD .null) := by
  rw [keysEqual_of_length_one hon, I.keyEq_eq _ hl hr, keyEqual_eq_isSome_and _ hnull,
    Bool.and_eq_true, beq_iff_eq]

theorem arrayMap_finds {I : IntegerKeys W} {config : PerfectHashConfig}
    {bounds : Option (List (ColumnBounds I.type))} {m : ArrayMap} (hon : j.on.length = 1)
    (hcreate : tryCreateArrayMap config j.nullEquality bounds (batches.map (I.leftColumn j)) =
      .ok (some m))
    (htyped : ∀ l ∈ batches.flatten, I.IsValue ((j.leftKeys W l).headD .null)) :
    JoinLeftData.Finds H j ⟨.arrayMap I m, batches.flatten⟩ fun r =>
      m.rowsOf (I.leftColumn j batches.flatten) (I.decode ((j.rightKeys W r).headD .null)) := by
  have hflat : (batches.map (I.leftColumn j)).flatten = I.leftColumn j batches.flatten :=
    List.map_flatten.symm
  obtain ⟨hnull, minVal, maxVal, hnew⟩ := tryCreateArrayMap_ok hcreate
  rw [hflat] at hnull hnew
  obtain ⟨hindexes, hoffset⟩ := ArrayMap.indexes_of_tryNew hnew
  have hbound : m.offset < 2 ^ 64 := hoffset ▸ asU64_lt minVal
  have hcol : ∀ k : Nat, (I.leftColumn j batches.flatten)[k]? =
      (batches.flatten[k]?).map fun l => I.decode ((j.leftKeys W l).headD .null) := fun k =>
    List.getElem?_map
  refine ⟨fun r hr => ⟨?_, fun k => ?_⟩, fun hempty r => ?_,
    fun r => (ArrayMap.containKey_iff_rowsOf hindexes).2, fun batch limit hlimit => ?_⟩
  · have hall : ((I.leftColumn j batches.flatten).zipIdx.map (·.2)).Nodup := by
      rw [List.zipIdx_map_snd]
      exact List.nodup_range' 1
    simp only [m.rowsOf_eq hbound]
    exact hall.sublist (List.filter_sublist.map _)
  · have hiff := fun l hl => I.keysEqual_iff hon (htyped l hl) (hr I m rfl)
      fun h => hnull h _ (List.mem_map_of_mem hl)
    simp only [m.rowsOf_eq hbound]
    rw [List.mem_map]
    constructor
    · rintro ⟨⟨key, k⟩, hmem, rfl⟩
      obtain ⟨hmem, heq⟩ := List.mem_filter.1 hmem
      have hk := List.mem_zipIdx_iff_getElem?.1 hmem
      rw [hcol, Option.map_eq_some_iff] at hk
      obtain ⟨l, hl, rfl⟩ := hk
      rw [Bool.and_eq_true, beq_iff_eq] at heq
      exact ⟨l, hl, (hiff l (List.mem_of_getElem? hl)).2 heq⟩
    · rintro ⟨l, hl, heq⟩
      refine ⟨(I.decode ((j.leftKeys W l).headD .null), k), List.mem_filter.2 ⟨?_, ?_⟩, rfl⟩
      · rw [List.mem_zipIdx_iff_getElem?, hcol, hl]
        rfl
      · rw [Bool.and_eq_true, beq_iff_eq]
        exact (hiff l (List.mem_of_getElem? hl)).1 heq
  · exact ArrayMap.rowsOf_of_no_key hnew (eq_of_beq hempty) _
  · obtain ⟨chunks, hyields, hchunks⟩ :=
      ArrayMap.getMatchedIndices_yields hindexes (I.rightColumn j batch) hlimit
    refine ⟨chunks, hyields, ?_⟩
    rw [hchunks, IntegerKeys.rightColumn, matchesFrom_map]

section
variable {config : PerfectHashConfig} {keys : Option (IntegerKeys W)}
variable {bounds : (t : IntegerType) → Option (List (ColumnBounds t))} {left : JoinLeftData W}

/-- There is a hash table, or a perfect-hash table of the only key. -/
theorem collectLeftInput_cases (h : collectLeftInput W j H config keys bounds batches = .ok left) :
    left = ⟨.hashMap (.ofBatches (batches.map (List.map fun l => H.hash (j.leftKeys W l)))),
      batches.reverse.flatten⟩ ∨
    ∃ I m, keys = some I ∧ j.on.length = 1 ∧ left = ⟨.arrayMap I m, batches.flatten⟩ ∧
      tryCreateArrayMap config j.nullEquality (bounds I.type) (batches.map (I.leftColumn j)) =
        .ok (some m) := by
  obtain ⟨created, hcreated, h⟩ := bind_eq_ok.1 h
  cases created with
  | none =>
    cases h
    exact .inl rfl
  | some map =>
    cases h
    cases keys with
    | none => cases hcreated
    | some I =>
      simp only [tryArrayMap] at hcreated
      split_ifs at hcreated with hone
      · obtain ⟨m, hcreate, hmap⟩ := bind_eq_ok.1 hcreated
        obtain ⟨m, rfl, rfl⟩ := Option.map_eq_some_iff.1 (Except.ok.inj hmap)
        exact .inr ⟨I, m, rfl, hone, rfl, hcreate⟩
      · cases hcreated

/-- **Whichever table is built, it finds the build rows with equal keys.** -/
theorem collectLeftInput_finds
    (hon : j.on ≠ []) (h : collectLeftInput W j H config keys bounds batches = .ok left)
    (htyped : ∀ I, keys = some I →
      ∀ l ∈ batches.flatten, I.IsValue ((j.leftKeys W l).headD .null)) :
    left.batch.Perm batches.flatten ∧
      (∀ I m, left.map = .arrayMap I m → keys = some I) ∧
      ∃ rowsOf, left.Finds H j rowsOf := by
  rcases collectLeftInput_cases h with rfl | ⟨I, m, rfl, hone, rfl, hcreate⟩
  · refine ⟨(List.reverse_perm batches).flatten, fun I m hmap => ?_, _, hashMap_finds hon⟩
    cases hmap
  · refine ⟨List.Perm.refl _, fun I' m' hmap => ?_, _, arrayMap_finds hone hcreate (htyped I rfl)⟩
    cases hmap
    rfl

/-- A probe row with a build row of equal keys is found in the table. -/
theorem collectLeftInput_contains
    (hon : j.on ≠ []) (h : collectLeftInput W j H config keys bounds batches = .ok left)
    (htyped : ∀ I, keys = some I →
      ∀ l ∈ batches.flatten, I.IsValue ((j.leftKeys W l).headD .null))
    {l r : Row S} (hr : ∀ I, keys = some I → I.IsValue ((j.rightKeys W r).headD .null))
    (hl : l ∈ batches.flatten) (heq : j.keysEqual W l r = true) :
    left.map.contains H j r = true := by
  obtain ⟨hperm, hkeys, rowsOf, hfinds⟩ := collectLeftInput_finds hon h htyped
  obtain ⟨k, hk⟩ := List.mem_iff_getElem?.1 (hperm.mem_iff.2 hl)
  have hmem : k ∈ rowsOf r :=
    ((hfinds.lists r fun I m hmap => hr I (hkeys I m hmap)).mem_iff k).2 ⟨l, hk, heq⟩
  exact hfinds.contains r (List.ne_nil_of_mem hmem)

theorem keyEq_nullEqualsNothing (a b : Value S) :
    W.keyEq .nullEqualsNothing a b = W.valueEq a b := by
  cases a with
  | null => cases b <;> rfl
  | int32 _ | int64 _ | utf8 _ | boolean _ | other _ => rfl

/-- What a table says of a probe row: a hash table that some build row has the same hash, a
perfect-hash table that one has the same key, which is not `NULL`. -/
def Map.Holds (H : KeyHash W) (j : HashJoinExec S) (rows : List (Row S)) (r : Row S) :
    Map W → Prop
  | .hashMap _ => ∃ l ∈ rows, H.hash (j.leftKeys W l) = H.hash (j.rightKeys W r)
  | .arrayMap _ _ => ∃ l ∈ rows,
    W.valueEq ((j.leftKeys W l).headD .null) ((j.rightKeys W r).headD .null) = true

/-- **When a table contains the keys of a probe row.** -/
theorem collectLeftInput_contains_iff
    (h : collectLeftInput W j H config keys bounds batches = .ok left)
    (htyped : ∀ I, keys = some I →
      ∀ l ∈ batches.flatten, I.IsValue ((j.leftKeys W l).headD .null))
    {r : Row S} (hr : ∀ I, keys = some I → I.IsValue ((j.rightKeys W r).headD .null)) :
    left.map.contains H j r = true ↔ left.map.Holds H j batches.flatten r := by
  rcases collectLeftInput_cases h with rfl | ⟨I, m, rfl, hone, rfl, hcreate⟩
  · show JoinHashMap.containHash _ _ = true ↔ _
    rw [JoinHashMap.containHash_ofBatches, ← List.map_flatten, List.mem_map]
    rfl
  · obtain ⟨-, minVal, maxVal, hnew⟩ := tryCreateArrayMap_ok hcreate
    obtain ⟨hindexes, hoffset⟩ := ArrayMap.indexes_of_tryNew hnew
    have hbound : m.offset < 2 ^ 64 := hoffset ▸ asU64_lt minVal
    have hflat : (batches.map (I.leftColumn j)).flatten = I.leftColumn j batches.flatten :=
      List.map_flatten.symm
    have hvalue : ∀ l ∈ batches.flatten,
        (W.valueEq ((j.leftKeys W l).headD .null) ((j.rightKeys W r).headD .null) = true ↔
          (I.decode ((j.rightKeys W r).headD .null)).isSome = true ∧
            I.decode ((j.leftKeys W l).headD .null) =
              I.decode ((j.rightKeys W r).headD .null)) := by
      intro l hl
      rw [← keyEq_nullEqualsNothing, I.keyEq_eq _ (htyped I rfl l hl) (hr I rfl),
        keyEqual_eq_isSome_and _ fun hne => by cases hne]
      rw [Bool.and_eq_true, beq_iff_eq]
      refine and_congr_left fun heq => ?_
      rw [heq]
    show ArrayMap.containKey _ _ = true ↔ ∃ l ∈ _, _
    rw [ArrayMap.containKey_iff_mem hindexes hbound, hflat, IntegerKeys.leftColumn, List.mem_map]
    constructor
    · rintro ⟨hsome, l, hl, heq⟩
      exact ⟨l, hl, (hvalue l hl).2 ⟨hsome, heq⟩⟩
    · rintro ⟨l, hl, heq⟩
      obtain ⟨hsome, heq⟩ := (hvalue l hl).1 heq
      exact ⟨hsome, l, hl, heq⟩

end

end

end PredicateTransfer
