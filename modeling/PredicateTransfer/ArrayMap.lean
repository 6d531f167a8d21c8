import PredicateTransfer.JoinHashMap
import PredicateTransfer.Plan

/-!
# The perfect-hash table for integer keys

`ArrayMap` stores the rows of a single integer key column in an array over the range of the keys.
A key of any width and sign is cast to `u64` and its bucket is the wrapping difference to the least
key; a bucket outside the array is empty. The rows of one key are chained through `next`, which
stays empty until a key repeats. While it is empty, the lookup is a loop of its own.

**Theorem (`arrayMap_matches_eq_hashMap_matches`).** Whenever `try_create_array_map` returns a map,
its lookup, chunk by chunk, finds the same pairs in the same order as the chained hash table with
the key equality check after it.

The cast to `u64` is injective on each key type, so a bucket holds the rows of one key and nothing
else, wherever the difference wraps (`bucketOf_eq_iff`). The chains of both tables list the rows of
a key in their order of arrival; only the numbering of the rows differs, since the hash table is
built over the batches from the last one on (`inOrder`).
-/

namespace PredicateTransfer

open ChainedTable Chunks

/-! ## Integer keys -/

/-- The types `ArrayMap::is_supported_type` accepts. -/
inductive IntegerType where
  | int8
  | int16
  | int32
  | int64
  | uint8
  | uint16
  | uint32
  | uint64
  deriving DecidableEq, Repr

namespace IntegerType

/-- `T::MIN`. -/
def lower : IntegerType → Int
  | .int8 => -2 ^ 7
  | .int16 => -2 ^ 15
  | .int32 => -2 ^ 31
  | .int64 => -2 ^ 63
  | _ => 0

/-- `T::MAX`. -/
def upper : IntegerType → Int
  | .int8 => 2 ^ 7 - 1
  | .int16 => 2 ^ 15 - 1
  | .int32 => 2 ^ 31 - 1
  | .int64 => 2 ^ 63 - 1
  | .uint8 => 2 ^ 8 - 1
  | .uint16 => 2 ^ 16 - 1
  | .uint32 => 2 ^ 32 - 1
  | .uint64 => 2 ^ 64 - 1

/-- A value of the type. -/
abbrev Native (t : IntegerType) := { v : Int // t.lower ≤ v ∧ v ≤ t.upper }

end IntegerType

open IntegerType (Native)

variable {t : IntegerType}

/-- `v as u64`. -/
def asU64 (v : Native t) : Nat := (v.1 % 2 ^ 64).toNat

/-- `u64::wrapping_sub`. -/
def wrappingSub (a b : Nat) : Nat := (a + 2 ^ 64 - b) % 2 ^ 64

/-- No two values of one type have the same bits. -/
theorem asU64_injective : Function.Injective (asU64 : Native t → Nat) := by
  rintro ⟨v, hv⟩ ⟨w, hw⟩ h
  have hspan : t.upper - t.lower < 2 ^ 64 := by cases t <;> decide
  simp only [asU64] at h
  simp only [Subtype.mk.injEq]
  omega

theorem asU64_lt (v : Native t) : asU64 v < 2 ^ 64 := by
  unfold asU64
  omega

/-! ## The table -/

structure ArrayMap where
  data : List Nat
  offset : Nat
  next : List Nat
  numOfDistinctKey : Nat
  deriving DecidableEq, Repr

namespace ArrayMap

/-- The index into `data` for a key. -/
def bucketOf (m : ArrayMap) (key : Native t) : Nat := wrappingSub (asU64 key) m.offset

/-- One turn of the loop of `fill_data`: row `x.2` of an array of `len` keys. -/
def fill (len : Nat) (m : ArrayMap) (x : Option (Native t) × Nat) :
    Except DataFusionError ArrayMap :=
  match x.1 with
  | none => .ok m
  | some val =>
    let idx := m.bucketOf val
    match m.data[idx]? with
    | none => .error (.internal "failed build Array idx >= data.len()")
    | some 0 => .ok { m with
        data := m.data.set idx (x.2 + 1)
        numOfDistinctKey := m.numOfDistinctKey + 1 }
    | some (head + 1) =>
      let next := if m.next.isEmpty then List.replicate len 0 else m.next
      .ok { m with
        data := m.data.set idx (x.2 + 1)
        next := next.set x.2 (head + 1) }

/-- `fill_data`: rows in reverse, so that a chain starts with the first row of its key. -/
def fillData (array : List (Option (Native t))) (m : ArrayMap) : Except DataFusionError ArrayMap :=
  array.zipIdx.reverse.foldlM (fill array.length) m

/-- `try_new`. -/
def tryNew (array : List (Option (Native t))) (minVal maxVal : Nat) :
    Except DataFusionError ArrayMap :=
  let range := wrappingSub maxVal minVal
  if 2 ^ 64 - 1 ≤ range then
    .error (.internal "ArrayMap key range is too large to be allocated.")
  else fillData array ⟨List.replicate (range + 1) 0, minVal, [], 0⟩

/-- The entry of `data` for a probe value; a `NULL` and a bucket outside have none. -/
def slot (m : ArrayMap) : Option (Native t) → Nat
  | none => 0
  | some probVal => (m.data[m.bucketOf probVal]?).getD 0

/-- The loop of `lookup_and_get_indices` over the probe rows from `probIdx` on, while `next` is
empty and after `pushed` pairs. -/
def lookupUnique (m : ArrayMap) (limit : Nat) :
    Nat → Nat → List (Option (Native t)) → List (Nat × Nat) × Option MapOffset
  | _, _, [] => ([], none)
  | probIdx, pushed, val :: arr =>
    if pushed = limit then ([], some (probIdx, none))
    else match m.slot val with
      | 0 => lookupUnique m limit (probIdx + 1) pushed arr
      | buildIdx + 1 =>
        let (found, o) := lookupUnique m limit (probIdx + 1) (pushed + 1) arr
        ((probIdx, buildIdx) :: found, o)

/-- The loop over the probe rows from `probIdx` on along the chains. -/
def lookupChains (m : ArrayMap) (len : Nat) :
    Nat → List (Option (Native t)) → Nat → Option (List (Nat × Nat) × Option MapOffset)
  | _, [], _ => some ([], none)
  | probIdx, val :: arr, remaining =>
    if remaining = 0 then some ([], some (probIdx, none))
    else match m.slot val with
      | 0 => lookupChains m len (probIdx + 1) arr remaining
      | buildIdx + 1 => do
        let (found, left, offset) ←
          traverseChain m.next probIdx (probIdx == len - 1) remaining (buildIdx + 1)
        match offset with
        | some o => return (found, some o)
        | none => do
          let (rest, o) ← lookupChains m len (probIdx + 1) arr left
          return (found ++ rest, o)

/-- `get_matched_indices_with_limit_offset`: pairs of a probe row and a build row. -/
def getMatchedIndicesWithLimitOffset (m : ArrayMap) (arr : List (Option (Native t))) (limit : Nat)
    (offset : MapOffset) : Option (List (Nat × Nat) × Option MapOffset) :=
  let len := arr.length
  if m.next.isEmpty then some (m.lookupUnique limit offset.1 0 (arr.drop offset.1))
  else match offset with
    | (idx, none) => m.lookupChains len idx (arr.drop idx) limit
    | (idx, some 0) => m.lookupChains len (idx + 1) (arr.drop (idx + 1)) limit
    | (idx, some (next + 1)) => do
      let (found, left, o) ← traverseChain m.next idx (idx == len - 1) limit (next + 1)
      match o with
      | some o => return (found, some o)
      | none => do
        let (rest, o) ← m.lookupChains len (idx + 1) (arr.drop (idx + 1)) left
        return (found ++ rest, o)

/-- `contain_keys`, for one key. -/
def containKey (m : ArrayMap) (key : Option (Native t)) : Bool := m.slot key != 0

end ArrayMap

/-! ## Creating it -/

structure ColumnBounds (t : IntegerType) where
  min : Option (Native t)
  max : Option (Native t)

/-- The settings and the memory pool of an execution. `sparse numRow range` is the test
`num_row / (range + 1) <= perfect_hash_join_min_key_density` in `f64`. -/
structure PerfectHashConfig where
  smallBuildThreshold : Nat
  sparse : Nat → Nat → Bool
  tryGrow : Nat → Except DataFusionError Unit

/-- `ArrayMap::estimate_memory_size`, saturating at `usize::MAX`. -/
def estimateMemorySize (minVal maxVal numRows : Nat) : Nat :=
  let range := wrappingSub maxVal minVal
  if 2 ^ 64 - 1 ≤ range then 2 ^ 64 - 1
  else min (min ((range + 1) * 4) (2 ^ 64 - 1) + min (numRows * 4) (2 ^ 64 - 1)) (2 ^ 64 - 1)

/-- `try_create_array_map` for one key column of a supported type. -/
def tryCreateArrayMap (config : PerfectHashConfig) (nullEquality : NullEquality)
    (bounds : Option (List (ColumnBounds t))) (batches : List (List (Option (Native t)))) :
    Except DataFusionError (Option ArrayMap) :=
  if nullEquality = .nullEqualsNull ∧ batches.any (·.any Option.isNone) then .ok none
  else match bounds.bind List.head? with
    | some ⟨some minVal, some maxVal⟩ =>
      if maxVal.1 < minVal.1 then .error (.internal "min_val>max_val")
      else
        let range := wrappingSub (asU64 maxVal) (asU64 minVal)
        let numRow := (batches.map List.length).sum
        if 2 ^ 32 - 1 ≤ numRow then .ok none
        else if range = 2 ^ 64 - 1 then .ok none
        else if config.smallBuildThreshold ≤ range ∧ config.sparse numRow range then .ok none
        else do
          config.tryGrow (estimateMemorySize (asU64 minVal) (asU64 maxVal) numRow)
          return some (← ArrayMap.tryNew batches.flatten (asU64 minVal) (asU64 maxVal))
    | _ => .ok none

namespace ArrayMap

/-! ## The chains of a table -/

section
variable {m m' : ArrayMap} {len : Nat} {entries : List (Nat × Nat)}

/-- The links, with those of a table without repeated keys filled in. -/
def links (len : Nat) (m : ArrayMap) : List Nat :=
  if m.next.isEmpty then List.replicate len 0 else m.next

/-- The table stores the rows `entries`, each with its bucket. -/
def Stores (m : ArrayMap) (len : Nat) (entries : List (Nat × Nat)) : Prop :=
  Represents (fun k => (m.data[k]?).getD 0) (m.links len) len entries

/-- The rows with a key, each with its bucket. -/
def keyed (m : ArrayMap) (rows : List (Option (Native t) × Nat)) : List (Nat × Nat) :=
  rows.filterMap fun x => x.1.map fun key => (x.2, m.bucketOf key)

theorem keyed_cons (m : ArrayMap) (x : Option (Native t) × Nat)
    (rows : List (Option (Native t) × Nat)) :
    m.keyed (x :: rows) = m.keyed [x] ++ m.keyed rows := by
  rw [keyed, keyed, keyed, ← List.filterMap_append, List.singleton_append]

theorem heads_set {data : List Nat} {idx : Nat} (hidx : idx < data.length) (v : Nat) :
    (fun k => ((data.set idx v)[k]?).getD 0) =
      Function.update (fun k => (data[k]?).getD 0) idx v := by
  funext k
  by_cases hk : k = idx
  · subst hk
    simp [hidx]
  · rw [Function.update_of_ne hk, List.getElem?_set_ne (Ne.symm hk)]

theorem Stores.fill (h : m.Stores len entries) {x : Option (Native t) × Nat} (hx : x.2 < len)
    (hfresh : x.2 ∉ entries.map (·.1)) (hfill : m.fill len x = .ok m') :
    m'.Stores len (entries ++ m.keyed [x]) ∧ m'.offset = m.offset := by
  obtain ⟨val, i⟩ := x
  cases val with
  | none =>
    cases hfill
    exact ⟨by simpa [keyed] using h, rfl⟩
  | some val =>
    have hkeyed : m.keyed [(some val, i)] = [(i, m.bucketOf val)] := rfl
    rw [hkeyed]
    simp only [ArrayMap.fill] at hfill
    split at hfill
    · cases hfill
    · next hslot =>
      -- The first row of its key: no link is needed.
      cases hfill
      refine ⟨?_, rfl⟩
      unfold Stores
      rw [heads_set (List.getElem?_eq_some_iff.1 hslot).1]
      exact Represents.insert_vacant h hx hfresh (by rw [hslot]; rfl)
    · next head hslot =>
      cases hfill
      refine ⟨?_, rfl⟩
      have hlinks : links len { m with
          data := m.data.set (m.bucketOf val) (i + 1)
          next := (if m.next.isEmpty then List.replicate len 0 else m.next).set i (head + 1) } =
          (m.links len).set i (head + 1) := by
        have hne : ((m.links len).set i (head + 1)).isEmpty = false := by
          have hlen : ((m.links len).set i (head + 1)).length = len := by
            rw [List.length_set, h.length]
          cases hset : (m.links len).set i (head + 1) with
          | nil =>
            rw [hset] at hlen
            simp only [List.length_nil] at hlen
            omega
          | cons _ _ => rfl
        exact if_neg (by rw [← links, hne]; exact Bool.false_ne_true)
      unfold Stores
      rw [heads_set (List.getElem?_eq_some_iff.1 hslot).1, hlinks]
      have hinsert := Represents.insert (k := m.bucketOf val) h hx hfresh
      rwa [hslot] at hinsert

theorem Stores.foldlM_fill (h : m.Stores len entries) {rows : List (Option (Native t) × Nat)}
    (hlt : ∀ x ∈ rows, x.2 < len) (hnodup : (entries.map (·.1) ++ rows.map (·.2)).Nodup)
    (hfill : rows.foldlM (ArrayMap.fill len) m = .ok m') :
    m'.Stores len (entries ++ m.keyed rows) ∧ m'.offset = m.offset := by
  induction rows generalizing m entries with
  | nil =>
    rw [List.foldlM_nil] at hfill
    cases hfill
    exact ⟨by simpa [keyed] using h, rfl⟩
  | cons x rows ih =>
    rw [List.foldlM_cons] at hfill
    cases hstep : m.fill len x with
    | error e => simp [hstep, bind, Except.bind] at hfill
    | ok m₁ =>
      rw [hstep] at hfill
      have hfresh : x.2 ∉ entries.map (·.1) := by
        intro hmem
        exact (List.nodup_append.1 hnodup).2.2 _ hmem _
          (List.mem_map_of_mem List.mem_cons_self) rfl
      obtain ⟨h₁, hoffset⟩ := h.fill (hlt x List.mem_cons_self) hfresh hstep
      have hkeyed : m₁.keyed rows = m.keyed rows := by
        simp only [keyed, bucketOf, hoffset]
      have hnodup' : ((entries ++ m.keyed [x]).map (·.1) ++ rows.map (·.2)).Nodup := by
        refine hnodup.sublist ?_
        rw [List.map_append, List.map_cons, List.append_assoc]
        refine List.Sublist.append_left ?_ _
        obtain ⟨val, i⟩ := x
        cases val with
        | none => exact List.sublist_cons_self _ _
        | some _ => exact List.Sublist.refl _
      obtain ⟨h₂, hoffset₂⟩ :=
        ih h₁ (fun y hy => hlt y (List.mem_cons_of_mem _ hy)) hnodup' hfill
      refine ⟨?_, hoffset₂.trans hoffset⟩
      rw [hkeyed, List.append_assoc] at h₂
      rwa [keyed_cons]

end

/-! ## The lookup -/

/-- The rows of the array with the key of a probe value. -/
def rowsOf (m : ArrayMap) (array : List (Option (Native t))) : Option (Native t) → List Nat
  | none => []
  | some key => bucket (m.keyed array.zipIdx) (m.bucketOf key)

/-- The table holds the chain of every probe value. -/
def Indexes (m : ArrayMap) (array : List (Option (Native t))) : Prop :=
  ∀ val, Chain (m.links array.length) (m.slot val) (m.rowsOf array val)

theorem indexes_of_tryNew {array : List (Option (Native t))} {minVal maxVal : Nat} {m : ArrayMap}
    (h : tryNew array minVal maxVal = .ok m) : m.Indexes array ∧ m.offset = minVal := by
  unfold tryNew at h
  simp only at h
  split_ifs at h
  let m₀ : ArrayMap := ⟨List.replicate (wrappingSub maxVal minVal + 1) 0, minVal, [], 0⟩
  have hempty : m₀.Stores array.length [] := by
    have hheads : (fun k : Nat => (m₀.data[k]?).getD 0) = fun _ => 0 := by
      funext k
      simp only [m₀, List.getElem?_replicate]
      split_ifs <;> rfl
    unfold Stores
    rw [hheads]
    exact represents_empty
  have hlt : ∀ x ∈ array.zipIdx.reverse, x.2 < array.length := by
    intro x hx
    exact (List.getElem?_eq_some_iff.1 (List.mem_zipIdx_iff_getElem?.1 (List.mem_reverse.1 hx))).1
  have hnodup : (([] : List (Nat × Nat)).map (·.1) ++ array.zipIdx.reverse.map (·.2)).Nodup := by
    rw [List.map_nil, List.nil_append, List.map_reverse, List.nodup_reverse, List.zipIdx_map_snd]
    exact List.nodup_range' 1
  obtain ⟨hstores, hoffset⟩ := hempty.foldlM_fill hlt hnodup h
  have hkeyed : m₀.keyed array.zipIdx.reverse = (m.keyed array.zipIdx).reverse := by
    simp only [keyed, List.filterMap_reverse, bucketOf, hoffset]
  rw [List.nil_append, hkeyed] at hstores
  refine ⟨fun val => ?_, hoffset⟩
  cases val with
  | none => exact .nil
  | some key =>
    have hchain := hstores.chain (m.bucketOf key)
    rwa [bucket_reverse, List.reverse_reverse] at hchain

/-- As long as no key was counted, no bucket is taken. -/
def Vacant (m : ArrayMap) : Prop := m.numOfDistinctKey = 0 → ∀ k : Nat, (m.data[k]?).getD 0 = 0

theorem Vacant.fill {m m' : ArrayMap} (h : m.Vacant) {len : Nat} {x : Option (Native t) × Nat}
    (hfill : m.fill len x = .ok m') : m'.Vacant := by
  obtain ⟨val, i⟩ := x
  cases val with
  | none =>
    cases hfill
    exact h
  | some val =>
    unfold ArrayMap.fill at hfill
    simp only at hfill
    split at hfill
    · cases hfill
    · cases hfill
      intro hzero
      exact absurd hzero (Nat.succ_ne_zero _)
    · next head hslot =>
      cases hfill
      intro hzero
      have htaken := h hzero (m.bucketOf val)
      rw [hslot] at htaken
      exact absurd htaken (Nat.succ_ne_zero _)

theorem Vacant.foldlM_fill {m m' : ArrayMap} (h : m.Vacant) {len : Nat}
    {rows : List (Option (Native t) × Nat)}
    (hfill : rows.foldlM (ArrayMap.fill len) m = .ok m') : m'.Vacant := by
  induction rows generalizing m with
  | nil =>
    rw [List.foldlM_nil] at hfill
    cases hfill
    exact h
  | cons x rows ih =>
    rw [List.foldlM_cons] at hfill
    obtain ⟨m₁, hstep, hrest⟩ := bind_eq_ok.1 hfill
    exact ih (h.fill hstep) hrest

/-- A table that counts no key has no row for any probe value. -/
theorem rowsOf_of_no_key {array : List (Option (Native t))} {minVal maxVal : Nat} {m : ArrayMap}
    (h : tryNew array minVal maxVal = .ok m) (hzero : m.numOfDistinctKey = 0)
    (val : Option (Native t)) : m.rowsOf array val = [] := by
  have hchain := (indexes_of_tryNew h).1 val
  unfold tryNew at h
  simp only at h
  split_ifs at h
  have hstart : Vacant ⟨List.replicate (wrappingSub maxVal minVal + 1) 0, minVal, [], 0⟩ := by
    intro _ k
    simp only [List.getElem?_replicate]
    split_ifs <;> rfl
  have hslot : m.slot val = 0 := by
    cases val with
    | none => rfl
    | some key => exact hstart.foldlM_fill h hzero _
  rw [hslot] at hchain
  exact hchain.eq_nil

section
variable {m : ArrayMap} {array arr : List (Option (Native t))}

theorem containKey_iff_rowsOf (h : m.Indexes array) {val : Option (Native t)} :
    m.containKey val = true ↔ m.rowsOf array val ≠ [] := by
  have hchain := h val
  unfold containKey
  rw [bne_iff_ne]
  generalize m.slot val = head at hchain
  generalize m.rowsOf array val = rows at hchain
  cases hchain with
  | nil => exact ⟨fun h => absurd rfl h, fun h => absurd rfl h⟩
  | cons _ _ => exact ⟨fun _ => List.cons_ne_nil _ _, fun _ => Nat.succ_ne_zero _⟩

/-- Without links there is at most one row for a probe value. -/
theorem rowsOf_of_no_links (h : m.Indexes array) (hnext : m.next.isEmpty = true)
    (val : Option (Native t)) :
    m.rowsOf array val = match m.slot val with
      | 0 => []
      | buildIdx + 1 => [buildIdx] := by
  have hchain := h val
  unfold links at hchain
  rw [if_pos hnext] at hchain
  generalize m.slot val = head at hchain
  generalize m.rowsOf array val = rows at hchain
  cases hchain with
  | nil => rfl
  | @cons i n rows hlink hrest =>
    have hzero : n = 0 := List.eq_of_mem_replicate (List.mem_of_getElem? hlink)
    subst hzero
    rw [hrest.eq_nil]

theorem lookupUnique_outcome (h : m.Indexes array) (hnext : m.next.isEmpty = true)
    {limit probIdx pushed : Nat} {rest : List (Option (Native t))} (hle : pushed ≤ limit)
    (hdrop : arr.drop probIdx = rest) (hidx : probIdx ≤ arr.length) :
    Outcome (LeftAtRow (m.rowsOf array) arr) (matchesFrom (m.rowsOf array) probIdx rest)
      (limit - pushed) (some (m.lookupUnique limit probIdx pushed rest)) := by
  induction rest generalizing probIdx pushed with
  | nil => exact .all (Nat.zero_le _)
  | cons val rest ih =>
    have hlen := congrArg List.length hdrop
    simp only [List.length_drop, List.length_cons] at hlen
    have hdrop' : arr.drop (probIdx + 1) = rest := by
      rw [← List.tail_drop, hdrop, List.tail_cons]
    rw [lookupUnique]
    split_ifs with hfull
    · rw [← hdrop]
      exact .cut ⟨probIdx, hidx, rfl, rfl⟩ rfl (by simp [hfull])
    · rw [matchesFrom, rowsOf_of_no_links h hnext]
      cases hslot : m.slot val with
      | zero => exact ih hle hdrop' (by omega)
      | succ buildIdx =>
        have hrest := ih (Nat.succ_le_of_lt (lt_of_le_of_ne hle hfull)) hdrop' (by omega)
        exact hrest.append [(probIdx, buildIdx)] (by
          rw [List.length_singleton]
          omega)

theorem lookupChains_outcome (h : m.Indexes array) (hnext : m.next.isEmpty = false)
    {probIdx remaining : Nat} {rest : List (Option (Native t))}
    (hdrop : arr.drop probIdx = rest) (hidx : probIdx ≤ arr.length) :
    Outcome (LeftAt (m.rowsOf array) m.next arr) (matchesFrom (m.rowsOf array) probIdx rest)
      remaining (m.lookupChains arr.length probIdx rest remaining) := by
  induction rest generalizing probIdx remaining with
  | nil => exact .all (Nat.zero_le _)
  | cons val rest ih =>
    have hlen := congrArg List.length hdrop
    simp only [List.length_drop, List.length_cons] at hlen
    have hdrop' : arr.drop (probIdx + 1) = rest := by
      rw [← List.tail_drop, hdrop, List.tail_cons]
    have hchain := h val
    rw [links, if_neg (by rw [hnext]; exact Bool.false_ne_true)] at hchain
    rw [lookupChains]
    split_ifs with hfull
    · rw [← hdrop]
      exact .cut (.row hidx) rfl (by simp [hfull])
    · rw [matchesFrom]
      cases hslot : m.slot val with
      | zero =>
        rw [hslot] at hchain
        rw [hchain.eq_nil]
        exact ih hdrop' (by omega)
      | succ buildIdx =>
        rw [hslot] at hchain
        have hne : m.rowsOf array val ≠ [] := by
          intro hnil
          rw [hnil] at hchain
          exact Nat.succ_ne_zero _ hchain.eq_zero
        subst hdrop'
        exact chain_outcome hchain hne (by omega) (Nat.pos_of_ne_zero hfull)
          fun left _ => ih rfl (by omega)

theorem lookup_outcome (h : m.Indexes array) (hnext : m.next.isEmpty = false) {limit : Nat}
    (hlimit : 0 < limit) {o : MapOffset} {l : List (Nat × Nat)}
    (hleft : LeftAt (m.rowsOf array) m.next arr o l) :
    Outcome (LeftAt (m.rowsOf array) m.next arr) l limit
      (m.getMatchedIndicesWithLimitOffset arr limit o) := by
  simp only [getMatchedIndicesWithLimitOffset, hnext, Bool.false_eq_true, if_false]
  cases hleft with
  | @row i hi => exact lookupChains_outcome h hnext rfl hi
  | @chain i head rows hi hrows =>
    cases hrows with
    | nil => exact lookupChains_outcome h hnext rfl hi
    | @cons j n rows hlink hrest =>
      exact chain_outcome (.cons hlink hrest) (List.cons_ne_nil _ _) hi hlimit
        fun left _ => lookupChains_outcome h hnext rfl hi

/-- **The matches of a probe array.** Whatever the limit, the chunks together are, for each probe
row in order, the build rows with its key. -/
theorem getMatchedIndices_yields (h : m.Indexes array) (arr : List (Option (Native t)))
    {limit : Nat} (hlimit : 0 < limit) :
    ∃ chunks, Yields (m.getMatchedIndicesWithLimitOffset arr limit) limit (0, none) chunks ∧
      chunks.flatten = matchesFrom (m.rowsOf array) 0 arr := by
  cases hnext : m.next.isEmpty with
  | true =>
    have hstart : LeftAtRow (m.rowsOf array) arr (0, none) (matchesFrom (m.rowsOf array) 0 arr) :=
      ⟨0, Nat.zero_le _, rfl, rfl⟩
    refine yields_of_outcome hlimit (fun o l hleft => ?_) hstart
    obtain ⟨i, hi, rfl, rfl⟩ := hleft
    have hlookup : m.getMatchedIndicesWithLimitOffset arr limit (i, none) =
        some (m.lookupUnique limit i 0 (arr.drop i)) := if_pos hnext
    rw [hlookup]
    exact lookupUnique_outcome h hnext (Nat.zero_le _) rfl hi
  | false =>
    exact yields_of_outcome hlimit (fun o l hleft => lookup_outcome h hnext hlimit hleft)
      (.row (Nat.zero_le _))

end

/-! ## The rows of a key -/

/-- Keys share a bucket only if they are equal, also where the difference wraps. -/
theorem bucketOf_eq_iff (m : ArrayMap) (hoffset : m.offset < 2 ^ 64) {v w : Native t} :
    m.bucketOf v = m.bucketOf w ↔ v = w := by
  refine ⟨fun h => asU64_injective ?_, fun h => by rw [h]⟩
  have hv := asU64_lt v
  have hw := asU64_lt w
  unfold bucketOf wrappingSub at h
  omega

theorem rowsOf_eq (m : ArrayMap) (hoffset : m.offset < 2 ^ 64) (array : List (Option (Native t)))
    (val : Option (Native t)) : m.rowsOf array val =
      ((array.zipIdx.filter fun x => x.1.isSome && x.1 == val)).map (·.2) := by
  cases val with
  | none =>
    have hnone : (array.zipIdx.filter fun x => x.1.isSome && x.1 == none) = [] := by
      rw [List.filter_eq_nil_iff]
      rintro ⟨_ | _, _⟩ _ <;> simp
    rw [hnone]
    rfl
  | some key =>
    show bucket (m.keyed array.zipIdx) (m.bucketOf key) = _
    induction array.zipIdx with
    | nil => rfl
    | cons x rows ih =>
      obtain ⟨val, i⟩ := x
      rw [keyed_cons, bucket_append, ih]
      cases val with
      | none => simp [bucket, keyed]
      | some v =>
        by_cases hv : v = key
        · subst hv
          simp [bucket, keyed]
        · have hne : m.bucketOf v ≠ m.bucketOf key := fun h => hv ((m.bucketOf_eq_iff hoffset).1 h)
          have hval : (v : Int) ≠ key := fun h => hv (Subtype.ext h)
          simp [bucket, keyed, hne, hval]

/-- The table contains the keys that were built in, and no `NULL`. -/
theorem containKey_iff_mem {m : ArrayMap} {array : List (Option (Native t))}
    (h : m.Indexes array) (hoffset : m.offset < 2 ^ 64) {val : Option (Native t)} :
    m.containKey val = true ↔ val.isSome = true ∧ val ∈ array := by
  rw [containKey_iff_rowsOf h, m.rowsOf_eq hoffset, ne_eq, List.map_eq_nil_iff,
    List.filter_eq_nil_iff]
  constructor
  · intro hsome
    push Not at hsome
    obtain ⟨x, hx, heq⟩ := hsome
    rw [Bool.and_eq_true, beq_iff_eq] at heq
    rw [← heq.2]
    exact ⟨heq.1, List.mem_of_getElem? (List.mem_zipIdx_iff_getElem?.1 hx)⟩
  · rintro ⟨hsome, hmem⟩ hnone
    obtain ⟨k, hk⟩ := List.mem_iff_getElem?.1 hmem
    exact hnone (val, k) (List.mem_zipIdx_iff_getElem?.2 hk) (by simp [hsome])

end ArrayMap

/-! ## The two tables -/

/-- `eq_dyn_null` on one pair of keys. -/
def keyEqual (nullEquality : NullEquality) : Option (Native t) → Option (Native t) → Bool
  | none, none => nullEquality == .nullEqualsNull
  | some a, some b => a == b
  | _, _ => false

theorem eq_of_keyEqual {nullEquality : NullEquality} {a b : Option (Native t)}
    (h : keyEqual nullEquality a b = true) : a = b := by
  cases a with
  | none =>
    cases b with
    | none => rfl
    | some _ => cases h
  | some v =>
    cases b with
    | none => cases h
    | some w => exact congrArg some (eq_of_beq h)

/-- `equal_rows_arr` on one pair of a probe row and a build row, for one key column. -/
def equalKeys (nullEquality : NullEquality) (build probe : List (Option (Native t)))
    (x : Nat × Nat) : Bool :=
  match build[x.2]?, probe[x.1]? with
  | some a, some b => keyEqual nullEquality a b
  | _, _ => false

/-- The number in the hash table's batch of row `i` of the concatenated batches. -/
def hashTableRow {α : Type} (batches : List (List α)) (i : Nat) : Nat :=
  ((inOrder batches).map (·.1)).getD i 0

/-- Both numbers are the same row. -/
theorem getElem?_hashTableRow {α : Type} {batches : List (List α)} {i : Nat}
    (hi : i < batches.flatten.length) :
    batches.reverse.flatten[hashTableRow batches i]? = batches.flatten[i]? := by
  have hlt : i < (inOrder batches).length := by rwa [length_inOrder]
  have hmem : (inOrder batches)[i] ∈ inOrder batches := List.getElem_mem hlt
  rw [hashTableRow, List.getD_eq_getElem?_getD, List.getElem?_map, List.getElem?_eq_getElem hlt,
    ← map_snd_inOrder batches, List.getElem?_map, List.getElem?_eq_getElem hlt]
  exact mem_inOrder_iff.1 hmem

theorem hashTableRow_injOn {α : Type} (batches : List (List α)) :
    Set.InjOn (hashTableRow batches) {i | i < batches.flatten.length} := by
  intro i hi k hk h
  have hlen : ((inOrder batches).map (·.1)).length = batches.flatten.length := by
    rw [List.length_map, length_inOrder]
  rw [Set.mem_ofPred_eq, ← hlen] at hi hk
  rw [hashTableRow, hashTableRow, List.getD_eq_getElem?_getD, List.getD_eq_getElem?_getD,
    List.getElem?_eq_getElem hi, List.getElem?_eq_getElem hk] at h
  exact (nodup_inOrder batches).getElem_inj_iff.1 h

/-- Selecting rows by position and then renumbering is selecting them with their numbers. -/
theorem map_hashTableRow_filter {α : Type} (batches : List (List α)) (p : α → Bool) :
    ((batches.flatten.zipIdx.filter fun x => p x.1).map (·.2)).map (hashTableRow batches) =
      ((inOrder batches).filter fun x => p x.2).map (·.1) := by
  have hrows : batches.flatten.zipIdx = (inOrder batches).zipIdx.map (Prod.map (·.2) id) := by
    rw [← map_snd_inOrder, List.zipIdx_map]
  have hfst : inOrder batches = (inOrder batches).zipIdx.map (·.1) :=
    (List.zipIdx_map_fst 0 _).symm
  rw [hrows, List.filter_map, List.map_map, List.map_map]
  conv_rhs => rw [hfst, List.filter_map, List.map_map]
  refine List.map_congr_left fun x hx => ?_
  have hx' := List.mem_zipIdx_iff_getElem?.1 (List.mem_of_mem_filter hx)
  show hashTableRow batches x.2 = x.1.1
  rw [hashTableRow, List.getD_eq_getElem?_getD, List.getElem?_map, hx']
  rfl

/-- A map is returned only if `NULL`s do not matter, and it was built from all batches. -/
theorem tryCreateArrayMap_ok {config : PerfectHashConfig} {nullEquality : NullEquality}
    {bounds : Option (List (ColumnBounds t))} {batches : List (List (Option (Native t)))}
    {m : ArrayMap} (h : tryCreateArrayMap config nullEquality bounds batches = .ok (some m)) :
    (nullEquality = .nullEqualsNull → ∀ x ∈ batches.flatten, x ≠ none) ∧
      ∃ minVal maxVal : Native t,
        ArrayMap.tryNew batches.flatten (asU64 minVal) (asU64 maxVal) = .ok m := by
  unfold tryCreateArrayMap at h
  split_ifs at h with hnull
  · cases h
  refine ⟨?_, ?_⟩
  · rintro heq x hx rfl
    obtain ⟨batch, hbatch, hx⟩ := List.mem_flatten.1 hx
    refine hnull ⟨heq, List.any_eq_true.2 ⟨batch, hbatch, List.any_eq_true.2 ⟨none, hx, rfl⟩⟩⟩
  · split at h
    · next minVal maxVal _ =>
      refine ⟨minVal, maxVal, ?_⟩
      simp only at h
      split_ifs at h
      · cases h
      · cases h
      · cases h
      obtain ⟨-, -, h⟩ := bind_eq_ok.1 h
      obtain ⟨m', hnew, h⟩ := bind_eq_ok.1 h
      cases h
      exact hnew
    · cases h

/-- The rows that the hash table's candidates leave after the equality check. -/
theorem bucket_filter_equalKeys (hash : Option (Native t) → UInt64) {nullEquality : NullEquality}
    {batches : List (List (Option (Native t)))} {probe : List (Option (Native t))} {p : Nat}
    {val : Option (Native t)} (hval : probe[p]? = some val) :
    (bucket (inOrder (batches.map (List.map hash))) (hash val)).filter
        (fun b => equalKeys nullEquality batches.reverse.flatten probe (p, b)) =
      ((inOrder batches).filter fun x => keyEqual nullEquality x.2 val).map (·.1) := by
  have heq : ∀ key, keyEqual nullEquality key val = true → hash key = hash val := fun key h =>
    congrArg hash (eq_of_keyEqual h)
  refine filter_bucket_inOrder heq fun x hx => ?_
  unfold equalKeys
  rw [mem_inOrder_iff.1 hx, hval]

/-- The two tables agree on `NULL`s: a `NULL` build key is in no bucket, and where `NULL`s are
equal no build key is `NULL`. -/
theorem keyEqual_eq_isSome_and {nullEquality : NullEquality} {key : Option (Native t)}
    (val : Option (Native t)) (hkey : nullEquality = .nullEqualsNull → key ≠ none) :
    keyEqual nullEquality key val = (key.isSome && key == val) := by
  cases key with
  | none =>
    cases val with
    | none =>
      cases nullEquality with
      | nullEqualsNull => exact absurd rfl (hkey rfl)
      | nullEqualsNothing => rfl
    | some v => rfl
  | some key =>
    cases val with
    | none => rfl
    | some v => rfl

/-- **The perfect-hash table and the hash table find the same matches.** From `(0, None)` on, both
lookups end, with chunks of at most `limit` pairs, and return the same pairs of a probe row and a
build row in the same order; `hashTableRow` only renumbers the build rows. -/
theorem arrayMap_matches_eq_hashMap_matches {config : PerfectHashConfig}
    {nullEquality : NullEquality} {bounds : Option (List (ColumnBounds t))}
    {batches : List (List (Option (Native t)))} {m : ArrayMap}
    (hcreate : tryCreateArrayMap config nullEquality bounds batches = .ok (some m))
    (hash : Option (Native t) → UInt64) (probe : List (Option (Native t))) {limit : Nat}
    (hlimit : 1 ≤ limit) :
    ∃ arrayChunks hashChunks,
      Yields (m.getMatchedIndicesWithLimitOffset probe limit) limit (0, none) arrayChunks ∧
      Yields (lookupJoinHashmap (.ofBatches (batches.map (List.map hash))) (probe.map hash)
        (equalKeys nullEquality batches.reverse.flatten probe) limit) limit (0, none) hashChunks ∧
      hashChunks.flatten = arrayChunks.flatten.map (Prod.map id (hashTableRow batches)) ∧
      (∀ x ∈ arrayChunks.flatten, x.1 < probe.length ∧ x.2 < batches.flatten.length) ∧
      (∀ i < batches.flatten.length,
        batches.reverse.flatten[hashTableRow batches i]? = batches.flatten[i]?) ∧
      Set.InjOn (hashTableRow batches) {i | i < batches.flatten.length} := by
  obtain ⟨hnull, minVal, maxVal, hnew⟩ := tryCreateArrayMap_ok hcreate
  obtain ⟨hindexes, hoffset⟩ := ArrayMap.indexes_of_tryNew hnew
  have hbound : m.offset < 2 ^ 64 := hoffset ▸ asU64_lt minVal
  obtain ⟨arrayChunks, harray, harrayFlat⟩ :=
    ArrayMap.getMatchedIndices_yields hindexes probe hlimit
  obtain ⟨hashChunks, hhash, hhashFlat⟩ :=
    JoinHashMap.ofBatches_yields (batches.map (List.map hash)) (probe.map hash) hlimit
  refine ⟨arrayChunks, _, harray, hhash.filter _, ?_, ?_,
    fun i hi => getElem?_hashTableRow hi, hashTableRow_injOn batches⟩
  · rw [← List.filter_flatten, hhashFlat, harrayFlat]
    refine filter_matchesFrom _ (List.length_map _) fun p x val hx hval => ?_
    rw [List.getElem?_map, hval, Option.map_some, Option.some_inj] at hx
    subst hx
    rw [Nat.zero_add, bucket_filter_equalKeys hash hval, m.rowsOf_eq hbound,
      map_hashTableRow_filter batches fun key => key.isSome && key == val]
    refine congrArg (List.map _) (List.filter_congr fun x hx => ?_)
    refine keyEqual_eq_isSome_and val fun heq => hnull heq _ ?_
    rw [← map_snd_inOrder]
    exact List.mem_map_of_mem hx
  · rw [harrayFlat]
    rintro ⟨p, b⟩ hx
    obtain ⟨-, val, hval, hb⟩ := (mem_matchesFrom _).1 hx
    refine ⟨(List.getElem?_eq_some_iff.1 hval).1, ?_⟩
    rw [m.rowsOf_eq hbound] at hb
    obtain ⟨y, hy, rfl⟩ := List.mem_map.1 hb
    exact (List.getElem?_eq_some_iff.1
      (List.mem_zipIdx_iff_getElem?.1 (List.mem_of_mem_filter hy))).1

/-- Two batches of `Int8` keys: 1 and a `NULL`, then 1 and -2. -/
def smallKeys : List (List (Option (Native .int8))) :=
  [[some ⟨1, by decide⟩, none], [some ⟨1, by decide⟩, some ⟨-2, by decide⟩]]

theorem smallKeys_matches :
    tryCreateArrayMap ⟨1024, fun _ _ => false, fun _ => .ok ()⟩ .nullEqualsNothing
      (some [⟨some ⟨-2, by decide⟩, some ⟨1, by decide⟩⟩]) smallKeys =
      .ok (some ⟨[4, 0, 0, 1], 2 ^ 64 - 2, [3, 0, 0, 0], 2⟩) ∧
    ∃ arrayChunks hashChunks,
      Yields (ArrayMap.getMatchedIndicesWithLimitOffset ⟨[4, 0, 0, 1], 2 ^ 64 - 2, [3, 0, 0, 0], 2⟩
        [some (⟨1, by decide⟩ : Native .int8), none, some ⟨127, by decide⟩] 1) 1 (0, none)
        arrayChunks ∧
      Yields (lookupJoinHashmap (.ofBatches (smallKeys.map (List.map fun _ => 7))) [7, 7, 7]
        (equalKeys .nullEqualsNothing smallKeys.reverse.flatten
          [some ⟨1, by decide⟩, none, some ⟨127, by decide⟩]) 1) 1 (0, none) hashChunks ∧
      hashChunks.flatten = arrayChunks.flatten.map (Prod.map id (hashTableRow smallKeys)) ∧
      (∀ x ∈ arrayChunks.flatten, x.1 < 3 ∧ x.2 < smallKeys.flatten.length) ∧
      (∀ i < smallKeys.flatten.length,
        smallKeys.reverse.flatten[hashTableRow smallKeys i]? = smallKeys.flatten[i]?) ∧
      Set.InjOn (hashTableRow smallKeys) {i | i < smallKeys.flatten.length} := by
  have hcreate : tryCreateArrayMap ⟨1024, fun _ _ => false, fun _ => .ok ()⟩ .nullEqualsNothing
      (some [⟨some ⟨-2, by decide⟩, some ⟨1, by decide⟩⟩]) smallKeys =
      .ok (some ⟨[4, 0, 0, 1], 2 ^ 64 - 2, [3, 0, 0, 0], 2⟩) := by rfl
  exact ⟨hcreate, arrayMap_matches_eq_hashMap_matches hcreate (fun _ => 7)
    [some ⟨1, by decide⟩, none, some ⟨127, by decide⟩] le_rfl⟩

end PredicateTransfer
