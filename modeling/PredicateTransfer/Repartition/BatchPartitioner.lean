import Mathlib.Tactic
import PredicateTransfer.Lib.Fallible

/-!
# Partitioning batches

`BatchPartitioner` cuts a batch by the hashes of its rows, or passes whole batches on in turn.
What it makes of a whole stream (`BatchPartitioner.pieces`): a hash partitioner sends every row to
the partition of its hash, in order (`pieces_hash_rows`), a round-robin one gives every partition
its turn (`pieces_roundRobin`).
-/

namespace PredicateTransfer.Repartition

open Fallible

variable {ρ ε : Type}

/-- `Partitioning`, with the hash of the evaluated expressions of a row. -/
inductive Partitioning (ρ ε : Type) where
  | hash (hashRow : ρ → Except ε UInt64) (numPartitions : Nat)
  | roundRobinBatch (numPartitions : Nat)
  | unknownPartitioning (numPartitions : Nat) (notImplemented : ε)

def Partitioning.partitionCount : Partitioning ρ ε → Nat
  | .hash _ numPartitions | .roundRobinBatch numPartitions
  | .unknownPartitioning numPartitions _ => numPartitions

/-- `BatchPartitionerState`. -/
inductive BatchPartitioner (ρ ε : Type) where
  | hash (hashRow : ρ → Except ε UInt64) (numPartitions : Nat)
  | roundRobin (numPartitions nextIdx : Nat)

namespace BatchPartitioner

def tryNew (inputPartition numInputPartitions : Nat) :
    Partitioning ρ ε → Except ε (BatchPartitioner ρ ε)
  | .hash hashRow numPartitions => .ok (.hash hashRow numPartitions)
  | .roundRobinBatch numPartitions =>
    .ok (.roundRobin numPartitions (inputPartition * numPartitions / numInputPartitions))
  | .unknownPartitioning _ notImplemented => .error notImplemented

def numPartitions : BatchPartitioner ρ ε → Nat
  | .hash _ numPartitions | .roundRobin numPartitions _ => numPartitions

/-- The indices of the rows of each partition. -/
def hashIndices (numPartitions : Nat) (hashes : List UInt64) : List (List Nat) :=
  hashes.zipIdx.foldl (fun indices x => indices.modify (x.1.toNat % numPartitions) (· ++ [x.2]))
    (List.replicate numPartitions [])

/-- `take_arrays`. -/
def takeRows (batch : List ρ) (indices : List Nat) : List ρ := indices.filterMap (batch[·]?)

/-- The parts of a batch that are not empty, with their partitions. -/
def partitionIter (batch : List ρ) :
    BatchPartitioner ρ ε → Except ε (List (Nat × List ρ) × BatchPartitioner ρ ε)
  | .roundRobin numPartitions nextIdx =>
    .ok ([(nextIdx, batch)], .roundRobin numPartitions ((nextIdx + 1) % numPartitions))
  | .hash hashRow numPartitions => do
    let hashes ← batch.mapM hashRow
    let partitions := (hashIndices numPartitions hashes).zipIdx.filterMap fun x =>
      if x.1.isEmpty then none else some (x.2, takeRows batch x.1)
    .ok (partitions, .hash hashRow numPartitions)

/-- What a stream is partitioned into, up to where it fails, and the error. -/
def pieces : BatchPartitioner ρ ε → List (Except ε (List ρ)) → List (Nat × List ρ) × Option ε
  | _, [] => ([], none)
  | _, .error e :: _ => ([], some e)
  | b, .ok batch :: stream =>
    if batch.isEmpty then b.pieces stream
    else match b.partitionIter batch with
      | .error e => ([], some e)
      | .ok (partitions, b') => (b'.pieces stream).map (partitions ++ ·) id

/-! ## Hash partitioning -/

/-- The row goes to the partition. -/
def routes (hashRow : ρ → Except ε UInt64) (numPartitions partition : Nat) (r : ρ) : Bool :=
  match hashRow r with
  | .ok x => x.toNat % numPartitions == partition
  | .error _ => false

theorem foldl_modify {α : Type} {n : Nat} (xs : List (UInt64 × α)) (acc : List (List α))
    (p : Nat) :
    (xs.foldl (fun indices x => indices.modify (x.1.toNat % n) (· ++ [x.2])) acc)[p]? =
      acc[p]?.map (· ++ (xs.filter fun x => x.1.toNat % n == p).map (·.2)) := by
  induction xs generalizing acc with
  | nil => simp
  | cons x xs ih =>
    rw [List.foldl_cons, ih, List.getElem?_modify]
    by_cases hp : x.1.toNat % n = p
    · cases hacc : acc[p]? <;> simp [hp]
    · cases hacc : acc[p]? <;> simp [hp]

theorem getElem?_hashIndices {n p : Nat} (hp : p < n) (hashes : List UInt64) :
    (hashIndices n hashes)[p]? =
      some ((hashes.zipIdx.filter fun x => x.1.toNat % n == p).map (·.2)) := by
  rw [hashIndices, foldl_modify]
  simp [hp]

theorem length_hashIndices (n : Nat) (hashes : List UInt64) :
    (hashIndices n hashes).length = n := by
  rw [hashIndices]
  generalize hacc : List.replicate n ([] : List Nat) = acc
  have hlen : acc.length = n := by simp [← hacc]
  clear hacc
  induction hashes.zipIdx generalizing acc with
  | nil => exact hlen
  | cons x xs ih => exact ih _ (by simp [hlen])

/-- The rows at the indices of a partition are those that go there. -/
theorem takeRows_indices {hashRow : ρ → Except ε UInt64} {n p : Nat} (pre : List ρ) {batch : List ρ}
    {hashes : List UInt64} (h : List.Forall₂ (fun r x => hashRow r = .ok x) batch hashes) :
    takeRows (pre ++ batch)
        (((hashes.zipIdx pre.length).filter fun x => x.1.toNat % n == p).map (·.2)) =
      batch.filter (routes hashRow n p) := by
  induction h generalizing pre with
  | nil => rfl
  | @cons r x batch hashes hr h ih =>
    have hrest := ih (pre ++ [r])
    rw [List.append_assoc, List.singleton_append, List.length_append, List.length_singleton]
      at hrest
    have hroute : routes hashRow n p r = (x.toNat % n == p) := by rw [routes, hr]
    rw [List.zipIdx_cons, List.filter_cons, List.filter_cons, hroute]
    split_ifs
    · rw [List.map_cons, takeRows, List.filterMap_cons_some (b := r) (by simp), ← hrest]
      rfl
    · exact hrest

/-- The first part counts where it has the partition. -/
theorem filterMap_zipIdx_cons {α β : Type} {f : List α → List β} (hf : f [] = []) (x : List α)
    (xs : List (List α)) (k p : Nat) :
    ((((x :: xs).zipIdx k).filterMap fun x =>
        if x.1.isEmpty then none else some (x.2, f x.1)).filter (·.1 == p)).flatMap (·.2) =
      (if k = p then f x else []) ++
        (((xs.zipIdx (k + 1)).filterMap fun x =>
          if x.1.isEmpty then none else some (x.2, f x.1)).filter (·.1 == p)).flatMap (·.2) := by
  rw [List.zipIdx_cons, List.filterMap_cons]
  cases x with
  | nil => simp only [List.isEmpty_nil, if_true, hf, ite_self, List.nil_append]
  | cons a x =>
    simp only [List.isEmpty_cons, Bool.false_eq_true, if_false, List.filter_cons, beq_iff_eq]
    split_ifs
    · rw [List.flatMap_cons]
    · rfl

/-- The parts with a given partition, out of the parts with their numbers. -/
theorem filterMap_zipIdx_filter {α β : Type} {f : List α → List β} (hf : f [] = [])
    (xs : List (List α)) (k p : Nat) :
    ((((xs.zipIdx k).filterMap fun x => if x.1.isEmpty then none else some (x.2, f x.1)).filter
      (·.1 == p)).flatMap (·.2)) = if p < k then [] else (xs[p - k]?.map f).getD [] := by
  induction xs generalizing k with
  | nil => simp
  | cons x xs ih =>
    rw [filterMap_zipIdx_cons hf, ih (k + 1)]
    rcases Nat.lt_trichotomy p k with hlt | rfl | hgt
    · rw [if_neg hlt.ne', if_pos (Nat.lt_succ_of_lt hlt), if_pos hlt, List.append_nil]
    · rw [if_pos rfl, if_pos (Nat.lt_succ_self p), if_neg (lt_irrefl p), List.append_nil,
        Nat.sub_self, List.getElem?_cons_zero, Option.map_some, Option.getD_some]
    · have hsub : p - k = (p - (k + 1)) + 1 := by omega
      rw [if_neg hgt.ne, if_neg (not_lt.2 hgt), if_neg hgt.not_gt, hsub,
        List.getElem?_cons_succ, List.nil_append]

theorem partitionIter_hash {hashRow : ρ → Except ε UInt64} {n : Nat} {batch : List ρ}
    {xs : List (Nat × List ρ)} {b : BatchPartitioner ρ ε}
    (h : (hash hashRow n).partitionIter batch = .ok (xs, b)) :
    b = hash hashRow n ∧ (∀ x ∈ xs, x.1 < n) ∧ xs.length ≤ n ∧
      ∀ p < n, (xs.filter (·.1 == p)).flatMap (·.2) = batch.filter (routes hashRow n p) := by
  obtain ⟨hashes, hhashes, h⟩ := Fallible.bind_eq_ok h
  cases h
  have hlen := length_hashIndices n hashes
  refine ⟨rfl, fun x hx => ?_, ?_, fun p hp => ?_⟩
  · obtain ⟨y, hy, hx⟩ := List.mem_filterMap.1 hx
    have hlt := List.snd_lt_of_mem_zipIdx hy
    split_ifs at hx
    cases hx
    simpa [hlen] using hlt
  · refine (List.length_filterMap_le _ _).trans ?_
    rw [List.length_zipIdx, hlen]
  · have hrows := takeRows_indices (n := n) (p := p) [] (forall₂_of_mapM_eq_ok hhashes)
    rw [filterMap_zipIdx_filter (f := takeRows batch) rfl, if_neg (Nat.not_lt_zero p), Nat.sub_zero,
      getElem?_hashIndices hp]
    exact hrows

/-! ## Streams -/

/-- The rows of a stream up to where it fails. -/
def streamRows : List (Except ε (List ρ)) → List ρ
  | .ok batch :: stream => batch ++ streamRows stream
  | _ => []

/-- **Every row goes to the partition of its hash**, and to no other, up to where the stream
fails. -/
theorem pieces_hash_rows (hashRow : ρ → Except ε UInt64) (n : Nat)
    (stream : List (Except ε (List ρ))) :
    (∀ x ∈ ((hash hashRow n).pieces stream).1, x.1 < n) ∧
      ∀ p < n, (((hash hashRow n).pieces stream).1.filter (·.1 == p)).flatMap (·.2) <+:
          (streamRows stream).filter (routes hashRow n p) ∧
        (((hash hashRow n).pieces stream).2 = none →
          (((hash hashRow n).pieces stream).1.filter (·.1 == p)).flatMap (·.2) =
            (streamRows stream).filter (routes hashRow n p)) := by
  induction stream with
  | nil => simp [pieces, streamRows]
  | cons item stream ih =>
    cases item with
    | error e => simp [pieces, streamRows]
    | ok batch =>
      rw [pieces]
      split_ifs with hempty
      · rw [List.isEmpty_iff.1 hempty, streamRows, List.nil_append]
        exact ih
      · split
        · simp
        · rename_i ys b hys
          obtain ⟨rfl, hlt, -, hrows⟩ := partitionIter_hash hys
          obtain ⟨hrestlt, hrest⟩ := ih
          refine ⟨fun x hx => (List.mem_append.1 hx).elim (hlt x) (hrestlt x), fun p hp => ?_⟩
          rw [Prod.map_fst, List.filter_append, List.flatMap_append, hrows p hp, streamRows,
            List.filter_append, List.append_cancel_left_eq]
          exact ⟨(List.prefix_append_right_inj _).2 (hrest p hp).1, (hrest p hp).2⟩

/-- **Every partition has its turn**: a round-robin partitioner keeps all rows in order, and the
`k`-th batch goes to the `k`-th partition after the first, going round. -/
theorem pieces_roundRobin {n next : Nat} (hnext : next < n) (stream : List (Except ε (List ρ))) :
    ((roundRobin n next).pieces stream).1.flatMap (·.2) = streamRows stream ∧
      ∀ k x, ((roundRobin n next).pieces stream).1[k]? = some x → x.1 = (next + k) % n := by
  induction stream generalizing next with
  | nil => simp [pieces, streamRows]
  | cons item stream ih =>
    cases item with
    | error e => simp [pieces, streamRows]
    | ok batch =>
      rw [pieces]
      split_ifs with hempty
      · rw [List.isEmpty_iff.1 hempty, streamRows, List.nil_append]
        exact ih hnext
      · obtain ⟨hrows, hturn⟩ := ih (Nat.mod_lt (next + 1) (Nat.zero_lt_of_lt hnext))
        simp only [partitionIter, Prod.map_fst, List.cons_append, List.nil_append]
        refine ⟨by simp [hrows, streamRows], fun k x hx => ?_⟩
        cases k with
        | zero =>
          cases hx
          exact (Nat.mod_eq_of_lt hnext).symm
        | succ k =>
          rw [hturn k x hx, Nat.mod_add_mod]
          congr 1
          omega

/-- A round-robin partitioner starts at one of its partitions. -/
theorem start_lt {input inputs n : Nat} (hinput : input < inputs) (hn : 0 < n) :
    input * n / inputs < n :=
  Nat.div_lt_of_lt_mul ((Nat.mul_lt_mul_right hn).2 hinput)

/-- The parts of a batch all have a partition, and there are no more parts than partitions. -/
structure Fits (n : Nat) (b : BatchPartitioner ρ ε) : Prop where
  count : b.numPartitions = n
  next : ∀ {m next}, b = roundRobin m next → next < m

theorem fits_tryNew {p : Partitioning ρ ε} {input inputs : Nat} {b : BatchPartitioner ρ ε}
    (hinput : input < inputs) (hn : 0 < p.partitionCount) (h : tryNew input inputs p = .ok b) :
    b.Fits p.partitionCount := by
  cases p with
  | hash hashRow n =>
    cases h
    exact ⟨rfl, fun h => (by cases h)⟩
  | roundRobinBatch n =>
    cases h
    refine ⟨rfl, fun h => ?_⟩
    cases h
    exact start_lt hinput hn
  | unknownPartitioning n e => cases h

theorem Fits.partitionIter {n : Nat} {b b' : BatchPartitioner ρ ε} {batch : List ρ}
    {xs : List (Nat × List ρ)} (h : b.Fits n) (hn : 0 < n)
    (hxs : b.partitionIter batch = .ok (xs, b')) :
    b'.Fits n ∧ (∀ x ∈ xs, x.1 < n) ∧ xs.length ≤ n := by
  cases b with
  | hash hashRow m =>
    obtain ⟨rfl, hlt, hlen, -⟩ := partitionIter_hash hxs
    have hm : m = n := h.count
    exact ⟨h, fun x hx => hm ▸ hlt x hx, hm ▸ hlen⟩
  | roundRobin m next =>
    cases hxs
    have hm : m = n := h.count
    subst hm
    refine ⟨⟨rfl, fun heq => ?_⟩, fun x hx => ?_, hn⟩
    · cases heq
      exact Nat.mod_lt _ hn
    · rw [List.mem_singleton.1 hx]
      exact h.next rfl

end BatchPartitioner

end PredicateTransfer.Repartition
