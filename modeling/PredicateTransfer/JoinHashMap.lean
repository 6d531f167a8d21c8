import PredicateTransfer.Lib.Chunks
import PredicateTransfer.Lib.ChainedTable

/-!
# The chained hash table of a hash join

`JoinHashMapU32` and `JoinHashMapU64` map a hash to the last row inserted with it, and chain the
rows of one hash through `next`. A probe asks for the candidates of a batch of hashes in chunks of
at most `limit` pairs (`getMatchedIndicesWithLimitOffset`); an offset is a probe row, with the
position in its chain if the chunk ended within it.

The result is an equation of lists (`getMatchedIndices_yields`): over all chunks, the candidates
of a probe row are the rows of its hash, last inserted first, and probe rows come in order. Two
loops produce them. When no two rows share a hash the chains are not followed, and a chunk is cut
after `limit` probe rows instead of `limit` pairs.

A table index is stored plus one, `0` ends a chain. An index outside the tables and the underflow
of a counter are panics, `none` here.
-/

namespace PredicateTransfer

open ChainedTable Chunks

/-- `MapOffset`. -/
abbrev MapOffset := Nat × Option Nat

/-! ## Following a chain -/

/-- `traverse_chain`, with `remaining` and the chain index as arguments: the pairs pushed, what
remains, and the offset returned. -/
def traverseChain (nextChain : List Nat) (probIdx : Nat) (isLastInput : Bool) :
    Nat → Nat → Option (List (Nat × Nat) × Nat × Option MapOffset)
  | remaining + 1, matchRowIdx + 1 => do
    let next ← nextChain[matchRowIdx]?
    if remaining = 0 then
      -- Limit reached, return the offset for the next call.
      return ([(probIdx, matchRowIdx)], 0,
        if isLastInput && next == 0 then none else some (probIdx, some next))
    else if next = 0 then return ([(probIdx, matchRowIdx)], remaining, none)
    else do
      let (found, left, offset) ← traverseChain nextChain probIdx isLastInput remaining next
      return ((probIdx, matchRowIdx) :: found, left, offset)
  | _, _ => none

/-- The pairs of one probe row with the rows of a chain. -/
def rowPairs (probIdx : Nat) (rows : List Nat) : List (Nat × Nat) := rows.map (probIdx, ·)

@[simp] theorem length_rowPairs (probIdx : Nat) (rows : List Nat) :
    (rowPairs probIdx rows).length = rows.length := List.length_map _

@[simp] theorem rowPairs_nil (probIdx : Nat) : rowPairs probIdx [] = [] := rfl

theorem rowPairs_append (probIdx : Nat) (rows rows' : List Nat) :
    rowPairs probIdx (rows ++ rows') = rowPairs probIdx rows ++ rowPairs probIdx rows' :=
  List.map_append

/-- A call takes as much of the chain as remains, and returns an offset exactly when nothing
remains and there may be more to do. -/
theorem traverseChain_eq {nextChain : List Nat} {head : Nat} {rows : List Nat}
    (h : Chain nextChain head rows) (hrows : rows ≠ []) (probIdx : Nat) (isLastInput : Bool)
    {remaining : Nat} (hremaining : 0 < remaining) :
    ∃ head', Chain nextChain head' (rows.drop remaining) ∧
      traverseChain nextChain probIdx isLastInput remaining head =
        some (rowPairs probIdx (rows.take remaining), remaining - rows.length,
          if rows.length < remaining ∨ isLastInput ∧ rows.length = remaining then none
          else some (probIdx, some head')) := by
  induction h generalizing remaining with
  | nil => exact absurd rfl hrows
  | @cons i n rows hnext hchain ih =>
    obtain ⟨left, rfl⟩ : ∃ left, remaining = left + 1 := ⟨remaining - 1, by omega⟩
    by_cases hleft : left = 0
    · subst hleft
      refine ⟨n, hchain, ?_⟩
      cases hchain with
      | nil => cases isLastInput <;> simp [traverseChain, hnext, rowPairs]
      | cons _ _ => simp [traverseChain, hnext, rowPairs]
    · cases hchain with
      | nil =>
        refine ⟨0, by simpa using Chain.nil, ?_⟩
        have htake : [i].take (left + 1) = [i] := List.take_of_length_le (by simp)
        have hlt : 0 < left := Nat.pos_of_ne_zero hleft
        simp [traverseChain, hnext, hleft, htake, rowPairs, hlt]
      | @cons i' n' rows' hnext' hchain' =>
        obtain ⟨head', hhead', heq⟩ :=
          ih (List.cons_ne_nil _ _) (Nat.pos_of_ne_zero hleft)
        refine ⟨head', hhead', ?_⟩
        rw [traverseChain, hnext]
        simp only [bind, Option.bind, if_neg hleft, Nat.succ_ne_zero, if_false, heq,
          List.take_succ_cons, List.length_cons, Nat.add_sub_add_right, rowPairs, List.map_cons,
          Nat.add_lt_add_iff_right, Nat.add_right_cancel_iff, pure]

/-! ## The table -/

/-- `JoinHashMapU32` or `JoinHashMapU64`: the entries of its `HashTable` and the chains. -/
structure JoinHashMap where
  map : List (UInt64 × Nat)
  next : List Nat
  deriving DecidableEq, Repr

namespace JoinHashMap

/-- `with_capacity`. -/
def withCapacity (cap : Nat) : JoinHashMap := ⟨[], List.replicate cap 0⟩

/-- `map.find`. -/
def find (m : JoinHashMap) (hash : UInt64) : Option Nat :=
  (m.map.find? (·.1 == hash)).map (·.2)

/-- One turn of the loop of `update_from_iter`, with a `deleted_offset` of 0. -/
def update (m : JoinHashMap) (x : Nat × UInt64) : JoinHashMap :=
  match m.find x.2 with
  | some prevIndex =>
    ⟨m.map.map fun e => if e.1 = x.2 then (e.1, x.1 + 1) else e, m.next.set x.1 prevIndex⟩
  | none => ⟨m.map ++ [(x.2, x.1 + 1)], m.next⟩

/-- `update_from_iter`. -/
def updateFromIter (m : JoinHashMap) (iter : List (Nat × UInt64)) : JoinHashMap :=
  iter.foldl update m

/-- `is_empty`. -/
def isEmpty (m : JoinHashMap) : Bool := m.map.isEmpty

/-- `contain_hashes`, for one hash. -/
def containHash (m : JoinHashMap) (hash : UInt64) : Bool := (m.find hash).isSome

/-- The loop over the probe rows from `rowIdx` on, given the number of all of them. -/
def lookupRows (m : JoinHashMap) (len : Nat) :
    Nat → List UInt64 → Nat → Option (List (Nat × Nat) × Option MapOffset)
  | _, [], _ => some ([], none)
  | rowIdx, hash :: hashes, remaining =>
    match m.find hash with
    | none => lookupRows m len (rowIdx + 1) hashes remaining
    | some idx => do
      let (found, left, offset) ←
        traverseChain m.next rowIdx (rowIdx == len - 1) remaining idx
      match offset with
      | some o => return (found, some o)
      | none => do
        let (rest, o) ← lookupRows m len (rowIdx + 1) hashes left
        return (found ++ rest, o)

/-- `get_matched_indices_with_limit_offset`: pairs of a probe row and a build row. -/
def getMatchedIndicesWithLimitOffset (m : JoinHashMap) (hashValues : List UInt64) (limit : Nat)
    (offset : MapOffset) : Option (List (Nat × Nat) × Option MapOffset) :=
  let len := hashValues.length
  if m.map.length = m.next.length then
    -- All hashes are different, so that there are no chains to follow.
    let start := offset.1
    let stop := min (start + limit) len
    if stop < start then none
    else
      let found := (((hashValues.take stop).drop start).zipIdx start).filterMap fun x =>
        (m.find x.1).map fun idx => (x.2, idx - 1)
      some (found, if stop = len then none else some (stop, none))
  else match offset with
    | (idx, none) =>
      if len < idx then none else m.lookupRows len idx (hashValues.drop idx) limit
    | (idx, some 0) =>
      if len < idx + 1 then none else m.lookupRows len (idx + 1) (hashValues.drop (idx + 1)) limit
    | (idx, some (next + 1)) => do
      let (found, left, o) ← traverseChain m.next idx (idx == len - 1) limit (next + 1)
      match o with
      | some o => return (found, some o)
      | none =>
        if len < idx + 1 then none
        else do
          let (rest, o) ← m.lookupRows len (idx + 1) (hashValues.drop (idx + 1)) left
          return (found ++ rest, o)

end JoinHashMap

/-! ## What is left at an offset -/

section
variable {η : Type} (rowsOf : η → List Nat)

/-- The candidate pairs of the given probe values, the first of which is row `i`. -/
def matchesFrom : Nat → List η → List (Nat × Nat)
  | _, [] => []
  | i, x :: xs => rowPairs i (rowsOf x) ++ matchesFrom (i + 1) xs

theorem matchesFrom_map {θ : Type} (f : θ → η) (i : Nat) (xs : List θ) :
    matchesFrom rowsOf i (xs.map f) = matchesFrom (fun x => rowsOf (f x)) i xs := by
  induction xs generalizing i with
  | nil => rfl
  | cons x xs ih => rw [List.map_cons, matchesFrom, matchesFrom, ih]

theorem mem_matchesFrom {i : Nat} {xs : List η} {p b : Nat} :
    (p, b) ∈ matchesFrom rowsOf i xs ↔
      i ≤ p ∧ ∃ x, xs[p - i]? = some x ∧ b ∈ rowsOf x := by
  induction xs generalizing i with
  | nil => simp [matchesFrom]
  | cons x xs ih =>
    rw [matchesFrom, List.mem_append, ih, rowPairs, List.mem_map]
    constructor
    · rintro (⟨b', hb', heq⟩ | ⟨hle, y, hy, hb⟩)
      · cases heq
        exact ⟨le_rfl, x, by simp, hb'⟩
      · have hidx : p - i = (p - (i + 1)) + 1 := by omega
        exact ⟨by omega, y, by rw [hidx, List.getElem?_cons_succ, hy], hb⟩
    · rintro ⟨hle, y, hy, hb⟩
      by_cases hp : p = i
      · subst hp
        rw [Nat.sub_self, List.getElem?_cons_zero, Option.some_inj] at hy
        subst hy
        exact .inl ⟨b, hb, rfl⟩
      · have hidx : p - i = (p - (i + 1)) + 1 := by omega
        rw [hidx, List.getElem?_cons_succ] at hy
        exact .inr ⟨by omega, y, hy, hb⟩

/-- Filtering the candidates row by row. -/
theorem filter_matchesFrom {θ : Type} {rowsOf' : θ → List Nat} {q : Nat × Nat → Bool}
    {g : Nat → Nat} {i : Nat} {xs : List η} {ys : List θ} (hlen : xs.length = ys.length)
    (h : ∀ j x y, xs[j]? = some x → ys[j]? = some y →
      (rowsOf x).filter (fun b => q (i + j, b)) = (rowsOf' y).map g) :
    (matchesFrom rowsOf i xs).filter q = (matchesFrom rowsOf' i ys).map (Prod.map id g) := by
  induction xs generalizing i ys with
  | nil =>
    cases ys with
    | nil => rfl
    | cons _ _ => cases hlen
  | cons x xs ih =>
    cases ys with
    | nil => cases hlen
    | cons y ys =>
      rw [matchesFrom, matchesFrom, List.filter_append, List.map_append]
      congr 1
      · have hrow := h 0 x y rfl rfl
        rw [rowPairs, rowPairs, List.filter_map, List.map_map]
        rw [Nat.add_zero] at hrow
        have hcomp : (Prod.map id g ∘ fun b => (i, b)) = (fun b => (i, b)) ∘ g := rfl
        rw [hcomp, ← List.map_map, ← hrow]
        rfl
      · refine ih (Nat.succ.inj hlen) fun j x' y' hx hy => ?_
        have hrow := h (j + 1) x' y' hx hy
        rwa [Nat.add_comm j 1, ← Nat.add_assoc] at hrow

theorem matchesFrom_append (i : Nat) (xs ys : List η) :
    matchesFrom rowsOf i (xs ++ ys) =
      matchesFrom rowsOf i xs ++ matchesFrom rowsOf (i + xs.length) ys := by
  induction xs generalizing i with
  | nil => rfl
  | cons x xs ih =>
    rw [List.cons_append, matchesFrom, matchesFrom, ih, List.append_assoc, List.length_cons,
      Nat.add_right_comm, Nat.add_assoc]

theorem matchesFrom_eq_flatMap (i : Nat) (xs : List η) :
    matchesFrom rowsOf i xs = (xs.zipIdx i).flatMap fun x => rowPairs x.2 (rowsOf x.1) := by
  induction xs generalizing i with
  | nil => rfl
  | cons x xs ih => rw [matchesFrom, ih, List.zipIdx_cons, List.flatMap_cons]

/-- What is left of the candidates of the probe values at an offset: all of a row on, or the rest
of a row's chain and all after it. -/
inductive LeftAt (next : List Nat) (xs : List η) : MapOffset → List (Nat × Nat) → Prop
  | row {i : Nat} (hi : i ≤ xs.length) :
      LeftAt next xs (i, none) (matchesFrom rowsOf i (xs.drop i))
  | chain {i head : Nat} {rows : List Nat} (hi : i < xs.length) (hrows : Chain next head rows) :
      LeftAt next xs (i, some head)
        (rowPairs i rows ++ matchesFrom rowsOf (i + 1) (xs.drop (i + 1)))

/-- What is left at an offset that is always a row. -/
def LeftAtRow (xs : List η) (o : MapOffset) (l : List (Nat × Nat)) : Prop :=
  ∃ i ≤ xs.length, o = (i, none) ∧ l = matchesFrom rowsOf i (xs.drop i)

/-- A loop with room for `remaining` pairs hands out all of `l`, or fills the room and leaves the
rest. -/
inductive Outcome (Left : MapOffset → List (Nat × Nat) → Prop) (l : List (Nat × Nat))
    (remaining : Nat) : Option (List (Nat × Nat) × Option MapOffset) → Prop
  | all (hle : l.length ≤ remaining) : Outcome Left l remaining (some (l, none))
  | cut {chunk l' : List (Nat × Nat)} {o : MapOffset} (hleft : Left o l') (hl : l = chunk ++ l')
      (hlen : chunk.length = remaining) : Outcome Left l remaining (some (chunk, some o))

end

section
variable {Left : MapOffset → List (Nat × Nat) → Prop} {l : List (Nat × Nat)}

/-- Pairs found before the loop come first and take their room. -/
theorem Outcome.append {left : Nat} {rest : List (Nat × Nat)} {o : Option MapOffset}
    (h : Outcome Left l left (some (rest, o))) (found : List (Nat × Nat)) {remaining : Nat}
    (hroom : remaining = found.length + left) :
    Outcome Left (found ++ l) remaining (some (found ++ rest, o)) := by
  subst hroom
  cases h with
  | all hle => exact .all (by rw [List.length_append]; omega)
  | cut hleft hl hlen =>
    refine .cut hleft ?_ ?_
    · rw [hl, List.append_assoc]
    · rw [List.length_append, hlen]

theorem Outcome.exists_some {remaining : Nat}
    {result : Option (List (Nat × Nat) × Option MapOffset)} (h : Outcome Left l remaining result) :
    ∃ chunk o, result = some (chunk, o) := by
  cases h with
  | all _ => exact ⟨_, _, rfl⟩
  | cut _ _ _ => exact ⟨_, _, rfl⟩

/-- With room for at least one pair a call makes progress. -/
theorem Outcome.step {fetch : MapOffset → Option (List (Nat × Nat) × Option MapOffset)}
    {limit : Nat} {o : MapOffset} (h : Outcome Left l limit (fetch o)) (hlimit : 0 < limit) :
    Step fetch limit Left (fun _ l => l.length) o l := by
  generalize hresult : fetch o = result at h
  cases h with
  | all hle => exact .last hresult hle
  | @cut chunk l' o' hleft hl hlen =>
    refine .more chunk l' o' hresult hlen.le hleft hl ?_
    rw [hl, List.length_append]
    omega

/-- Calls that each hand out all or fill their room hand out the whole list. -/
theorem yields_of_outcome {fetch : MapOffset → Option (List (Nat × Nat) × Option MapOffset)}
    {limit : Nat} (hlimit : 0 < limit)
    (h : ∀ o l, Left o l → Outcome Left l limit (fetch o)) {o : MapOffset} (ho : Left o l) :
    ∃ chunks, Yields fetch limit o chunks ∧ chunks.flatten = l :=
  yields_of_step (fun o l hleft => (h o l hleft).step hlimit) ho

/-- **Following one chain and then the later rows** takes the beginning of what both have. -/
theorem chain_outcome {η : Type} {rowsOf : η → List Nat} {next : List Nat} {xs : List η}
    {i head remaining : Nat} {rows : List Nat} (hchain : Chain next head rows) (hne : rows ≠ [])
    (hi : i < xs.length) (hpos : 0 < remaining)
    {later : Nat → Option (List (Nat × Nat) × Option MapOffset)}
    (hlater : ∀ left, 0 < left ∨ xs.drop (i + 1) = [] →
      Outcome (LeftAt rowsOf next xs) (matchesFrom rowsOf (i + 1) (xs.drop (i + 1))) left
        (later left)) :
    Outcome (LeftAt rowsOf next xs)
      (rowPairs i rows ++ matchesFrom rowsOf (i + 1) (xs.drop (i + 1))) remaining
      (do
        let (found, left, offset) ← traverseChain next i (i == xs.length - 1) remaining head
        match offset with
        | some o => return (found, some o)
        | none => do
          let (rest, o) ← later left
          return (found ++ rest, o)) := by
  obtain ⟨head', hhead', htraverse⟩ :=
    traverseChain_eq hchain hne i (i == xs.length - 1) hpos
  simp only [htraverse, bind, Option.bind]
  split_ifs with hall
  · -- The chain is done, and there is room for another pair or no further row.
    have htake : rows.take remaining = rows := List.take_of_length_le (by omega)
    have hroom : 0 < remaining - rows.length ∨ xs.drop (i + 1) = [] := by
      rcases hall with hlt | ⟨hlast, _⟩
      · exact .inl (by omega)
      · exact .inr (List.drop_eq_nil_of_le (by
          have hidx := eq_of_beq hlast
          omega))
    have hrest := hlater _ hroom
    obtain ⟨rest, o, hlookup⟩ := hrest.exists_some
    rw [hlookup] at hrest
    simp only [hlookup, htake]
    exact hrest.append _ (by rw [length_rowPairs]; omega)
  · have hle : remaining ≤ rows.length := by omega
    refine .cut (.chain hi hhead') ?_ ?_
    · rw [← List.append_assoc, ← rowPairs_append, List.take_append_drop]
    · rw [length_rowPairs, List.length_take, min_eq_left hle]

end

namespace JoinHashMap

/-! ## The chains of a table -/

/-- The table stores the entries: its chains do, and its keys are the hashes, each once. -/
structure Stores (m : JoinHashMap) (n : Nat) (entries : List (Nat × UInt64)) : Prop where
  represents : Represents (fun hash => (m.find hash).getD 0) m.next n entries
  nodup : (m.map.map (·.1)).Nodup
  mem_keys : ∀ hash, hash ∈ m.map.map (·.1) ↔ hash ∈ entries.map (·.2)

theorem find_eq_none_iff {m : JoinHashMap} {hash : UInt64} :
    m.find hash = none ↔ hash ∉ m.map.map (·.1) := by
  unfold find
  rw [Option.map_eq_none_iff, List.find?_eq_none, List.mem_map]
  constructor
  · rintro h ⟨e, he, rfl⟩
    exact h e he (beq_self_eq_true e.1)
  · intro h e he heq
    exact h ⟨e, he, eq_of_beq heq⟩

theorem find_update (m : JoinHashMap) (x : Nat × UInt64) (hash : UInt64) :
    (m.update x).find hash = if hash = x.2 then some (x.1 + 1) else m.find hash := by
  unfold update
  cases hfind : m.find x.2 with
  | none =>
    by_cases heq : hash = x.2
    · subst heq
      have hnone : m.map.find? (·.1 == x.2) = none := by
        simpa [find] using hfind
      simp [find, List.find?_append, hnone]
    · have hne : ¬ x.2 = hash := fun e => heq e.symm
      simp [find, List.find?_append, heq, hne]
  | some prev =>
    simp only [find, List.find?_map, Function.comp_def]
    by_cases heq : hash = x.2
    · subst heq
      obtain ⟨e, he, -⟩ := Option.map_eq_some_iff.1 hfind
      have hkey : e.1 = x.2 := by simpa using List.find?_some he
      have hsame : (fun e : UInt64 × Nat => (if e.1 = x.2 then (e.1, x.1 + 1) else e).1 == x.2) =
          fun e => e.1 == x.2 := by
        funext e
        split_ifs <;> rfl
      rw [hsame, he]
      simp [hkey]
    · have hsame : (fun e : UInt64 × Nat => (if e.1 = x.2 then (e.1, x.1 + 1) else e).1 == hash) =
          fun e => e.1 == hash := by
        funext e
        split_ifs <;> rfl
      rw [hsame, if_neg heq]
      cases he : m.map.find? (·.1 == hash) with
      | none => rfl
      | some e =>
        have hkey : e.1 = hash := by simpa using List.find?_some he
        simp [hkey, heq]

theorem keys_update (m : JoinHashMap) (x : Nat × UInt64) :
    (m.update x).map.map (·.1) =
      if x.2 ∈ m.map.map (·.1) then m.map.map (·.1) else m.map.map (·.1) ++ [x.2] := by
  unfold update
  cases hfind : m.find x.2 with
  | none =>
    rw [if_neg (find_eq_none_iff.1 hfind)]
    simp
  | some prev =>
    have hmem : x.2 ∈ m.map.map (·.1) := by
      by_contra hnot
      rw [find_eq_none_iff.2 hnot] at hfind
      cases hfind
    rw [if_pos hmem, List.map_map]
    congr 1
    funext e
    show (if e.1 = x.2 then (e.1, x.1 + 1) else e).1 = e.1
    split_ifs <;> rfl

theorem stores_empty (n : Nat) : (withCapacity n).Stores n [] where
  represents := represents_empty
  nodup := List.nodup_nil
  mem_keys _ := Iff.rfl

namespace Stores

variable {m : JoinHashMap} {n : Nat} {entries : List (Nat × UInt64)}

theorem update (h : m.Stores n entries) {x : Nat × UInt64} (hx : x.1 < n)
    (hfresh : x.1 ∉ entries.map (·.1)) : (m.update x).Stores n (entries ++ [x]) where
  represents := by
    have hheads : (fun hash => ((m.update x).find hash).getD 0) =
        Function.update (fun hash => (m.find hash).getD 0) x.2 (x.1 + 1) := by
      funext hash
      rw [find_update]
      by_cases heq : hash = x.2
      · simp [heq]
      · simp [heq]
    rw [hheads]
    cases hfind : m.find x.2 with
    | none =>
      have hnext : (m.update x).next = m.next := by simp [JoinHashMap.update, hfind]
      rw [hnext]
      exact h.represents.insert_vacant hx hfresh (by simp [hfind])
    | some prev =>
      have hnext : (m.update x).next = m.next.set x.1 ((m.find x.2).getD 0) := by
        simp [JoinHashMap.update, hfind]
      rw [hnext]
      exact h.represents.insert hx hfresh
  nodup := by
    rw [keys_update]
    split_ifs with hmem
    · exact h.nodup
    · refine List.Nodup.append h.nodup (List.nodup_singleton _) ?_
      simpa using hmem
  mem_keys hash := by
    rw [keys_update, List.map_append, List.mem_append, ← h.mem_keys]
    split_ifs with hmem
    · constructor
      · exact .inl
      · rintro (hin | hin)
        · exact hin
        · rw [List.mem_singleton.1 hin]
          exact hmem
    · simp

theorem updateFromIter (h : m.Stores n entries) {iter : List (Nat × UInt64)}
    (hlt : ∀ x ∈ iter, x.1 < n) (hnodup : ((entries ++ iter).map (·.1)).Nodup) :
    (m.updateFromIter iter).Stores n (entries ++ iter) := by
  induction iter generalizing m entries with
  | nil => simpa [JoinHashMap.updateFromIter] using h
  | cons x iter ih =>
    have hfresh : x.1 ∉ entries.map (·.1) := by
      rw [List.map_append, List.nodup_append] at hnodup
      intro hmem
      exact hnodup.2.2 _ hmem _ (List.mem_map_of_mem List.mem_cons_self) rfl
    have hstep := h.update (hlt x List.mem_cons_self) hfresh
    rw [List.append_cons]
    exact ih hstep (fun y hy => hlt y (List.mem_cons_of_mem _ hy)) (by
      rwa [← List.append_cons])

/-- The rows of one hash, last inserted first. -/
theorem chain (h : m.Stores n entries) (hash : UInt64) :
    Chain m.next ((m.find hash).getD 0) (bucket entries hash).reverse :=
  h.represents.chain hash

theorem find_eq_none (h : m.Stores n entries) {hash : UInt64} (hfind : m.find hash = none) :
    bucket entries hash = [] :=
  h.represents.heads_eq_zero_iff.1 (by simp [hfind])

theorem bucket_ne_nil (h : m.Stores n entries) {hash : UInt64} {idx : Nat}
    (hfind : m.find hash = some idx) : bucket entries hash ≠ [] := by
  intro hnil
  have hmem : hash ∈ m.map.map (·.1) := by
    by_contra hnot
    rw [find_eq_none_iff.2 hnot] at hfind
    cases hfind
  rw [h.mem_keys, List.mem_map] at hmem
  obtain ⟨x, hx, rfl⟩ := hmem
  have hrow : x.1 ∈ bucket entries x.2 := mem_bucket.2 hx
  rw [hnil] at hrow
  cases hrow

/-- A table with as many hashes as rows has one row for each hash. -/
theorem nodup_hashes (h : m.Stores n entries) (hlen : m.map.length = entries.length) :
    (entries.map (·.2)).Nodup := by
  have hsub : m.map.map (·.1) ⊆ entries.map (·.2) := fun hash hmem => (h.mem_keys hash).1 hmem
  have hperm := (List.subperm_of_subset h.nodup hsub).perm_of_length_le (by simp [hlen])
  exact hperm.nodup_iff.1 h.nodup

theorem length_bucket_le_one (h : m.Stores n entries) (hlen : m.map.length = entries.length)
    (hash : UInt64) : (bucket entries hash).length ≤ 1 := by
  have hcount := List.nodup_iff_count_le_one.1 (h.nodup_hashes hlen) hash
  rw [bucket, List.length_map, ← List.countP_eq_length_filter]
  rw [List.count, List.countP_map] at hcount
  have hsame : ((· == hash) ∘ fun x : Nat × UInt64 => x.2) = fun x => decide (x.2 = hash) := by
    funext x
    by_cases hx : x.2 = hash <;> simp [hx]
  rwa [hsame] at hcount

end Stores

/-! ## The lookup -/

section
variable {m : JoinHashMap} {n : Nat} {entries : List (Nat × UInt64)} {hashValues : List UInt64}

/-- The loop over the rows from `rowIdx` on. -/
theorem lookupRows_outcome (h : m.Stores n entries) {rowIdx remaining : Nat}
    {hashes : List UInt64} (hdrop : hashValues.drop rowIdx = hashes)
    (hroom : 0 < remaining ∨ hashes = []) :
    Outcome (LeftAt (fun hash => (bucket entries hash).reverse) m.next hashValues)
      (matchesFrom (fun hash => (bucket entries hash).reverse) rowIdx hashes) remaining
      (m.lookupRows hashValues.length rowIdx hashes remaining) := by
  induction hashes generalizing rowIdx remaining with
  | nil => exact .all (Nat.zero_le _)
  | cons hash hashes ih =>
    have hpos : 0 < remaining := hroom.resolve_right (List.cons_ne_nil _ _)
    have hlen := congrArg List.length hdrop
    simp only [List.length_drop, List.length_cons] at hlen
    have hdrop' : hashValues.drop (rowIdx + 1) = hashes := by
      rw [← List.tail_drop, hdrop, List.tail_cons]
    rw [matchesFrom, lookupRows]
    cases hfind : m.find hash with
    | none =>
      rw [h.find_eq_none hfind]
      exact ih hdrop' (.inl hpos)
    | some idx =>
      have hchain := h.chain hash
      rw [hfind, Option.getD_some] at hchain
      have hne : (bucket entries hash).reverse ≠ [] :=
        fun hnil => h.bucket_ne_nil hfind (List.reverse_eq_nil_iff.1 hnil)
      subst hdrop'
      exact chain_outcome hchain hne (by omega) hpos fun left hleft => ih rfl hleft

/-- A call when some hash has several rows. -/
theorem lookup_outcome (h : m.Stores n entries) (hdup : m.map.length ≠ m.next.length)
    {limit : Nat} (hlimit : 0 < limit) {o : MapOffset} {l : List (Nat × Nat)}
    (hleft : LeftAt (fun hash => (bucket entries hash).reverse) m.next hashValues o l) :
    Outcome (LeftAt (fun hash => (bucket entries hash).reverse) m.next hashValues) l limit
      (m.getMatchedIndicesWithLimitOffset hashValues limit o) := by
  simp only [getMatchedIndicesWithLimitOffset, if_neg hdup]
  cases hleft with
  | @row i hi =>
    simp only [if_neg hi.not_gt]
    exact lookupRows_outcome h rfl (.inl hlimit)
  | @chain i head rows hi hrows =>
    cases hrows with
    | nil =>
      simp only [if_neg (Nat.succ_le_of_lt hi).not_gt]
      exact lookupRows_outcome h rfl (.inl hlimit)
    | @cons j n' rows hnext hrest =>
      simp only [if_neg (Nat.succ_le_of_lt hi).not_gt]
      exact chain_outcome (.cons hnext hrest) (List.cons_ne_nil _ _) hi hlimit
        fun left hleft => lookupRows_outcome h rfl hleft

/-- Without chains to follow, a row's candidates are the one row of its hash. -/
theorem found_eq_matchesFrom (h : m.Stores n entries) (hlen : m.map.length = entries.length)
    (i : Nat) (hashes : List UInt64) :
    ((hashes.zipIdx i).filterMap fun x => (m.find x.1).map fun idx => (x.2, idx - 1)) =
      matchesFrom (fun hash => (bucket entries hash).reverse) i hashes := by
  induction hashes generalizing i with
  | nil => rfl
  | cons hash hashes ih =>
    rw [List.zipIdx_cons, matchesFrom, List.filterMap_cons, ih]
    have hchain := h.chain hash
    cases hfind : m.find hash with
    | none => simp [h.find_eq_none hfind]
    | some idx =>
      have hone := h.length_bucket_le_one hlen hash
      have hne := h.bucket_ne_nil hfind
      obtain ⟨r, hr⟩ := List.length_eq_one_iff.1
        (le_antisymm hone (List.length_pos_iff.2 hne))
      rw [hfind, hr] at hchain
      rw [hr]
      cases hchain with
      | cons _ _ => rfl

/-- A call when all hashes are different: the candidates of the next `limit` rows. -/
theorem lookup_step_of_unique (h : m.Stores n entries) (hn : entries.length = n)
    (hunique : m.map.length = m.next.length) {limit : Nat} (hlimit : 0 < limit) {o : MapOffset}
    {l : List (Nat × Nat)}
    (hleft : LeftAtRow (fun hash => (bucket entries hash).reverse) hashValues o l) :
    Step (m.getMatchedIndicesWithLimitOffset hashValues limit) limit
      (LeftAtRow (fun hash => (bucket entries hash).reverse) hashValues)
      (fun o _ => hashValues.length - o.1) o l := by
  obtain ⟨i, hi, rfl, rfl⟩ := hleft
  have hlen : m.map.length = entries.length := by rw [hunique, h.represents.length, hn]
  let stop := min (i + limit) hashValues.length
  have hstop : ¬ stop < i := by omega
  have hlookup : m.getMatchedIndicesWithLimitOffset hashValues limit (i, none) =
      some (matchesFrom (fun hash => (bucket entries hash).reverse) i
        ((hashValues.take stop).drop i),
        if stop = hashValues.length then none else some (stop, none)) := by
    rw [← found_eq_matchesFrom h hlen]
    simp only [getMatchedIndicesWithLimitOffset, if_pos hunique]
    exact if_neg hstop
  have hlimit' : (matchesFrom (fun hash => (bucket entries hash).reverse) i
      ((hashValues.take stop).drop i)).length ≤ limit := by
    rw [← found_eq_matchesFrom h hlen]
    refine (List.length_filterMap_le _ _).trans ?_
    rw [List.length_zipIdx, List.length_drop, List.length_take]
    omega
  by_cases hend : stop = hashValues.length
  · rw [if_pos hend, hend, List.take_length] at hlookup
    rw [hend, List.take_length] at hlimit'
    exact .last hlookup hlimit'
  · rw [if_neg hend] at hlookup
    refine .more _ _ (stop, none) hlookup hlimit' ⟨stop, min_le_right _ _, rfl, rfl⟩ ?_ ?_
    · have hsplit : hashValues.drop i = (hashValues.take stop).drop i ++ hashValues.drop stop := by
        conv_lhs => rw [← List.take_append_drop stop hashValues]
        rw [List.drop_append_of_le_length (by rw [List.length_take]; omega)]
      rw [hsplit, matchesFrom_append, List.length_drop, List.length_take]
      congr 2
      omega
    · show hashValues.length - stop < hashValues.length - i
      omega

/-- **The candidates of a batch.** Whatever the limit, the chunks together are, for each probe row
in order, the rows inserted with its hash, the last one first. -/
theorem getMatchedIndices_yields (h : m.Stores n entries) (hn : entries.length = n)
    (hashValues : List UInt64) {limit : Nat} (hlimit : 0 < limit) :
    ∃ chunks, Yields (m.getMatchedIndicesWithLimitOffset hashValues limit) limit (0, none) chunks ∧
      chunks.flatten =
        matchesFrom (fun hash => (bucket entries hash).reverse) 0 hashValues := by
  by_cases hunique : m.map.length = m.next.length
  · have hstart : LeftAtRow (fun hash => (bucket entries hash).reverse) hashValues (0, none)
        (matchesFrom (fun hash => (bucket entries hash).reverse) 0 hashValues) :=
      ⟨0, Nat.zero_le _, rfl, rfl⟩
    exact yields_of_step (fun o l hleft => lookup_step_of_unique h hn hunique hlimit hleft) hstart
  · exact yields_of_outcome hlimit (fun o l hleft => lookup_outcome h hunique hlimit hleft)
      (.row (Nat.zero_le _))

end

/-! ## Building from batches -/

/-- `update_hash` on the hashes of one batch, rows in reverse (`fifo_hashmap`). -/
def updateHash (m : JoinHashMap) (hashes : List UInt64) (offset : Nat) : JoinHashMap :=
  m.updateFromIter ((hashes.zipIdx offset).map Prod.swap).reverse

/-- The loop of `collect_left_input` over the hashes of the build batches, starting from the last
batch. -/
def ofBatches (batches : List (List UInt64)) : JoinHashMap :=
  (batches.reverse.foldl (fun s hashes => (s.1.updateHash hashes s.2, s.2 + hashes.length))
    (withCapacity (batches.map List.length).sum, 0)).1

end JoinHashMap

/-- The rows of the build batches in their order of arrival, each with its number in the batch
that the join keeps: the concatenation of the batches from the last one on. -/
def inOrder {α : Type} : List (List α) → List (Nat × α)
  | [] => []
  | batch :: batches => (batch.zipIdx batches.flatten.length).map Prod.swap ++ inOrder batches

section
variable {α β : Type}

theorem map_snd_inOrder (batches : List (List α)) :
    (inOrder batches).map (·.2) = batches.flatten := by
  induction batches with
  | nil => rfl
  | cons batch batches ih =>
    rw [inOrder, List.map_append, ih, List.flatten_cons, List.map_map]
    congr 1
    exact List.zipIdx_map_fst _ _

theorem length_inOrder (batches : List (List α)) :
    (inOrder batches).length = batches.flatten.length := by
  rw [← map_snd_inOrder, List.length_map]

theorem inOrder_map (f : α → β) (batches : List (List α)) :
    inOrder (batches.map (List.map f)) = (inOrder batches).map (Prod.map id f) := by
  induction batches with
  | nil => rfl
  | cons batch batches ih =>
    have hlen : (batches.map (List.map f)).flatten.length = batches.flatten.length := by
      rw [← List.map_flatten, List.length_map]
    rw [List.map_cons, inOrder, inOrder, ih, List.map_append, hlen, List.zipIdx_map,
      List.map_map, List.map_map]
    rfl

theorem mem_inOrder_cons {batch : List α} {batches : List (List α)} {k : Nat} {x : α} :
    (k, x) ∈ inOrder (batch :: batches) ↔
      (batches.flatten.length ≤ k ∧ batch[k - batches.flatten.length]? = some x) ∨
        (k, x) ∈ inOrder batches := by
  rw [inOrder, List.mem_append, List.mem_map]
  refine or_congr_left ?_
  constructor
  · rintro ⟨⟨y, i⟩, hmem, heq⟩
    cases heq
    exact List.mem_zipIdx_iff_le_and_getElem?_sub.1 hmem
  · rintro h
    exact ⟨(x, k), List.mem_zipIdx_iff_le_and_getElem?_sub.2 h, rfl⟩

/-- The numbers are those of the rows. -/
theorem mem_inOrder_iff {batches : List (List α)} {k : Nat} {x : α} :
    (k, x) ∈ inOrder batches ↔ batches.reverse.flatten[k]? = some x := by
  induction batches with
  | nil => simp [inOrder]
  | cons batch batches ih =>
    have hlen : batches.reverse.flatten.length = batches.flatten.length := by
      simp [List.length_flatten]
    rw [List.reverse_cons, List.flatten_append, List.flatten_singleton, mem_inOrder_cons, ih]
    by_cases hk : batches.flatten.length ≤ k
    · have hout : batches.reverse.flatten[k]? = none :=
        List.getElem?_eq_none (hlen.symm ▸ hk)
      rw [List.getElem?_append_right (hlen.symm ▸ hk), hlen, hout]
      simp only [hk, true_and, reduceCtorEq, or_false]
    · rw [List.getElem?_append_left (by omega)]
      simp only [hk, false_and, false_or]

theorem lt_of_mem_inOrder {batches : List (List α)} {x : Nat × α} (h : x ∈ inOrder batches) :
    x.1 < batches.flatten.length := by
  have hlt := (List.getElem?_eq_some_iff.1 (mem_inOrder_iff.1 h)).1
  simpa [List.length_flatten] using hlt

theorem nodup_inOrder (batches : List (List α)) : ((inOrder batches).map (·.1)).Nodup := by
  induction batches with
  | nil => exact List.nodup_nil
  | cons batch batches ih =>
    rw [inOrder, List.map_append, List.map_map]
    have hfst : ((fun x : Nat × α => x.1) ∘ Prod.swap) = fun x : α × Nat => x.2 := rfl
    rw [hfst, List.zipIdx_map_snd]
    refine List.Nodup.append (List.nodup_range' 1) ih ?_
    intro k hk hk'
    obtain ⟨x, hx, rfl⟩ := List.mem_map.1 hk'
    have hlt := lt_of_mem_inOrder hx
    have hle := (List.mem_range'_1.1 hk).1
    omega

end

namespace JoinHashMap

theorem stores_foldl {n : Nat} (batches : List (List UInt64)) (hn : batches.flatten.length ≤ n) :
    let s := batches.reverse.foldl
      (fun s hashes => (s.1.updateHash hashes s.2, s.2 + hashes.length)) (withCapacity n, 0)
    s.1.Stores n (inOrder batches).reverse ∧ s.2 = batches.flatten.length := by
  induction batches with
  | nil => exact ⟨stores_empty n, rfl⟩
  | cons batch batches ih =>
    rw [List.flatten_cons, List.length_append] at hn
    obtain ⟨hstores, hoffset⟩ := ih (by omega)
    simp only [List.reverse_cons, List.foldl_append, List.foldl_cons, List.foldl_nil, hoffset]
    refine ⟨?_, by rw [List.flatten_cons, List.length_append, Nat.add_comm]⟩
    rw [inOrder, List.reverse_append]
    refine hstores.updateFromIter ?_ ?_
    · intro x hx
      have hmem : x ∈ inOrder (batch :: batches) := by
        rw [inOrder]
        exact List.mem_append_left _ (List.mem_reverse.1 hx)
      have hlt := lt_of_mem_inOrder hmem
      rw [List.flatten_cons, List.length_append] at hlt
      omega
    · rw [← List.reverse_append, List.map_reverse, List.nodup_reverse]
      exact nodup_inOrder (batch :: batches)

/-- The table of all build batches. -/
theorem stores_ofBatches (batches : List (List UInt64)) :
    (ofBatches batches).Stores batches.flatten.length (inOrder batches).reverse := by
  have hsum : (batches.map List.length).sum = batches.flatten.length :=
    List.length_flatten.symm
  rw [ofBatches, hsum]
  exact (stores_foldl batches le_rfl).1

/-- **The candidates from a table of batches**: for each probe row in order, the build rows with
its hash, in their order of arrival. -/
theorem ofBatches_yields (batches : List (List UInt64)) (hashValues : List UInt64) {limit : Nat}
    (hlimit : 0 < limit) :
    ∃ chunks, Yields ((ofBatches batches).getMatchedIndicesWithLimitOffset hashValues limit) limit
      (0, none) chunks ∧ chunks.flatten = matchesFrom (bucket (inOrder batches)) 0 hashValues := by
  have hlen : (inOrder batches).reverse.length = batches.flatten.length := by
    rw [List.length_reverse, length_inOrder]
  have hrows : (fun hash => (bucket (inOrder batches).reverse hash).reverse) =
      bucket (inOrder batches) := by
    funext hash
    rw [bucket_reverse, List.reverse_reverse]
  rw [← hrows]
  exact getMatchedIndices_yields (stores_ofBatches batches) hlen hashValues hlimit

/-- **Chunked lookup is complete and ordered.** Asked from the beginning on, the table answers in
chunks of at most `limit` pairs until it has no more: together they list, probe row by probe row,
the build rows with its hash in their order of arrival. The rows that have arrived are those of the
batches, each once, with its number in the batch that the join keeps. -/
theorem lookup_complete_in_order (batches : List (List UInt64)) (hashValues : List UInt64)
    {limit : Nat} (hlimit : 0 < limit) :
    (∃ chunks, Yields ((ofBatches batches).getMatchedIndicesWithLimitOffset hashValues limit) limit
      (0, none) chunks ∧
      chunks.flatten = hashValues.zipIdx.flatMap fun probe =>
        ((inOrder batches).filter fun build => build.2 = probe.1).map fun build =>
          (probe.2, build.1)) ∧
    (inOrder batches).map (·.2) = batches.flatten ∧ ((inOrder batches).map (·.1)).Nodup ∧
    ∀ k hash, (k, hash) ∈ inOrder batches ↔ batches.reverse.flatten[k]? = some hash := by
  obtain ⟨chunks, hyields, hflat⟩ := ofBatches_yields batches hashValues hlimit
  refine ⟨⟨chunks, hyields, ?_⟩, map_snd_inOrder batches, nodup_inOrder batches, fun k hash =>
    mem_inOrder_iff⟩
  rw [hflat, matchesFrom_eq_flatMap]
  simp only [rowPairs, bucket, List.map_map, Function.comp_def]

/-- Two build batches with a hash in both, so that chains are followed; a chunk ends within one. -/
theorem lookup_complete_in_order_twoBatches :
    let table := ofBatches [[5, 7], [5]]
    ∃ chunks, Yields (table.getMatchedIndicesWithLimitOffset [5, 9, 7, 5] 2) 2 (0, none) chunks ∧
      chunks.flatten = [(0, 1), (0, 0), (2, 2), (3, 1), (3, 0)] := by
  intro table
  obtain ⟨⟨chunks, hyields, hflat⟩, -⟩ :=
    lookup_complete_in_order [[5, 7], [5]] [5, 9, 7, 5] (show 0 < 2 by decide)
  exact ⟨chunks, hyields, hflat.trans (by decide)⟩

/-- `contain_hashes` of the table of all build batches. -/
theorem containHash_ofBatches (batches : List (List UInt64)) (hash : UInt64) :
    (ofBatches batches).containHash hash = true ↔ hash ∈ batches.flatten := by
  have hkeys := (stores_ofBatches batches).mem_keys hash
  rw [List.map_reverse, map_snd_inOrder, List.mem_reverse] at hkeys
  rw [← hkeys, containHash, Option.isSome_iff_ne_none, ne_eq, find_eq_none_iff, not_not]

/-- `is_empty` of the table of all build batches. -/
theorem isEmpty_ofBatches (batches : List (List UInt64)) :
    (ofBatches batches).isEmpty = true ↔ batches.flatten = [] := by
  have hkeys := (stores_ofBatches batches).mem_keys
  rw [List.map_reverse, map_snd_inOrder] at hkeys
  rw [isEmpty, List.isEmpty_iff]
  constructor
  · intro hnil
    rw [hnil] at hkeys
    exact List.eq_nil_iff_forall_not_mem.2 fun x hx =>
      List.not_mem_nil ((hkeys x).2 (List.mem_reverse.2 hx))
  · intro hnil
    rw [hnil] at hkeys
    refine List.eq_nil_iff_forall_not_mem.2 fun e he => ?_
    exact List.not_mem_nil ((hkeys e.1).1 (List.mem_map_of_mem he))

end JoinHashMap

/-- The build rows that the candidates of a hash leave after a check of their keys: the check
decides, if what passes it has the hash. -/
theorem filter_bucket_inOrder {α : Type} {hash : α → UInt64} {hashValue : UInt64} {eq : α → Bool}
    (heq : ∀ a, eq a = true → hash a = hashValue) {batches : List (List α)} {check : Nat → Bool}
    (hcheck : ∀ x ∈ inOrder batches, check x.1 = eq x.2) :
    (bucket (inOrder (batches.map (List.map hash))) hashValue).filter check =
      ((inOrder batches).filter fun x => eq x.2).map (·.1) := by
  rw [inOrder_map, bucket, List.filter_map, List.filter_filter, List.filter_map, List.map_map]
  refine congrArg (List.map _) (List.filter_congr fun x hx => ?_)
  show (check x.1 && decide (hash x.2 = hashValue)) = eq x.2
  rw [hcheck x hx]
  cases hb : eq x.2 with
  | true => rw [heq _ hb, decide_eq_true rfl, Bool.and_true]
  | false => rfl

/-- `lookup_join_hashmap`: the candidates of a chunk that pass the key equality check, on pairs of
a probe row and a build row. -/
def lookupJoinHashmap (m : JoinHashMap) (hashValues : List UInt64) (equalRows : Nat × Nat → Bool)
    (limit : Nat) (offset : MapOffset) : Option (List (Nat × Nat) × Option MapOffset) :=
  (m.getMatchedIndicesWithLimitOffset hashValues limit offset).map fun x =>
    (x.1.filter equalRows, x.2)

end PredicateTransfer
