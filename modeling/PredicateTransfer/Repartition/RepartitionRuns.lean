import PredicateTransfer.Repartition.RepartitionMemory
import PredicateTransfer.Repartition.RepartitionOrder

/-!
# Runs of a repartition

Inputs and outputs go on in any order, memory is granted or not, and streams are dropped. Still, an
output stream that has ended has returned exactly what its inputs had for it, and an error for every
input that failed (`stream_returns_all`); with hash partitioning these are the rows of its partition
(`hash_stream_rows`). A stream of a single input returns them in order (`returned_in_order`,
`sorted_stream`). No counter goes below zero, and all memory is given back (`memory_given_back`).
-/

namespace PredicateTransfer.Repartition

open BatchPartitioner Runs

variable {ρ ε : Type} {cfg : Config ρ ε} {s s' : State cfg} {i : Fin cfg.inputs} {k : Nat × Nat}
  {streams : Fin cfg.inputs → List (Except ε (List ρ))} {o : Nat}

/-- The states of a repartition of the streams. -/
def Reachable (streams : Fin cfg.inputs → List (Except ε (List ρ))) (s : State cfg) : Prop :=
  Reaches step (fun _ _ => True) (State.init cfg streams) s

theorem Reachable.inv (h : Reachable streams s) : Inv streams s ∧ MemoryOk s ∧ OrderOk s := by
  refine Reaches.invariant (I := fun s => Inv streams s ∧ MemoryOk s ∧ OrderOk s) h
    ⟨inv_init, memoryOk_init, orderOk_init⟩ ?_
  rintro t a u ⟨hinv, hmemory, horder⟩ - hstep
  exact ⟨hinv.step hstep, hmemory.step hinv hstep, horder.step hinv hstep⟩

def numberHash (r : Nat) : Except Unit UInt64 := .ok (UInt64.ofNat r)

theorem pair_perm_range (_ : Nat) : [0, 1].Perm (List.range 2) := List.Perm.refl _

/-- Rows by their parity. -/
def byParity (preserveOrder : Bool) : Config Nat Unit where
  partitioning := .hash numberHash 2
  preserveOrder := preserveOrder
  inputs := 2
  memorySize := List.length
  order _ := [0, 1]
  order_perm := pair_perm_range

def numbers (i : Fin 2) : List (Except Unit (List Nat)) :=
  if i.val = 0 then [.ok [1, 2, 4]] else [.ok [3, 5]]

/-- Both inputs send everything, the first without memory for its odd rows. -/
def sendAll : List (Call 2) :=
  [true, true, true, false, true, true].map (.task ⟨0, Nat.zero_lt_two⟩) ++
    List.replicate 6 (.task ⟨1, Nat.one_lt_two⟩ true) ++
    List.replicate 2 (.task ⟨0, Nat.zero_lt_two⟩ true)

def byParityRun (preserveOrder : Bool) (recvs : List (Call 2)) : State (byParity preserveOrder) :=
  (run step (fun _ _ => True) (State.init (byParity preserveOrder) numbers)
    (sendAll ++ recvs)).getD (State.init _ numbers)

/-- The odd rows are received. -/
def recvOdd : List (Call 2) := List.replicate 5 (.recv (0, 1))

/-- The odd rows of the first input are received. -/
def recvFirst : List (Call 2) := List.replicate 3 (.recv (0, 1))

theorem reachable_byParityRun (preserveOrder : Bool) (recvs : List (Call 2)) :
    Reachable numbers (byParityRun preserveOrder recvs) := reaches_getD_run

/-! ## Nothing is lost -/

/-- A task that told a stream its end has sent it everything. -/
theorem Inv.feed_told (h : Inv streams s) (hreceiver : (s.lanes k).receiver = true)
    (hi : cfg.sender i = k.1) (htold : (s.tasks i).told k.2 = true) :
    (s.tasks i).feed k.2 = ⟨sentTo (cfg.routed i (streams i)).1 k.2, 0, 0, 0,
      (cfg.routed i (streams i)).2.toList⟩ := by
  have hlane := h.hasLane hreceiver
  rw [Config.hasLane, decide_eq_true_iff] at hlane
  have htask := h.task i
  cases ht : s.tasks i with
  | pulling p => simp [ht, Task.told] at htold
  | sending p o msg => simp [ht, Task.told] at htold
  | notifying error left handled =>
    rw [ht] at htask htold
    have hrouted : cfg.routed i (streams i) = (handled, error) := by
      refine (ReturnedOk.routed htask).resolve_right fun hgone => ?_
      have hdropped := hgone.2 k.2 hlane.2
      rw [hi, Prod.mk.eta, hreceiver] at hdropped
      cases hdropped
    have hleft : k.2 ∉ left := by simpa [Task.told] using htold
    simp [Task.feed, Task.handled, Task.waiting, Task.told, Task.failed, hrouted, hleft]

theorem Inv.feed_ended (h : Inv streams s) (hreceiver : (s.lanes k).receiver = true)
    (hended : (s.lanes k).ended = true) :
    s.feed k = ∑ i with cfg.sender i = k.1, ⟨sentTo (cfg.routed i (streams i)).1 k.2, 0, 0, 0,
      (cfg.routed i (streams i)).2.toList⟩ := by
  have hclosed := (opened_feed s k).1 ((h.lane hreceiver).ended hended).1
  rw [State.closed, decide_eq_true_iff] at hclosed
  rw [State.feed, ← Finset.sum_filter]
  refine Finset.sum_congr rfl fun i hi => ?_
  have hi := (Finset.mem_filter.1 hi).2
  exact h.feed_told hreceiver hi (hclosed i hi)

theorem Inv.returned_eq (h : Inv streams s) (hreceiver : (s.lanes k).receiver = true)
    (hended : (s.lanes k).ended = true) :
    ((s.lanes k).returned : Multiset (List ρ)) =
        ∑ i with cfg.sender i = k.1, (sentTo (cfg.routed i (streams i)).1 k.2 : Multiset _) ∧
      ((s.lanes k).errors : Multiset ε) =
        ∑ i with cfg.sender i = k.1, ((cfg.routed i (streams i)).2.toList : Multiset ε) := by
  have hfeed := h.feed_ended hreceiver hended
  have hall := (h.lane hreceiver).returned_eq hended (by
    rw [hfeed, Feed.inMemory_sum, Finset.sum_const_zero]) (by
    rw [hfeed, Feed.inSpilled_sum, Finset.sum_const_zero])
  rw [hfeed, Feed.sent_sum, Feed.failed_sum] at hall
  exact hall

/-- **Nothing is lost and nothing is invented.** An output stream that has ended has returned
exactly the batches that its inputs were to send it before they failed, and one error for every
input that failed. -/
theorem stream_returns_all (h : Reachable streams s) (hreceiver : (s.lanes k).receiver = true)
    (hended : (s.lanes k).ended = true) :
    ((s.lanes k).returned : Multiset (List ρ)) =
        ∑ i with cfg.sender i = k.1, (sentTo (cfg.routed i (streams i)).1 k.2 : Multiset _) ∧
      ((s.lanes k).errors : Multiset ε) =
        ∑ i with cfg.sender i = k.1, ((cfg.routed i (streams i)).2.toList : Multiset ε) :=
  h.inv.1.returned_eq hreceiver hended

theorem stream_returns_all_odd :
    ((byParityRun false recvOdd).lanes (0, 1)).ended = true ∧
      (((byParityRun false recvOdd).lanes (0, 1)).returned : Multiset (List Nat)) =
        ∑ i with (byParity false).sender i = 0,
          (sentTo ((byParity false).routed i (numbers i)).1 1 : Multiset _) :=
  ⟨by decide, (stream_returns_all (k := (0, 1)) (reachable_byParityRun false recvOdd) (by decide)
    (by decide)).1⟩

/-! ## Rows -/

/-- The rows of batches. -/
def rows : Multiset (List ρ) →+ Multiset ρ where
  toFun batches := batches.bind fun batch => (batch : Multiset ρ)
  map_zero' := Multiset.zero_bind _
  map_add' a b := Multiset.add_bind a b _

theorem rows_coe (batches : List (List ρ)) :
    rows (batches : Multiset (List ρ)) = batches.flatten := by
  show (batches : Multiset (List ρ)).bind (fun batch => (batch : Multiset ρ)) = _
  rw [Multiset.coe_bind batches fun batch => batch]
  simp

theorem flatten_sentTo (xs : List (Nat × List ρ)) (o : Nat) :
    (sentTo xs o).flatten = (xs.filter (·.1 == o)).flatMap (·.2) := by
  rw [sentTo, List.flatMap_def]

/-- No input of the lane has failed. -/
theorem Inv.routed_none (h : Inv streams s) (hreceiver : (s.lanes k).receiver = true)
    (hended : (s.lanes k).ended = true) (herrors : (s.lanes k).errors = [])
    (hi : cfg.sender i = k.1) : (cfg.routed i (streams i)).2 = none := by
  have hsum := (h.returned_eq hreceiver hended).2
  rw [herrors, Multiset.coe_nil, eq_comm, Finset.sum_eq_zero_iff] at hsum
  have hnil := hsum i (Finset.mem_filter.2 ⟨Finset.mem_univ i, hi⟩)
  rwa [Multiset.coe_eq_zero, Option.toList_eq_nil_iff] at hnil

theorem routed_hash {hashRow : ρ → Except ε UInt64} {n : Nat}
    (hcfg : cfg.partitioning = .hash hashRow n) (i : Fin cfg.inputs)
    (stream : List (Except ε (List ρ))) :
    cfg.routed i stream = (hash hashRow n).pieces stream := by
  simp only [Config.routed, hcfg, tryNew]

theorem Inv.hash_rows {hashRow : ρ → Except ε UInt64} {n : Nat}
    (hcfg : cfg.partitioning = .hash hashRow n) (h : Inv streams s)
    (hreceiver : (s.lanes k).receiver = true) (hended : (s.lanes k).ended = true)
    (herrors : (s.lanes k).errors = []) :
    ((s.lanes k).returned.flatten : Multiset ρ) = ∑ i with cfg.sender i = k.1,
      ((streamRows (streams i)).filter (routes hashRow n k.2) : Multiset ρ) := by
  have hlane := h.hasLane hreceiver
  rw [Config.hasLane, decide_eq_true_iff, Config.outputs, hcfg] at hlane
  rw [← rows_coe, (h.returned_eq hreceiver hended).1, map_sum]
  refine Finset.sum_congr rfl fun i hi => ?_
  have hnone := h.routed_none hreceiver hended herrors (Finset.mem_filter.1 hi).2
  rw [routed_hash hcfg] at hnone ⊢
  rw [rows_coe, flatten_sentTo, ((pieces_hash_rows hashRow n (streams i)).2 k.2 hlane.2).2 hnone]

/-- **Hash partitioning.** An output stream that has ended without an error has returned exactly the
rows of its inputs whose hash belongs to its partition. -/
theorem hash_stream_rows {hashRow : ρ → Except ε UInt64} {n : Nat}
    (hcfg : cfg.partitioning = .hash hashRow n) (h : Reachable streams s)
    (hreceiver : (s.lanes k).receiver = true) (hended : (s.lanes k).ended = true)
    (herrors : (s.lanes k).errors = []) :
    ((s.lanes k).returned.flatten : Multiset ρ) = ∑ i with cfg.sender i = k.1,
      ((streamRows (streams i)).filter (routes hashRow n k.2) : Multiset ρ) :=
  h.inv.1.hash_rows hcfg hreceiver hended herrors

theorem hash_stream_rows_odd :
    ((byParityRun false recvOdd).lanes (0, 1)).ended = true ∧
      (((byParityRun false recvOdd).lanes (0, 1)).returned.flatten : Multiset Nat) =
        ∑ i with (byParity false).sender i = 0,
          ((streamRows (numbers i)).filter (routes numberHash 2 1) : Multiset Nat) :=
  ⟨by decide, hash_stream_rows (k := (0, 1)) rfl (reachable_byParityRun false recvOdd) (by decide)
    (by decide) (by decide)⟩

/-! ## Order -/

theorem sentTo_mono {xs ys : List (Nat × List ρ)} (h : xs <+: ys) (o : Nat) :
    sentTo xs o <+: sentTo ys o := (h.filter _).map _

theorem TaskOk.handled_initial {stream : List (Except ε (List ρ))} {t : Task ρ ε}
    (h : TaskOk s i stream t) : t.handled <+: (cfg.routed i stream).1 := by
  cases t with
  | pulling p =>
    rw [PullOk.routed h, List.append_assoc]
    exact List.prefix_append _ _
  | sending p o msg =>
    rw [PullOk.routed h.1, List.append_assoc]
    exact List.prefix_append _ _
  | notifying error left handled =>
    rcases ReturnedOk.routed h with hrouted | ⟨hinitial, -⟩
    · rw [hrouted]
      exact List.prefix_rfl
    · exact hinitial

/-- What the stream of a single input has returned is what the input had first for this output. -/
theorem returned_initial (hinv : Inv streams s) (horder : OrderOk s) (hi : cfg.Sole i)
    (hreceiver : (s.lanes (cfg.sender i, o)).receiver = true) :
    (s.lanes (cfg.sender i, o)).returned <+: sentTo (cfg.routed i (streams i)).1 o := by
  have hsent : (s.lanes (cfg.sender i, o)).returned <+: sentTo (s.tasks i).handled o :=
    ⟨_, horder hi hreceiver⟩
  exact hsent.trans (sentTo_mono (hinv.task i).handled_initial o)

/-- At the end it has returned all of it. -/
theorem returned_eq_sentTo (hinv : Inv streams s) (horder : OrderOk s) (hi : cfg.Sole i)
    (hreceiver : (s.lanes (cfg.sender i, o)).receiver = true)
    (hended : (s.lanes (cfg.sender i, o)).ended = true) :
    (s.lanes (cfg.sender i, o)).returned = sentTo (cfg.routed i (streams i)).1 o := by
  refine (returned_initial hinv horder hi hreceiver).eq_of_length ?_
  have hall := (hinv.returned_eq hreceiver hended).1
  have honly : (Finset.univ.filter fun j => cfg.sender j = cfg.sender i) = {i} := by
    ext j
    simp only [Finset.mem_filter, Finset.mem_univ, true_and, Finset.mem_singleton]
    exact ⟨hi j, fun h => by rw [h]⟩
  rw [honly, Finset.sum_singleton] at hall
  exact congrArg Multiset.card hall

theorem Config.sole (h : cfg.preserveOrder = true ∨ cfg.inputs = 1) (i : Fin cfg.inputs) :
    cfg.Sole i :=
  h.elim (fun h => sole_of_preserveOrder h i) fun h => sole_of_one h i

/-- **The order is preserved**, also where batches are spilled: a stream of a single input returns
the batches in the order in which the input has them, and at its end it has returned them all. -/
theorem returned_in_order (hone : cfg.preserveOrder = true ∨ cfg.inputs = 1)
    (h : Reachable streams s) (hreceiver : (s.lanes (cfg.sender i, o)).receiver = true) :
    (s.lanes (cfg.sender i, o)).returned <+: sentTo (cfg.routed i (streams i)).1 o ∧
      ((s.lanes (cfg.sender i, o)).ended = true →
        (s.lanes (cfg.sender i, o)).returned = sentTo (cfg.routed i (streams i)).1 o) :=
  ⟨returned_initial h.inv.1 h.inv.2.2 (Config.sole hone i) hreceiver,
    returned_eq_sentTo h.inv.1 h.inv.2.2 (Config.sole hone i) hreceiver⟩

theorem returned_in_order_odd :
    ((byParityRun true recvFirst).lanes ((byParity true).sender (0 : Fin 2), 1)).ended = true ∧
    ((byParityRun true recvFirst).lanes ((byParity true).sender (0 : Fin 2), 1)).returned =
      sentTo ((byParity true).routed (0 : Fin 2) (numbers 0)).1 1 := by
  have hended : ((byParityRun true recvFirst).lanes
      ((byParity true).sender (0 : Fin 2), 1)).ended = true := by decide
  exact ⟨hended, (returned_in_order (.inl rfl) (reachable_byParityRun true recvFirst)
    (by decide)).2 hended⟩

/-- The rows for an output are in the order of the stream. -/
theorem sentTo_sublist (i : Fin cfg.inputs) (stream : List (Except ε (List ρ)))
    (ho : o < cfg.outputs) :
    (sentTo (cfg.routed i stream).1 o).flatten.Sublist (streamRows stream) := by
  rw [flatten_sentTo]
  cases hcfg : cfg.partitioning with
  | hash hashRow n =>
    rw [Config.outputs, hcfg] at ho
    rw [routed_hash hcfg]
    exact (((pieces_hash_rows hashRow n stream).2 o ho).1.sublist).trans List.filter_sublist
  | roundRobinBatch n =>
    rw [Config.outputs, hcfg] at ho
    have hnext := start_lt (n := n) (input_lt i) (Nat.zero_lt_of_lt ho)
    simp only [Config.routed, hcfg, tryNew]
    rw [← (pieces_roundRobin hnext stream).1, List.flatMap_def, List.flatMap_def]
    exact (List.filter_sublist.map _).flatten
  | unknownPartitioning n e => simp [Config.routed, hcfg, tryNew]

/-- **Sorted inputs give sorted streams.** -/
theorem sorted_stream {r : ρ → ρ → Prop} (hone : cfg.preserveOrder = true ∨ cfg.inputs = 1)
    (h : Reachable streams s) (hreceiver : (s.lanes (cfg.sender i, o)).receiver = true)
    (hsorted : (streamRows (streams i)).Pairwise r) :
    (s.lanes (cfg.sender i, o)).returned.flatten.Pairwise r := by
  have hlane := h.inv.1.hasLane hreceiver
  rw [Config.hasLane, decide_eq_true_iff] at hlane
  have hinitial := returned_initial h.inv.1 h.inv.2.2 (Config.sole hone i) hreceiver
  exact hsorted.sublist (hinitial.sublist.flatten.trans (sentTo_sublist i (streams i) hlane.2))

theorem sorted_stream_odd : (streamRows (numbers 0)).Pairwise (· < ·) ∧
    ((byParityRun true recvFirst).lanes
      ((byParity true).sender (0 : Fin 2), 1)).returned.flatten.Pairwise (· < ·) :=
  ⟨by decide, sorted_stream (.inl rfl) (reachable_byParityRun true recvFirst) (by decide)
    (by decide)⟩

/-! ## Memory -/

/-- **All memory is given back.** No counter goes below zero, the reservations always cover what is
in the channels, and once the streams of an output have ended, none of them dropped before, nothing
is reserved for it. -/
theorem memory_given_back (h : Reachable streams s) :
    s.panicked = false ∧ (∀ o, s.held o ≤ s.reservation o) ∧
      ∀ o, (∀ a ∈ cfg.groups, (s.lanes (a, o)).receiver = true ∧ (s.lanes (a, o)).ended = true) →
        s.reservation o = 0 := by
  obtain ⟨hinv, hmemory, -⟩ := h.inv
  refine ⟨hmemory.panicked, hmemory.held_le, fun o hall => ?_⟩
  rw [← hmemory.held_eq fun a ha => (hall a ha).1, State.held]
  have hchannels : s.inChannels o = 0 := by
    refine Finset.sum_eq_zero fun a ha => ?_
    obtain ⟨hreceiver, hended⟩ := hall a ha
    have hq := ((hinv.lane hreceiver).ended hended).2.1
    simp [Lane.queued, hq]
  have htasks : s.inTasks o = 0 := by
    refine Finset.sum_eq_zero fun i _ => ?_
    obtain ⟨hreceiver, hended⟩ := hall _ (sender_mem_groups i)
    have hclosed := (opened_feed s _).1 ((hinv.lane hreceiver).ended hended).1
    rw [State.closed, decide_eq_true_iff] at hclosed
    have htold := hclosed i rfl
    cases ht : s.tasks i with
    | pulling p => rfl
    | sending p o' msg => simp [ht, Task.told] at htold
    | notifying error left handled => rfl
  rw [hchannels, htasks]

theorem memory_given_back_odd : ((byParityRun false recvOdd).lanes (0, 1)).ended = true ∧
    (byParityRun false recvOdd).reservation 1 = 0 :=
  ⟨by decide, (memory_given_back (reachable_byParityRun false recvOdd)).2.2 1 (by decide)⟩

end PredicateTransfer.Repartition
