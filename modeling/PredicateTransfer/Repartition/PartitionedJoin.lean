import PredicateTransfer.BuildAccumulator
import PredicateTransfer.Lib.CoPartition
import PredicateTransfer.Repartition.RepartitionRuns
import PredicateTransfer.Streams.Coalesce

/-!
# A partitioned hash join

In the mode `Partitioned` both inputs of a hash join are repartitioned by the hashes of their keys,
and each partition is joined on its own, with one stream. Rows that match have equal keys, so they
end up in the same partition, and the partitions together output the join of all rows
(`partitioned_join_eq_join`).
-/

namespace PredicateTransfer

open SemiJoin Repartition Runs

variable {S : Sig} {W : World S}

/-! ## Joining partition by partition -/

section
variable (j : HashJoinExec S) (cis : List ColumnIndex) {ι : Type} [DecidableEq ι]
  {f g : Row S → ι} (h : ∀ l r, j.joins W l r = true → f l = g r)
include h

theorem HashJoinExec.probeRows_part (L : Multiset (Row S)) (r : Row S) :
    j.probeRows W cis (part f L (g r)) r = j.probeRows W cis L r := by
  have hflip : ∀ r l, flip (j.joins W) r l = true → g r = f l := fun r l hm => (h l r hm).symm
  unfold HashJoinExec.probeRows
  rw [filter_part h, hasPartner_part hflip]

theorem HashJoinExec.finalRows_eq_sum {t : Finset ι} {L : Multiset (Row S)} (R : Multiset (Row S))
    (ht : ∀ l ∈ L, f l ∈ t) :
    j.finalRows W cis L R = ∑ o ∈ t, j.finalRows W cis (part f L o) (part g R o) := by
  unfold HashJoinExec.finalRows
  cases j.joinType with
  | left | full | leftAnti =>
    dsimp only
    rw [anti_eq_sum h R ht, sum_map]
  | leftSemi =>
    dsimp only
    rw [semi_eq_sum h R ht, sum_map]
  | leftMark => exact map_hasPartner_eq_sum h R ht fun l mark => joinedRow cis (some l) none mark
  | inner | right | rightSemi | rightAnti | rightMark => rw [Finset.sum_const_zero]

/-- The joins of the partitions make up the join. -/
theorem HashJoinExec.join_eq_sum {t : Finset ι} {L R : Multiset (Row S)} (hL : ∀ l ∈ L, f l ∈ t)
    (hR : ∀ r ∈ R, g r ∈ t) :
    j.join W cis L R = ∑ o ∈ t, j.join W cis (part f L o) (part g R o) := by
  have hprobe : R.bind (j.probeRows W cis L) =
      ∑ o ∈ t, (part g R o).bind (j.probeRows W cis (part f L o)) := by
    nth_rewrite 1 [← sum_part hR]
    rw [sum_bind]
    refine Finset.sum_congr rfl fun o _ => Multiset.bind_congr fun r hr => ?_
    rw [← (mem_part.1 hr).2, j.probeRows_part cis h]
  rw [j.join_eq_bind_add W cis, hprobe, j.finalRows_eq_sum cis h R hL, ← Finset.sum_add_distrib]
  exact Finset.sum_congr rfl fun o _ => (j.join_eq_bind_add W cis _ _).symm

end

/-! ## What the partitions hold -/

section
variable {ρ ε : Type} {cfg : Config ρ ε} {s : State cfg}
  {streams : Fin cfg.inputs → List (Except ε (List ρ))}

/-- The rows of all inputs. -/
def inputRows {n : Nat} (streams : Fin n → List (Except ε (List ρ))) : Multiset ρ :=
  ∑ i, (BatchPartitioner.streamRows (streams i) : Multiset ρ)

/-- The batches of the partitions are what the streams of a repartition return, each through its
coalescer, when they have all ended without an error. -/
def RepartitionedTo (cfg : Config ρ ε) (streams : Fin cfg.inputs → List (Except ε (List ρ)))
    (batches : Nat → List (List ρ)) : Prop :=
  ∃ s : State cfg, Reachable streams s ∧ ∃ (A : BatchCoalescer ρ) (internal : String → ε),
    ∀ o < cfg.outputs, (s.lanes (0, o)).receiver = true ∧ (s.lanes (0, o)).ended = true ∧
      (s.lanes (0, o)).errors = [] ∧
      ∃ c, Reaches (CoalescedStream.step A internal) (fun _ _ => True)
          (CoalescedStream.start (s.lanes (0, o)).out) c ∧
        CoalescedStream.turn A internal c = none ∧ batches o = c.out.filterMap Except.toOption

theorem RepartitionedTo.rows {batches : Nat → List (List ρ)} {hash : ρ → UInt64} {n o : Nat}
    (h : RepartitionedTo cfg streams batches) (horder : cfg.preserveOrder = false)
    (hcfg : cfg.partitioning = .hash (fun r => .ok (hash r)) n) (ho : o < n) :
    ((batches o).flatten : Multiset ρ) =
      part (fun r => (hash r).toNat % n) (inputRows streams) o := by
  obtain ⟨s, hreach, A, internal, hall⟩ := h
  obtain ⟨hreceiver, hended, herrors, c, hc, hturn, hbatches⟩ :=
    hall o (by rwa [Config.outputs, hcfg])
  have hrows := CoalescedStream.returnedRows_of_end hc hturn
  have hsender : ∀ i : Fin cfg.inputs, cfg.sender i = 0 := by
    intro i
    simp [Config.sender, horder]
  have hroutes : ∀ r, BatchPartitioner.routes
      (fun r => (.ok (hash r) : Except ε UInt64)) n o r = decide ((hash r).toNat % n = o) := by
    intro r
    simp [BatchPartitioner.routes, beq_eq_decide]
  rw [hbatches, show (c.out.filterMap Except.toOption).flatten =
    (s.lanes (0, o)).returned.flatten from hrows,
    hreach.inv.1.hash_rows hcfg hreceiver hended herrors, part, inputRows, sum_filter]
  simp only [hsender, Finset.filter_true]
  refine Finset.sum_congr rfl fun i _ => ?_
  rw [Multiset.filter_coe]
  exact congrArg _ (List.filter_congr fun r _ => (by simp [hroutes r]))

end

/-! ## The join of the partitions -/

/-- **The partitions make up the join.** Both sides are repartitioned by the hashes of their keys,
in any interleaving, and coalesced; each pair of partitions is joined by one stream. Every stream
ends with the join of its partition, and together they have output the join of all rows. -/
theorem partitioned_join_eq_join {ε : Type} {j : HashJoinExec S} {H : KeyHash W}
    (route : KeyHash W) {config : PerfectHashConfig} {keys : Option (IntegerKeys W)}
    {bounds : (t : IntegerType) → Option (List (ColumnBounds t))}
    {leftCfg rightCfg : Config (Row S) ε} {n : Nat} (hn : 0 < n)
    {leftStreams : Fin leftCfg.inputs → List (Except ε (RecordBatch S))}
    {rightStreams : Fin rightCfg.inputs → List (Except ε (RecordBatch S))}
    {build probe : Nat → List (RecordBatch S)} {left : Nat → JoinLeftData W}
    (leftSchema rightSchema : Schema) (rightSideOrdered : Bool) {batchSize : Nat}
    (hon : j.on ≠ []) (hfetch : j.fetch = none) (haware : j.nullAware = false)
    (hsize : 1 ≤ batchSize)
    (hleftCfg : leftCfg.partitioning = .hash (fun l => .ok (route.hash (j.leftKeys W l))) n ∧
      leftCfg.preserveOrder = false)
    (hrightCfg : rightCfg.partitioning = .hash (fun r => .ok (route.hash (j.rightKeys W r))) n ∧
      rightCfg.preserveOrder = false)
    (hbuild : RepartitionedTo leftCfg leftStreams build)
    (hprobe : RepartitionedTo rightCfg rightStreams probe)
    (hleft : ∀ o < n, collectLeftInput W j H config keys bounds (build o) = .ok (left o))
    (hbuildKeys : ∀ I, keys = some I →
      ∀ o < n, ∀ l ∈ (build o).flatten, I.IsValue ((j.leftKeys W l).headD .null))
    (hprobeKeys : ∀ I, keys = some I →
      ∀ o < n, ∀ b ∈ probe o, ∀ r ∈ b, I.IsValue ((j.rightKeys W r).headD .null)) :
    let cis := j.columnIndices leftSchema rightSchema
    (∀ o < n, JoinContext.EndsWith ⟨j, cis, H, left o, rightSideOrdered, batchSize⟩
      (fun _ : Fin 1 => probe o)
      fun out => out 0 = j.join W cis (rowsOf (build o)) (rowsOf (probe o))) ∧
    ∑ o ∈ Finset.range n, j.join W cis (rowsOf (build o)) (rowsOf (probe o)) =
      j.join W cis (inputRows leftStreams) (inputRows rightStreams) := by
  intro cis
  refine ⟨fun o ho => ?_, ?_⟩
  · refine (endsWith_shares leftSchema rightSchema rightSideOrdered hon hfetch haware hsize le_rfl
      (hleft o ho) (fun I hI => hbuildKeys I hI o ho)
      fun I hI _ => hprobeKeys I hI o ho).imp fun out hout => ?_
    have hsum := hout.sum_eq_join
    rwa [Fin.sum_univ_one, Fin.sum_univ_one] at hsum
  -- Rows that match have equal keys, so they are in the same partition.
  have hroute : ∀ l r, j.joins W l r = true →
      (route.hash (j.leftKeys W l)).toNat % n = (route.hash (j.rightKeys W r)).toNat % n := by
    intro l r hjoins
    rw [j.joins_eq W, Bool.and_eq_true] at hjoins
    rw [route.hash_of_keysEqual hjoins.1]
  have hmem : ∀ x : Nat, x % n ∈ Finset.range n := fun x => Finset.mem_range.2 (Nat.mod_lt x hn)
  rw [j.join_eq_sum cis hroute (t := Finset.range n) (fun _ _ => hmem _) fun _ _ => hmem _]
  refine Finset.sum_congr rfl fun o ho => ?_
  rw [rowsOf, rowsOf, hbuild.rows hleftCfg.2 hleftCfg.1 (Finset.mem_range.1 ho),
    hprobe.rows hrightCfg.2 hrightCfg.1 (Finset.mem_range.1 ho)]

/-! ## Customers and orders by parity -/

def fullOnCustomer : HashJoinExec rowSig :=
  { onCustomer .full none false with mode := .partitioned }

/-- One input, repartitioned by the parity of a key. -/
def keyParity (keys : Row rowSig → List (Value rowSig)) : Config (Row rowSig) Unit where
  partitioning := .hash (fun r => .ok (parityHash.hash (keys r))) 2
  preserveOrder := false
  inputs := 1
  memorySize := List.length
  order _ := [0, 1]
  order_perm := pair_perm_range

def customerKeys (l : Row rowSig) : List (Value rowSig) := fullOnCustomer.leftKeys rowWorld l

def orderKeys (r : Row rowSig) : List (Value rowSig) := fullOnCustomer.rightKeys rowWorld r

def customerStream (_ : Fin 1) : List (Except Unit (RecordBatch rowSig)) :=
  [.ok [[.int64 1], [.int64 2]], .ok [[.null]]]

def orderStream (_ : Fin 1) : List (Except Unit (RecordBatch rowSig)) :=
  [.ok [[.int64 2], [.int64 3], [.int64 2]], .ok [[.null], [.int64 2]]]

/-- Two batches are cut and sent, and both outputs receive their parts. -/
def parityCalls : List (Call 1) :=
  List.replicate 11 (.task (Fin.last 0) true) ++
    [.recv (0, 0), .recv (0, 1), .recv (0, 0), .recv (0, 0), .recv (0, 1)]

def parityState (keys : Row rowSig → List (Value rowSig))
    (streams : Fin 1 → List (Except Unit (RecordBatch rowSig))) : State (keyParity keys) :=
  (run step (fun _ _ => True) (State.init (keyParity keys) streams) parityCalls).getD
    (State.init (keyParity keys) streams)

def customersOf (o : Nat) : List (RecordBatch rowSig) :=
  if o = 0 then [[[.int64 2]], [[.null]]] else [[[.int64 1]]]

def ordersOf (o : Nat) : List (RecordBatch rowSig) :=
  if o = 0 then [[[.int64 2], [.int64 2]], [[.null], [.int64 2]]] else [[[.int64 3]]]

theorem reaches_coalesced {n : Nat} {input : List (Except Unit (RecordBatch rowSig))}
    {c : CoalescedStream (Row rowSig) Unit} (h : run (CoalescedStream.step (passOn _) fun _ => ())
      (fun _ _ => True) (CoalescedStream.start input) (List.replicate n ()) = some c) :
    Reaches (CoalescedStream.step (passOn _) fun _ => ()) (fun _ _ => True)
      (CoalescedStream.start input) c := reaches_of_run h

/-- The hash tables of the partitions. -/
def customerTables (o : Nat) : JoinLeftData rowWorld :=
  if o = 0 then ⟨.hashMap (.ofBatches [[7], [7]]), [[.null], [.int64 2]]⟩
  else ⟨.hashMap (.ofBatches [[7]]), [[.int64 1]]⟩

theorem repartitionedTo_customers :
    RepartitionedTo (keyParity customerKeys) customerStream customersOf := by
  refine ⟨parityState customerKeys customerStream, reaches_getD_run, passOn _, fun _ => (),
    fun o ho => ?_⟩
  obtain rfl | rfl : o = 0 ∨ o = 1 := Nat.le_one_iff_eq_zero_or_eq_one.1 (Nat.le_of_lt_succ ho)
  · exact ⟨rfl, rfl, rfl, ⟨[], ⟨[], [], 2, none, true⟩, true, (customersOf 0).map .ok⟩,
      reaches_coalesced (n := 5) rfl, rfl, rfl⟩
  · exact ⟨rfl, rfl, rfl, ⟨[], ⟨[], [], 1, none, true⟩, true, (customersOf 1).map .ok⟩,
      reaches_coalesced (n := 3) rfl, rfl, rfl⟩

theorem repartitionedTo_orders : RepartitionedTo (keyParity orderKeys) orderStream ordersOf := by
  refine ⟨parityState orderKeys orderStream, reaches_getD_run, passOn _, fun _ => (),
    fun o ho => ?_⟩
  obtain rfl | rfl : o = 0 ∨ o = 1 := Nat.le_one_iff_eq_zero_or_eq_one.1 (Nat.le_of_lt_succ ho)
  · exact ⟨rfl, rfl, rfl, ⟨[], ⟨[], [], 4, none, true⟩, true, (ordersOf 0).map .ok⟩,
      reaches_coalesced (n := 5) rfl, rfl, rfl⟩
  · exact ⟨rfl, rfl, rfl, ⟨[], ⟨[], [], 1, none, true⟩, true, (ordersOf 1).map .ok⟩,
      reaches_coalesced (n := 3) rfl, rfl, rfl⟩

theorem collect_customers (o : Nat) (ho : o < 2) :
    collectLeftInput rowWorld fullOnCustomer collidingHash noPerfectHash none (fun _ => none)
      (customersOf o) = .ok (customerTables o) := by
  obtain rfl | rfl : o = 0 ∨ o = 1 := Nat.le_one_iff_eq_zero_or_eq_one.1 (Nat.le_of_lt_succ ho)
  · rfl
  · rfl

theorem partitioned_join_customers :
    let cis := fullOnCustomer.columnIndices [⟨"customer_id", .int64, true⟩]
      [⟨"customer", .int64, true⟩]
    RepartitionedTo (keyParity customerKeys) customerStream customersOf ∧
    RepartitionedTo (keyParity orderKeys) orderStream ordersOf ∧
    ∑ o ∈ Finset.range 2, fullOnCustomer.join rowWorld cis (rowsOf (customersOf o))
        (rowsOf (ordersOf o)) =
      fullOnCustomer.join rowWorld cis
        (inputRows customerStream)
        (inputRows orderStream) :=
  ⟨repartitionedTo_customers, repartitionedTo_orders,
    (partitioned_join_eq_join parityHash (by decide) _ _ false (List.cons_ne_nil _ _) rfl
      rfl le_rfl ⟨rfl, rfl⟩ ⟨rfl, rfl⟩ repartitionedTo_customers repartitionedTo_orders
      collect_customers (fun _ h => (by cases h)) (fun _ h => (by cases h))).2⟩

end PredicateTransfer
