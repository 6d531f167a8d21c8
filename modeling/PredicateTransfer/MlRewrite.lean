import PredicateTransfer.Candidates
import PredicateTransfer.Pairing

/-!
# The ML-guided rewrite

`insert_bloom_filters_ml` collects the candidates, selects some of them by their keys, and hands
the selection to `insert_bloom_filters_selected` as a set of column name pairs. A candidate's key
is its own, but its two column names are not: a resolved key of another join with the same names
gets a pair too.

**Theorem (`insertBloomFiltersMl_exact_iff`).** The rewrite places pairs at exactly the positions
whose candidate was selected if and only if no candidate left out has the names of a selected one.

**Theorem (`insertBloomFiltersMl_eq_insertBloomFilters`).** With a budget that has room for
everything, the rewrite does what the `always_build` policy does.
-/

namespace PredicateTransfer

open ExecutionPlan

variable {S : Sig} {K : Type}

/-! ## The rewrite -/

/-- The column names of the selected candidates. -/
def selectedPairs (candidates : List (MlCandidate K)) (selectedKeys : Finset String) :
    Finset (String × String) :=
  ((candidates.filter fun c => decide (c.key ∈ selectedKeys)).map
    fun c => (c.buildCol, c.probeCol)).toFinset

/-- `insert_bloom_filters_ml`. -/
def insertBloomFiltersMl [DivisionRing K] [LinearOrder K] [FloorSemiring K] (H : Host S)
    (exp : K → K) (model : GbtModel K) (plan : ExecutionPlan S) (budgetBytes : Nat) (next : Nat) :
    Option (Except DataFusionError (ExecutionPlan S × Nat)) := do
  let candidates ← collectMlCandidates H exp model plan []
  if candidates.isEmpty then return .ok (plan, next)
  else do
    let selectedKeys ← knapsackSelect candidates budgetBytes
    return insertBloomFiltersSelected H plan (selectedPairs candidates selectedKeys) next

/-! ## Sites and candidates -/

/-- The candidates were pushed for the sites, one for each and in the same order. -/
structure Aligned (ss : List (Site S)) (candidates : List (MlCandidate K)) : Prop where
  map_fst : (ss.zip candidates).map Prod.fst = ss
  map_snd : (ss.zip candidates).map Prod.snd = candidates
  names : ∀ z ∈ ss.zip candidates, z.2.buildCol = z.1.buildCol ∧ z.2.probeCol = z.1.probeCol
  nodup_pos : (ss.map (·.pos)).Nodup
  nodup_key : (candidates.map (·.key)).Nodup

theorem names_of_mem_zip {n : Nat} {xs : List (Scored S K)} {z : Site S × MlCandidate K}
    (h : z ∈ (xs.map (·.site)).zip (candidatesFrom n xs)) :
    z.2.buildCol = z.1.buildCol ∧ z.2.probeCol = z.1.probeCol := by
  induction xs generalizing n with
  | nil => cases h
  | cons x xs ih =>
    rw [List.map_cons, candidatesFrom, List.zip_cons_cons] at h
    rcases List.mem_cons.1 h with rfl | h
    · exact ⟨rfl, rfl⟩
    · exact ih h

theorem collectMlCandidates_aligned [DivisionRing K] [LinearOrder K] [FloorSemiring K] {H : Host S}
    {exp : K → K} {model : GbtModel K} {p : ExecutionPlan S} {candidates : List (MlCandidate K)}
    (h : collectMlCandidates H exp model p [] = some candidates) :
    Aligned (sites p) candidates := by
  rw [collectMlCandidates_eq] at h
  obtain ⟨xs, hxs, rfl⟩ := Option.map_eq_some_iff.1 h
  have hlen : (sites p).length = (candidatesFrom 0 xs).length := by
    rw [← scored_sites hxs, List.length_map, length_candidatesFrom]
  refine ⟨List.map_fst_zip hlen.le, List.map_snd_zip hlen.ge, fun z hz => ?_, nodup_pos_sites p,
    nodup_key_candidatesFrom 0 xs⟩
  rw [← scored_sites hxs] at hz
  exact names_of_mem_zip hz

/-- The candidate pushed for the position was selected. -/
def selectedAt (ss : List (Site S)) (candidates : List (MlCandidate K))
    (selectedKeys : Finset String) : Keep := fun pos _ _ =>
  (ss.zip candidates).any fun z => decide (z.1.pos = pos) && decide (z.2.key ∈ selectedKeys)

section
variable {ss : List (Site S)} {candidates : List (MlCandidate K)} {selectedKeys : Finset String}

theorem Aligned.selectedAt_iff (h : Aligned ss candidates) {z : Site S × MlCandidate K}
    (hz : z ∈ ss.zip candidates) :
    (selectedAt ss candidates selectedKeys).passes z.1 = true ↔ z.2.key ∈ selectedKeys := by
  have hpos : ((ss.zip candidates).map fun z => z.1.pos).Nodup := by
    have hnd := h.nodup_pos
    rw [← h.map_fst, List.map_map] at hnd
    exact hnd
  simp only [Keep.passes, selectedAt, List.any_eq_true, Bool.and_eq_true, decide_eq_true_eq]
  constructor
  · rintro ⟨z', hz', heq, hkey⟩
    rw [← List.inj_on_of_nodup_map hpos hz' hz heq]
    exact hkey
  · intro hkey
    exact ⟨z, hz, rfl, hkey⟩

theorem Aligned.length_filter (h : Aligned ss candidates) (keep : Keep) :
    (ss.filter keep.passes).length =
      ((ss.zip candidates).filter fun z => keep.passes z.1).length := by
  have hmap := congrArg (fun l => (l.filter keep.passes).length) h.map_fst
  simp only [List.filter_map, List.length_map] at hmap
  exact hmap.symm

/-- As many candidates are selected as there are keys in the returned set. -/
theorem Aligned.length_selected [AddCommGroup K] [LinearOrder K] (h : Aligned ss candidates)
    {budgetBytes : Nat}
    (hsel : knapsackSelect candidates budgetBytes = some selectedKeys) :
    ((ss.zip candidates).filter fun z => decide (z.2.key ∈ selectedKeys)).length =
      selectedKeys.card := by
  have hmap := congrArg (fun l => (l.filter fun c => decide (c.key ∈ selectedKeys)).length)
    h.map_snd
  simp only [List.filter_map, List.length_map] at hmap
  rw [card_selected h.nodup_key hsel, ← hmap]
  rfl

/-- No candidate left out has the two column names of a selected one. -/
def NoNamesake (candidates : List (MlCandidate K)) (selectedKeys : Finset String) : Prop :=
  ∀ c ∈ candidates, c.key ∈ selectedKeys → ∀ c' ∈ candidates, c'.buildCol = c.buildCol →
    c'.probeCol = c.probeCol → c'.key ∈ selectedKeys

instance (candidates : List (MlCandidate K)) (selectedKeys : Finset String) :
    Decidable (NoNamesake candidates selectedKeys) :=
  inferInstanceAs (Decidable (∀ c ∈ candidates, c.key ∈ selectedKeys → ∀ c' ∈ candidates,
    c'.buildCol = c.buildCol → c'.probeCol = c.probeCol → c'.key ∈ selectedKeys))

/-- The test `insert_bloom_filters_selected` makes. -/
def byNames (selected : Finset (String × String)) : Keep := fun _ buildCol probeCol =>
  decide ((buildCol, probeCol) ∈ selected)

theorem Aligned.byNames_iff (h : Aligned ss candidates) {z : Site S × MlCandidate K}
    (hz : z ∈ ss.zip candidates) :
    (byNames (selectedPairs candidates selectedKeys)).passes z.1 = true ↔
      ∃ c ∈ candidates, c.key ∈ selectedKeys ∧ z.2.buildCol = c.buildCol ∧
        z.2.probeCol = c.probeCol := by
  obtain ⟨hb, hp⟩ := h.names z hz
  have hmem : (byNames (selectedPairs candidates selectedKeys)).passes z.1 = true ↔
      (z.1.buildCol, z.1.probeCol) ∈ selectedPairs candidates selectedKeys := decide_eq_true_iff
  rw [hmem, selectedPairs, List.mem_toFinset, List.mem_map, hb, hp]
  constructor
  · rintro ⟨c, hc, heq⟩
    rw [List.mem_filter, decide_eq_true_iff] at hc
    rw [Prod.mk.injEq] at heq
    exact ⟨c, hc.1, hc.2, heq.1.symm, heq.2.symm⟩
  · rintro ⟨c, hc, hkey, hcb, hcp⟩
    refine ⟨c, ?_, by rw [hcb, hcp]⟩
    rw [List.mem_filter, decide_eq_true_iff]
    exact ⟨hc, hkey⟩

theorem Aligned.noNamesake_iff (h : Aligned ss candidates) :
    NoNamesake candidates selectedKeys ↔
      ∀ z ∈ ss.zip candidates,
        (byNames (selectedPairs candidates selectedKeys)).passes z.1 = true →
          z.2.key ∈ selectedKeys := by
  constructor
  · intro hno z hz hpass
    obtain ⟨c, hc, hkey, hb, hp⟩ := (h.byNames_iff hz).1 hpass
    exact hno c hc hkey z.2 (List.of_mem_zip hz).2 hb hp
  · intro hall c hc hkey c' hc' hb hp
    rw [← h.map_snd] at hc'
    obtain ⟨z, hz, rfl⟩ := List.mem_map.1 hc'
    exact hall z hz ((h.byNames_iff hz).2 ⟨c, hc, hkey, hb, hp⟩)

/-- A selected candidate's own site passes the test. -/
theorem Aligned.byNames_of_key (h : Aligned ss candidates) {z : Site S × MlCandidate K}
    (hz : z ∈ ss.zip candidates) (hkey : z.2.key ∈ selectedKeys) :
    (byNames (selectedPairs candidates selectedKeys)).passes z.1 = true :=
  (h.byNames_iff hz).2 ⟨z.2, (List.of_mem_zip hz).2, hkey, rfl, rfl⟩

end

/-! ## Where the pairs are -/

/-- What `insert_bloom_filters_selected` does, also where it returns the plan at once. -/
theorem insertBloomFiltersSelected_placed {H : Host S} {p q : ExecutionPlan S}
    {selected : Finset (String × String)} {next next' : Nat}
    (h : insertBloomFiltersSelected H p selected next = .ok (q, next')) :
    Placed (byNames selected) p q ∧ ∀ side, (q.senders side).length =
      (p.senders side).length + ((sites p).filter (byNames selected).passes).length := by
  rw [insertBloomFiltersSelected] at h
  by_cases hsel : selected = ∅
  · rw [decide_eq_true hsel, insertWith_skip] at h
    cases h
    have hnone : ∀ s : Site S, (byNames selected).passes s = false := by
      intro s
      simp [Keep.passes, byNames, hsel]
    refine ⟨(placed_self p).congr fun s _ => (hnone s).symm, fun side => ?_⟩
    rw [List.filter_eq_nil_iff.2 fun s _ => by simp [hnone s]]
    rfl
  · rw [decide_eq_false hsel] at h
    exact ⟨insertWith_placed h, insertWith_length_senders h⟩

section
variable [DivisionRing K] [LinearOrder K] [FloorSemiring K] {H : Host S} {exp : K → K}
  {model : GbtModel K} {p q : ExecutionPlan S} {candidates : List (MlCandidate K)}
  {selectedKeys : Finset String} {budgetBytes next next' : Nat}

/-- The rewrite without its early return. -/
theorem insertBloomFiltersMl_eq (hcands : collectMlCandidates H exp model p [] = some candidates)
    (hsel : knapsackSelect candidates budgetBytes = some selectedKeys) :
    insertBloomFiltersMl H exp model p budgetBytes next =
      some (insertBloomFiltersSelected H p (selectedPairs candidates selectedKeys) next) := by
  rw [insertBloomFiltersMl, hcands]
  simp only [bind, Option.bind, hsel]
  cases candidates with
  | nil =>
    have hskip : insertBloomFiltersSelected H p
        (selectedPairs ([] : List (MlCandidate K)) selectedKeys) next = .ok (p, next) :=
      insertWith_skip H _ p next
    rw [hskip]
    rfl
  | cons c cs => rfl

/-- **When the rewrite inserts what was selected.** Pairs are placed at exactly the positions
whose candidate has a selected key, one for each selected key, if and only if no candidate left
out has the column names of a selected one. -/
theorem insertBloomFiltersMl_exact_iff
    (hcands : collectMlCandidates H exp model p [] = some candidates)
    (hsel : knapsackSelect candidates budgetBytes = some selectedKeys)
    (h : insertBloomFiltersMl H exp model p budgetBytes next = some (.ok (q, next'))) :
    (Placed (selectedAt (sites p) candidates selectedKeys) p q ∧
      ∀ side, (q.senders side).length = (p.senders side).length + selectedKeys.card) ↔
    NoNamesake candidates selectedKeys := by
  have hal := collectMlCandidates_aligned hcands
  rw [insertBloomFiltersMl_eq hcands hsel] at h
  obtain ⟨hplaced, hcount⟩ := insertBloomFiltersSelected_placed (Option.some.inj h)
  rw [hal.noNamesake_iff]
  constructor
  · rintro ⟨-, hcard⟩ z hz hpass
    -- As many sites pass the test as were selected, and the selected ones are among them.
    have hlen : ((sites p).filter
        (byNames (selectedPairs candidates selectedKeys)).passes).length = selectedKeys.card :=
      Nat.add_left_cancel ((hcount .build).symm.trans (hcard .build))
    rw [hal.length_filter, ← hal.length_selected hsel] at hlen
    have hkeys : (((sites p).zip candidates).filter fun z => decide (z.2.key ∈ selectedKeys)) =
        (((sites p).zip candidates).filter fun z =>
          (byNames (selectedPairs candidates selectedKeys)).passes z.1).filter
            fun z => decide (z.2.key ∈ selectedKeys) := by
      rw [List.filter_filter]
      refine List.filter_congr fun z hz => ?_
      rw [Bool.eq_iff_iff, Bool.and_eq_true, decide_eq_true_iff]
      exact ⟨fun hkey => ⟨hkey, hal.byNames_of_key hz hkey⟩, And.left⟩
    rw [hkeys] at hlen
    exact decide_eq_true_iff.1
      (List.length_filter_eq_length_iff.1 hlen.symm z (List.mem_filter.2 ⟨hz, hpass⟩))
  · intro hall
    have hagree : ∀ s ∈ sites p, (byNames (selectedPairs candidates selectedKeys)).passes s =
        (selectedAt (sites p) candidates selectedKeys).passes s := by
      intro s hs
      rw [← hal.map_fst] at hs
      obtain ⟨z, hz, rfl⟩ := List.mem_map.1 hs
      rw [Bool.eq_iff_iff, hal.selectedAt_iff hz]
      exact ⟨hall z hz, hal.byNames_of_key hz⟩
    refine ⟨hplaced.congr hagree, fun side => ?_⟩
    rw [hcount side, List.filter_congr hagree, hal.length_filter, ← hal.length_selected hsel]
    congr 2
    refine List.filter_congr fun z hz => ?_
    rw [Bool.eq_iff_iff, hal.selectedAt_iff hz, decide_eq_true_iff]

end

/-! ### Two joins of one build column -/

/-- A model without trees: its score is 0 everywhere. -/
def noTrees : GbtModel ℚ := ⟨[], 0, 1, 0, []⟩

def customerKey (probeCol : String) : HashJoinExec scanSig :=
  keyJoin (.column "customer_id" 0) (.column probeCol 0)

/-- Customers joined with their orders. -/
def firstHop : ExecutionPlan scanSig :=
  .hashJoin (customerKey "customer") (namedScan "customers" ["customer_id"])
    (namedScan "orders" ["customer"])

/-- The same joined with a table that refers to customers by `probeCol`. -/
def twoHops (probeCol : String) : ExecutionPlan scanSig :=
  .hashJoin (customerKey probeCol) firstHop (namedScan "returns" [probeCol])

/-- Its candidates. Nothing is known of the inputs, so 10000 rows are assumed for each filter. -/
def twoHopsCandidates (probeCol : String) : List (MlCandidate ℚ) :=
  [⟨"customer_id_0", "customer_id", "customer", 20000, 1 / 2⟩,
    ⟨"customer_id_1", "customer_id", probeCol, 20000, 1 / 2⟩]

/-- `firstHop` with a pair. -/
def firstHopBuilt : ExecutionPlan scanSig :=
  .hashJoin (customerKey "customer")
    (.bloomBuild "customer_id" 0 (namedScan "customers" ["customer_id"]))
    (.bloomProbe "customer" 0 (namedScan "orders" ["customer"]))

/-- One filter fits the default budget; the other key has other names and is left alone. -/
theorem insertBloomFiltersMl_exact_twoHops :
    Placed (selectedAt (sites (twoHops "buyer")) (twoHopsCandidates "buyer") {"customer_id_0"})
        (twoHops "buyer")
        (.hashJoin (customerKey "buyer") firstHopBuilt (namedScan "returns" ["buyer"])) ∧
      ∀ side, (senders side (.hashJoin (customerKey "buyer") firstHopBuilt
        (namedScan "returns" ["buyer"]))).length =
        (senders side (twoHops "buyer")).length + ({"customer_id_0"} : Finset String).card := by
  have hcands : collectMlCandidates acceptAll (fun _ => 1) noTrees (twoHops "buyer") [] =
      some (twoHopsCandidates "buyer") := by decide +kernel
  have hsel : knapsackSelect (twoHopsCandidates "buyer") 25000 = some {"customer_id_0"} := by
    decide +kernel
  have hrun : insertBloomFiltersMl acceptAll (fun _ => 1) noTrees (twoHops "buyer") 25000 0 =
      some (.ok (.hashJoin (customerKey "buyer") firstHopBuilt (namedScan "returns" ["buyer"]),
        1)) := by
    rw [insertBloomFiltersMl_eq hcands hsel]
    rfl
  exact (insertBloomFiltersMl_exact_iff hcands hsel hrun).2 (by decide +kernel)

/-- With the same names on both joins, the filter that was left out is inserted too. -/
theorem insertBloomFiltersMl_twoHops_inexact :
    ∃ q : ExecutionPlan scanSig,
      collectMlCandidates acceptAll (fun _ => 1) noTrees (twoHops "customer") [] =
        some (twoHopsCandidates "customer") ∧
      knapsackSelect (twoHopsCandidates "customer") 25000 = some {"customer_id_0"} ∧
      insertBloomFiltersMl acceptAll (fun _ => 1) noTrees (twoHops "customer") 25000 0 =
        some (.ok (q, 2)) ∧
      q = .hashJoin (customerKey "customer") (.bloomBuild "customer_id" 1 firstHopBuilt)
        (.bloomProbe "customer" 1 (namedScan "returns" ["customer"])) ∧
      (q.senders .build).length ≠ ((twoHops "customer").senders .build).length +
        ({"customer_id_0"} : Finset String).card := by
  have hcands : collectMlCandidates acceptAll (fun _ => 1) noTrees (twoHops "customer") [] =
      some (twoHopsCandidates "customer") := by decide +kernel
  have hsel : knapsackSelect (twoHopsCandidates "customer") 25000 = some {"customer_id_0"} := by
    decide +kernel
  refine ⟨_, hcands, hsel, ?_, rfl, by decide⟩
  rw [insertBloomFiltersMl_eq hcands hsel]
  rfl

/-! ## Room for everything -/

/-- **With room for everything the two policies agree.** -/
theorem insertBloomFiltersMl_eq_insertBloomFilters [DivisionRing K] [LinearOrder K]
    [IsStrictOrderedRing K] [FloorSemiring K] {H : Host S} {exp : K → K} {model : GbtModel K}
    {p : ExecutionPlan S} {candidates : List (MlCandidate K)} {budgetBytes : Nat}
    (hcands : collectMlCandidates H exp model p [] = some candidates)
    (hsites : sites p ≠ []) (hpos : ∀ c ∈ candidates, 0 < c.predProb) (hbudget : 0 < budgetBytes)
    (hfit : (candidates.map MlCandidate.weightKb).sum ≤ toKb budgetBytes) (next : Nat) :
    insertBloomFiltersMl H exp model p budgetBytes next =
      some (insertBloomFilters H p (collectJoinEdges p) next) := by
  have hal := collectMlCandidates_aligned hcands
  rw [insertBloomFiltersMl_eq hcands (knapsackSelect_all hbudget hpos hfit)]
  have hedges : (collectJoinEdges p).isEmpty = false := by
    rw [List.isEmpty_eq_false_iff]
    exact fun h => hsites (sites_eq_nil h)
  have hpass : ∀ s ∈ sites p,
      (byNames (selectedPairs candidates (candidates.map (·.key)).toFinset)).passes s = true := by
    intro s hs
    rw [← hal.map_fst] at hs
    obtain ⟨z, hz, rfl⟩ := List.mem_map.1 hs
    refine hal.byNames_of_key hz ?_
    rw [List.mem_toFinset]
    exact List.mem_map_of_mem (List.of_mem_zip hz).2
  -- A resolved key has passed, so the set of names is not empty.
  have hne : selectedPairs candidates (candidates.map (·.key)).toFinset ≠ ∅ := by
    intro hempty
    obtain ⟨s, hs⟩ := List.exists_mem_of_ne_nil _ hsites
    have hs := hpass s hs
    rw [hempty] at hs
    simp [Keep.passes, byNames] at hs
  rw [insertBloomFiltersSelected, insertBloomFilters, hedges, decide_eq_false hne]
  exact congrArg some (insertWith_congr H hpass next)

/-- Both filters fit, and both policies insert them. -/
theorem insertBloomFiltersMl_eq_twoHops :
    insertBloomFiltersMl acceptAll (fun _ => 1) noTrees (twoHops "buyer") 40000 0 =
      some (insertBloomFilters acceptAll (twoHops "buyer") (collectJoinEdges (twoHops "buyer"))
        0) := by
  have hcands : collectMlCandidates acceptAll (fun _ => 1) noTrees (twoHops "buyer") [] =
      some (twoHopsCandidates "buyer") := by decide +kernel
  have hsites : sites (twoHops "buyer") ≠ [] := List.cons_ne_nil _ _
  exact insertBloomFiltersMl_eq_insertBloomFilters hcands hsites (by decide +kernel) (by decide)
    (by decide +kernel) 0

/-- A host that knows of 100 rows everywhere. -/
def hundredRows : Host scanSig := { acceptAll with partitionStatistics := fun _ => .ok (some 100) }

/-- Without a budget nothing is selected, although the one filter of 200 bytes is within the
budget of 0 bytes when both are counted in KB. -/
theorem insertBloomFiltersMl_no_budget :
    (∃ c, collectMlCandidates hundredRows (fun _ => 1) noTrees firstHop [] = some [c] ∧
      0 < c.predProb ∧ ([c].map MlCandidate.weightKb).sum ≤ toKb 0) ∧
    insertBloomFiltersMl hundredRows (fun _ => 1) noTrees firstHop 0 0 =
      some (.ok (firstHop, 0)) ∧
    insertBloomFilters hundredRows firstHop (collectJoinEdges firstHop) 0 =
      .ok (firstHopBuilt, 1) ∧
    firstHop.senders .build ≠ firstHopBuilt.senders .build := by
  have hcands : collectMlCandidates hundredRows (fun _ => 1) noTrees firstHop [] =
      some [⟨"customer_id_0", "customer_id", "customer", 200, 1 / 2⟩] := by decide +kernel
  refine ⟨⟨_, hcands, by decide +kernel, by decide⟩, ?_, rfl, by decide⟩
  rw [insertBloomFiltersMl_eq hcands (knapsackSelect_eq _ _)]
  rfl

end PredicateTransfer
