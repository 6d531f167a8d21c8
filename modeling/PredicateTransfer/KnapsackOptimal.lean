import PredicateTransfer.KnapsackSelect
import Mathlib.Algebra.Order.Ring.Cast
import Mathlib.Data.List.Sort

/-!
# How good the selection is

Weights are counted in KB, rounded down but never to 0. In these units the dynamic program is
exact: what it selects fits, and nothing that fits is worth more (`knapsackSelect_optimal`).

The budget and the greedy policy count bytes, and there the program can lose: filters of less than
1 KB count as one, so a set that fits in bytes may not fit in KB.

**Theorem (`optimalInBytes_iff`).** For given keys, weights and budget, the selection is optimal
among the sets that fit in bytes, whatever the values, if and only if every such set fits in KB. It
is so when every filter has at least 1 KB.

For the converse, let a set fit in bytes and not in KB. If its members are worth much more than all
the others together, a selection that misses one of them is worth less (`sum_lt_of_missing`).
-/

namespace PredicateTransfer

open Knapsack

variable {K : Type}

/-- The candidates with a key in the set. -/
def withKeys (candidates : List (MlCandidate K)) (keys : Finset String) : List (MlCandidate K) :=
  candidates.filter fun c => decide (c.key ∈ keys)

theorem withKeys_sublist (candidates : List (MlCandidate K)) (keys : Finset String) :
    (withKeys candidates keys).Sublist candidates := List.filter_sublist

/-! ## Exact in KB -/

section
variable [AddCommGroup K] [LinearOrder K]

theorem withKeys_selected {candidates : List (MlCandidate K)} {budgetBytes : Nat}
    (hkeys : (candidates.map (·.key)).Nodup) :
    withKeys candidates ((selectedCandidates candidates budgetBytes).map (·.key)).toFinset =
      (selectedCandidates candidates budgetBytes).reverse :=
  filter_key_mem_selected hkeys

/-- No candidates that fit in KB are worth more than the selected ones. -/
theorem sum_predProb_le_selected [IsOrderedAddMonoid K] {candidates cs : List (MlCandidate K)}
    {budgetBytes : Nat} (hbudget : 0 < budgetBytes) (hsub : cs.Sublist candidates)
    (hfit : (cs.map MlCandidate.weightKb).sum ≤ toKb budgetBytes) :
    (cs.map MlCandidate.predProb).sum ≤
      ((selectedCandidates candidates budgetBytes).map MlCandidate.predProb).sum := by
  rw [selectedCandidates, if_neg (Nat.ne_of_gt hbudget), sum_value_picks]
  have hbest := sum_value_le_best MlCandidate.weightKb MlCandidate.predProb hsub.reverse
    (w := toKb budgetBytes)
  rw [List.map_reverse, List.sum_reverse, List.map_reverse, List.sum_reverse] at hbest
  exact hbest hfit

/-- **The selection is optimal in KB.** For pairwise different keys and a budget, the planner
returns the keys of some of the candidates; these fit, and no candidates that fit are worth more.
No subtraction goes below zero and no index is out of bounds, or there would be no result. -/
theorem knapsackSelect_optimal [IsOrderedAddMonoid K] {candidates : List (MlCandidate K)}
    (hkeys : (candidates.map (·.key)).Nodup) {budgetBytes : Nat} (hbudget : 0 < budgetBytes) :
    ∃ selected, knapsackSelect candidates budgetBytes = some selected ∧
      selected ⊆ (candidates.map (·.key)).toFinset ∧
      ((withKeys candidates selected).map MlCandidate.weightKb).sum ≤ toKb budgetBytes ∧
      ∀ keys : Finset String,
        ((withKeys candidates keys).map MlCandidate.weightKb).sum ≤ toKb budgetBytes →
        ((withKeys candidates keys).map MlCandidate.predProb).sum ≤
          ((withKeys candidates selected).map MlCandidate.predProb).sum := by
  refine ⟨_, knapsackSelect_eq candidates budgetBytes, ?_, ?_, ?_⟩
  · intro key hkey
    rw [List.mem_toFinset] at hkey ⊢
    have hsub := reverse_selectedCandidates_sublist candidates budgetBytes
    exact (hsub.map (·.key)).subset (by rw [List.map_reverse]; exact List.mem_reverse.2 hkey)
  · rw [withKeys_selected hkeys, List.map_reverse, List.sum_reverse]
    exact sum_weightKb_selected_le candidates budgetBytes
  · intro keys hfit
    rw [withKeys_selected hkeys, List.map_reverse, List.sum_reverse]
    exact sum_predProb_le_selected hbudget (withKeys_sublist candidates keys) hfit

end

/-- Two filters of 2 and 3 KB. -/
def largeFilters : List (MlCandidate ℚ) :=
  [⟨"a_0", "a", "x", 2048, 1 / 2⟩, ⟨"b_1", "b", "y", 3072, 2 / 3⟩]

/-- There is room for one of them, and the better one is taken. -/
theorem knapsackSelect_optimal_largeFilters :
    (largeFilters.map (·.key)).Nodup ∧ knapsackSelect largeFilters 3072 = some {"b_1"} ∧
      ∀ keys : Finset String,
        ((withKeys largeFilters keys).map MlCandidate.weightKb).sum ≤ toKb 3072 →
        ((withKeys largeFilters keys).map MlCandidate.predProb).sum ≤ 2 / 3 := by
  have hkeys : (largeFilters.map (·.key)).Nodup := by decide
  have hrun : knapsackSelect largeFilters 3072 = some {"b_1"} := by decide +kernel
  obtain ⟨selected, hsel, -, -, hbest⟩ := knapsackSelect_optimal hkeys (show 0 < 3072 by decide)
  obtain rfl : {"b_1"} = selected := Option.some.inj (hrun.symm.trans hsel)
  refine ⟨hkeys, hrun, fun keys hfit => (hbest keys hfit).trans (le_of_eq ?_)⟩
  decide +kernel

/-! ## The greedy policy -/

section
variable [DivisionRing K] [LinearOrder K]

/-- What a candidate is worth for each byte. -/
def PyCandidate.ratio (c : PyCandidate K) : K := c.value / ((max c.weight 1 : Int) : K)

/-- The loop of the greedy policy: whatever still fits is taken. -/
def takeFitting : List (PyCandidate K) → Int → List (PyCandidate K)
  | [], _ => []
  | c :: ranked, remaining =>
    if c.weight ≤ remaining then c :: takeFitting ranked (remaining - c.weight)
    else takeFitting ranked remaining

/-- `select_filters_greedy`. The sort is stable, also in reverse. -/
def selectFiltersGreedy (candidates : List (PyCandidate K)) (budgetBytes : Int) : List String :=
  if candidates.isEmpty || decide (budgetBytes ≤ 0) then []
  else
    let ranked := candidates.mergeSort fun a b => decide (b.ratio ≤ a.ratio)
    (takeFitting ranked budgetBytes).map (·.colName)

omit [DivisionRing K] [LinearOrder K] in
theorem takeFitting_sublist (ranked : List (PyCandidate K)) (remaining : Int) :
    (takeFitting ranked remaining).Sublist ranked := by
  induction ranked generalizing remaining with
  | nil => exact List.Sublist.refl _
  | cons c ranked ih =>
    rw [takeFitting]
    split_ifs
    · exact (ih _).cons_cons c
    · exact (ih _).cons c

omit [DivisionRing K] [LinearOrder K] in
theorem sum_weight_takeFitting_le (ranked : List (PyCandidate K)) {remaining : Int}
    (h : 0 ≤ remaining) : ((takeFitting ranked remaining).map (·.weight)).sum ≤ remaining := by
  induction ranked generalizing remaining with
  | nil => exact h
  | cons c ranked ih =>
    rw [takeFitting]
    split_ifs with hle
    · have hrest := ih (show 0 ≤ remaining - c.weight by omega)
      rw [List.map_cons, List.sum_cons]
      omega
    · exact ih h

end

/-! ## Totals -/

def totalBytes (candidates : List (MlCandidate K)) (keys : Finset String) : Nat :=
  ((withKeys candidates keys).map (·.weightBytes)).sum

def totalKb (candidates : List (MlCandidate K)) (keys : Finset String) : Nat :=
  ((withKeys candidates keys).map MlCandidate.weightKb).sum

def totalValue [AddCommGroup K] (candidates : List (MlCandidate K)) (keys : Finset String) : K :=
  ((withKeys candidates keys).map MlCandidate.predProb).sum

theorem withKeys_all (candidates : List (MlCandidate K)) :
    withKeys candidates (candidates.map (·.key)).toFinset = candidates := by
  refine List.filter_eq_self.2 fun c hc => ?_
  simp only [decide_eq_true_eq, List.mem_toFinset]
  exact List.mem_map_of_mem hc

/-- More keys, more candidates. -/
theorem withKeys_mono {candidates : List (MlCandidate K)} {keys keys' : Finset String}
    (h : ∀ c ∈ candidates, c.key ∈ keys → c.key ∈ keys') :
    (withKeys candidates keys).Sublist (withKeys candidates keys') := by
  have hfilter : withKeys candidates keys = (withKeys candidates keys').filter
      fun c => decide (c.key ∈ keys) := by
    rw [withKeys, withKeys, List.filter_filter]
    refine List.filter_congr fun c hc => ?_
    rw [Bool.eq_iff_iff, Bool.and_eq_true, decide_eq_true_iff, decide_eq_true_iff]
    exact ⟨fun hkey => ⟨hkey, h c hc hkey⟩, And.left⟩
  rw [hfilter]
  exact List.filter_sublist

/-- What the dynamic program can select: nothing, or what fits in KB if there is a budget. -/
def FitsInKb (candidates : List (MlCandidate K)) (budgetBytes : Nat) (keys : Finset String) :
    Prop :=
  withKeys candidates keys = [] ∨
    0 < budgetBytes ∧ totalKb candidates keys ≤ toKb budgetBytes

/-- With enough weight in every filter, rounding down never makes a set too heavy. -/
theorem fitsInKb_of_le_weightBytes {candidates : List (MlCandidate K)} {budgetBytes : Nat}
    (hlarge : ∀ c ∈ candidates, 1024 ≤ c.weightBytes) {keys : Finset String}
    (hfit : totalBytes candidates keys ≤ budgetBytes) : FitsInKb candidates budgetBytes keys := by
  have hsum : ∀ cs : List (MlCandidate K), (∀ c ∈ cs, 1024 ≤ c.weightBytes) →
      1024 * (cs.map MlCandidate.weightKb).sum ≤ (cs.map (·.weightBytes)).sum := by
    intro cs hcs
    induction cs with
    | nil => exact le_rfl
    | cons c cs ih =>
      have hc := hcs c List.mem_cons_self
      have hrest := ih fun d hd => hcs d (List.mem_cons_of_mem _ hd)
      simp only [List.map_cons, List.sum_cons, MlCandidate.weightKb, toKb] at hrest ⊢
      omega
  by_cases hnil : withKeys candidates keys = []
  · exact .inl hnil
  · obtain ⟨c, hc⟩ := List.exists_mem_of_ne_nil _ hnil
    have hmem := (withKeys_sublist candidates keys).subset hc
    have hone : c.weightBytes ≤ totalBytes candidates keys :=
      List.le_sum_of_mem (List.mem_map_of_mem hc)
    have hkb := hsum (withKeys candidates keys) fun d hd =>
      hlarge d ((withKeys_sublist candidates keys).subset hd)
    have hlarge := hlarge c hmem
    refine .inr ⟨by omega, ?_⟩
    unfold totalKb toKb
    unfold totalBytes at hfit
    omega

/-- What the greedy policy takes is within the budget. -/
theorem totalBytes_greedy_le [DivisionRing K] [LinearOrder K] {candidates : List (MlCandidate K)}
    (hkeys : (candidates.map (·.key)).Nodup) (budgetBytes : Nat) :
    totalBytes candidates (selectFiltersGreedy (candidates.map MlCandidate.toPy)
      budgetBytes).toFinset ≤ budgetBytes := by
  unfold selectFiltersGreedy
  by_cases hskip : ((candidates.map MlCandidate.toPy).isEmpty ||
      decide ((budgetBytes : Int) ≤ 0)) = true
  · rw [if_pos hskip]
    simp [totalBytes, withKeys]
  · rw [if_neg hskip]
    have hperm := (candidates.map MlCandidate.toPy).mergeSort_perm
      fun a b => decide (b.ratio ≤ a.ratio)
    generalize (candidates.map MlCandidate.toPy).mergeSort
      (fun a b => decide (b.ratio ≤ a.ratio)) = ranked at hperm ⊢
    have hnames : (ranked.map (·.colName)).Nodup := by
      rw [(hperm.map (·.colName)).nodup_iff, List.map_map]
      exact hkeys
    -- The taken names identify what was taken, in the ranked list and so in the given one.
    have htaken := filter_mem_map_of_sublist _ (takeFitting_sublist ranked budgetBytes) hnames
    have hweights := (hperm.filter fun c => decide (c.colName ∈
      (takeFitting ranked budgetBytes).map (·.colName))).map (·.weight)
    rw [htaken, List.filter_map, List.map_map] at hweights
    have hsum := hweights.sum_eq
    have hle := sum_weight_takeFitting_le ranked (Int.natCast_nonneg budgetBytes)
    have hcast : ((totalBytes candidates ((takeFitting ranked budgetBytes).map
        (·.colName)).toFinset : Nat) : Int) =
        ((takeFitting ranked budgetBytes).map (·.weight)).sum := by
      rw [hsum, totalBytes, withKeys, Nat.cast_list_sum, List.map_map]
      congr 2
      refine List.filter_congr fun c _ => ?_
      rw [Bool.eq_iff_iff, Function.comp_apply, decide_eq_true_iff, decide_eq_true_iff,
        List.mem_toFinset]
      rfl
    show totalBytes candidates ((takeFitting ranked budgetBytes).map
      (·.colName)).toFinset ≤ budgetBytes
    omega

/-! ## Optimal in bytes -/

section
variable [DivisionRing K] [LinearOrder K]

/-- What one would ask of the selection: no set within the budget is worth more; everything is
selected if everything fits; and the greedy policy does no better. -/
def OptimalInBytes (candidates : List (MlCandidate K)) (budgetBytes : Nat) : Prop :=
  ∃ names, selectFiltersExact (candidates.map MlCandidate.toPy) budgetBytes = some names ∧
    knapsackSelect candidates budgetBytes = some names.toFinset ∧
    (∀ keys, totalBytes candidates keys ≤ budgetBytes →
      totalValue candidates keys ≤ totalValue candidates names.toFinset) ∧
    ((candidates.map (·.weightBytes)).sum ≤ budgetBytes →
      names.toFinset = (candidates.map (·.key)).toFinset) ∧
    totalValue candidates
        (selectFiltersGreedy (candidates.map MlCandidate.toPy) budgetBytes).toFinset ≤
      totalValue candidates names.toFinset

theorem totalValue_nonneg [IsStrictOrderedRing K] {candidates : List (MlCandidate K)}
    (hpos : ∀ c ∈ candidates, 0 < c.predProb) (keys : Finset String) :
    0 ≤ totalValue candidates keys := by
  apply List.sum_nonneg
  intro v hv
  obtain ⟨c, hc, rfl⟩ := List.mem_map.1 hv
  exact (hpos c ((withKeys_sublist candidates keys).subset hc)).le

/-- If the sets within the byte budget fit in KB, the selection is optimal among them. -/
theorem optimalInBytes_of_fitsInKb [IsStrictOrderedRing K] {candidates : List (MlCandidate K)}
    (hkeys : (candidates.map (·.key)).Nodup) (hpos : ∀ c ∈ candidates, 0 < c.predProb)
    {budgetBytes : Nat} (hfits : ∀ keys, totalBytes candidates keys ≤ budgetBytes →
      FitsInKb candidates budgetBytes keys) : OptimalInBytes candidates budgetBytes := by
  have hbest : ∀ keys, totalBytes candidates keys ≤ budgetBytes →
      totalValue candidates keys ≤ totalValue candidates
        ((selectedCandidates candidates budgetBytes).map (·.key)).toFinset := by
    intro keys hfit
    rcases hfits keys hfit with hnil | ⟨hbudget, hkb⟩
    · have hzero : totalValue candidates keys = 0 := by
        rw [totalValue, hnil]
        rfl
      rw [hzero]
      exact totalValue_nonneg hpos _
    · have hle := sum_predProb_le_selected hbudget (withKeys_sublist candidates keys) hkb
      unfold totalValue
      rw [withKeys_selected hkeys, List.map_reverse, List.sum_reverse]
      exact hle
  refine ⟨_, selectFiltersExact_eq candidates budgetBytes, knapsackSelect_eq _ _, hbest, ?_,
    hbest _ (totalBytes_greedy_le hkeys budgetBytes)⟩
  intro hall
  have hfit : totalBytes candidates (candidates.map (·.key)).toFinset ≤ budgetBytes := by
    rw [totalBytes, withKeys_all]
    exact hall
  rcases hfits _ hfit with hnil | ⟨hbudget, hkb⟩
  · rw [withKeys_all] at hnil
    subst hnil
    simp [selectedCandidates, picks]
  · rw [totalKb, withKeys_all] at hkb
    have hsel := knapsackSelect_all hbudget hpos hkb
    rw [knapsackSelect_eq] at hsel
    exact Option.some.inj hsel

end

/-! ### Values that show a loss -/

/-- The candidate with a value given for its key. -/
def MlCandidate.revalue (value : String → K) (c : MlCandidate K) : MlCandidate K :=
  { c with predProb := value c.key }

section
variable (value : String → K) (candidates : List (MlCandidate K)) (keys : Finset String)

theorem withKeys_revalue : withKeys (candidates.map (MlCandidate.revalue value)) keys =
    (withKeys candidates keys).map (MlCandidate.revalue value) := by
  rw [withKeys, withKeys, List.filter_map]
  rfl

theorem map_key_revalue :
    (candidates.map (MlCandidate.revalue value)).map (·.key) = candidates.map (·.key) := by
  rw [List.map_map]
  rfl

theorem totalBytes_revalue : totalBytes (candidates.map (MlCandidate.revalue value)) keys =
    totalBytes candidates keys := by
  rw [totalBytes, withKeys_revalue, List.map_map]
  rfl

theorem fitsInKb_revalue (budgetBytes : Nat) :
    FitsInKb (candidates.map (MlCandidate.revalue value)) budgetBytes keys ↔
      FitsInKb candidates budgetBytes keys := by
  rw [FitsInKb, FitsInKb, totalKb, totalKb, withKeys_revalue, List.map_eq_nil_iff, List.map_map]
  rfl

end

/-- Much for a key in the set, little for any other. -/
def favour (keys : Finset String) (n : Nat) (key : String) : Nat :=
  if key ∈ keys then n + 1 else 1

/-- Each key of the set that is not chosen costs `n + 1`, and each candidate gains at most 1. -/
theorem sum_favour_le (candidates : List (MlCandidate K)) (keys chosen : Finset String) (n : Nat) :
    ((withKeys candidates chosen).map fun c => favour keys n c.key).sum +
        (n + 1) * (candidates.countP fun c => decide (c.key ∈ keys ∧ c.key ∉ chosen)) ≤
      ((withKeys candidates keys).map fun c => favour keys n c.key).sum + candidates.length := by
  induction candidates with
  | nil => exact le_rfl
  | cons c cs ih =>
    rw [withKeys, withKeys] at ih ⊢
    by_cases hk : c.key ∈ keys
    · by_cases hch : c.key ∈ chosen
      · simp [hk, hch, favour] at ih ⊢
        omega
      · simp [hk, hch, favour, Nat.mul_add] at ih ⊢
        omega
    · by_cases hch : c.key ∈ chosen
      · simp [hk, hch, favour] at ih ⊢
        omega
      · simp [hk, hch, favour] at ih ⊢
        omega

/-- **A set of favoured keys is worth more than any choice that misses one of them.** -/
theorem sum_lt_of_missing {candidates : List (MlCandidate K)} {keys chosen : Finset String}
    {c : MlCandidate K} (hc : c ∈ candidates) (hkey : c.key ∈ keys) (hmiss : c.key ∉ chosen) :
    ((withKeys candidates chosen).map fun c => favour keys candidates.length c.key).sum <
      ((withKeys candidates keys).map fun c => favour keys candidates.length c.key).sum := by
  have hle := sum_favour_le candidates keys chosen candidates.length
  have hcount : 0 < candidates.countP fun c => decide (c.key ∈ keys ∧ c.key ∉ chosen) :=
    List.countP_pos_iff.2 ⟨c, hc, by simp [hkey, hmiss]⟩
  have hmul := Nat.mul_le_mul_left (candidates.length + 1) hcount
  omega

section
variable [DivisionRing K] [LinearOrder K] [IsStrictOrderedRing K]

omit [LinearOrder K] [IsStrictOrderedRing K] in
theorem totalValue_revalue (value : String → Nat) (candidates : List (MlCandidate K))
    (keys : Finset String) :
    totalValue (candidates.map (MlCandidate.revalue fun key => (value key : K))) keys =
      (((withKeys candidates keys).map fun c => value c.key).sum : Nat) := by
  rw [totalValue, withKeys_revalue, List.map_map, Nat.cast_list_sum, List.map_map]
  rfl

omit [IsStrictOrderedRing K] in
/-- What the dynamic program selects, it can select. -/
theorem fitsInKb_of_subset_selected {candidates : List (MlCandidate K)} {budgetBytes : Nat}
    (hnd : (candidates.map (·.key)).Nodup) {keys : Finset String}
    (hsub : ∀ c ∈ candidates, c.key ∈ keys →
      c.key ∈ ((selectedCandidates candidates budgetBytes).map (·.key)).toFinset) :
    FitsInKb candidates budgetBytes keys := by
  have hmono := withKeys_mono hsub
  rw [withKeys_selected hnd] at hmono
  by_cases hbudget : budgetBytes = 0
  · rw [selectedCandidates, if_pos hbudget] at hmono
    exact .inl (List.sublist_nil.1 hmono)
  · refine .inr ⟨Nat.pos_of_ne_zero hbudget, ?_⟩
    have hsum := (hmono.map MlCandidate.weightKb).sum_le_sum fun _ _ => Nat.zero_le _
    rw [List.map_reverse, List.sum_reverse] at hsum
    exact hsum.trans (sum_weightKb_selected_le candidates budgetBytes)

/-- **When the selection is optimal in bytes.** For pairwise different keys with given weights and
a given budget, it is so for all positive values if and only if every set of candidates within the
budget fits in KB: it is empty, or there is a budget and the weights in KB are within the budget in
KB. So it is when every filter has at least 1 KB. -/
theorem optimalInBytes_iff {candidates : List (MlCandidate K)}
    (hkeys : (candidates.map (·.key)).Nodup) (budgetBytes : Nat) :
    ((∀ value : String → K, (∀ key, 0 < value key) →
        OptimalInBytes (candidates.map (MlCandidate.revalue value)) budgetBytes) ↔
      ∀ keys, totalBytes candidates keys ≤ budgetBytes → FitsInKb candidates budgetBytes keys) ∧
    ((∀ c ∈ candidates, 1024 ≤ c.weightBytes) →
      ∀ keys, totalBytes candidates keys ≤ budgetBytes →
        FitsInKb candidates budgetBytes keys) := by
  refine ⟨⟨fun h keys hfit => ?_, fun hfits value hpos => ?_⟩,
    fun hlarge keys hfit => fitsInKb_of_le_weightBytes hlarge hfit⟩
  · have hpos : ∀ key, (0 : K) < (favour keys candidates.length key : K) := by
      intro key
      unfold favour
      split_ifs
      · exact_mod_cast Nat.succ_pos _
      · exact_mod_cast Nat.one_pos
    obtain ⟨names, -, hsel, hbest, -⟩ := h _ hpos
    rw [knapsackSelect_eq] at hsel
    have hchosen := Option.some.inj hsel
    rw [← fitsInKb_revalue fun key => (favour keys candidates.length key : K)]
    apply fitsInKb_of_subset_selected
    · rw [map_key_revalue]
      exact hkeys
    · rw [hchosen]
      intro c hc hkey
      by_contra hmiss
      obtain ⟨d, hd, rfl⟩ := List.mem_map.1 hc
      have hlt := sum_lt_of_missing hd hkey hmiss
      have hle := hbest keys (by rw [totalBytes_revalue]; exact hfit)
      rw [totalValue_revalue, totalValue_revalue] at hle
      exact absurd (Nat.cast_le.1 hle) (Nat.not_le.2 hlt)
  · apply optimalInBytes_of_fitsInKb
    · rw [map_key_revalue]
      exact hkeys
    · intro c hc
      obtain ⟨c, -, rfl⟩ := List.mem_map.1 hc
      exact hpos c.key
    · intro keys hfit
      rw [totalBytes_revalue] at hfit
      exact (fitsInKb_revalue value candidates keys budgetBytes).2 (hfits keys hfit)

end

/-- The two filters of at least 1 KB are selected optimally in bytes, whatever they are worth. -/
theorem optimalInBytes_largeFilters :
    (largeFilters.map (·.key)).Nodup ∧ (∀ c ∈ largeFilters, 1024 ≤ c.weightBytes) ∧
      ∀ value : String → ℚ, (∀ key, 0 < value key) →
        OptimalInBytes (largeFilters.map (MlCandidate.revalue value)) 3072 := by
  have hkeys : (largeFilters.map (·.key)).Nodup := by decide
  have hlarge : ∀ c ∈ largeFilters, 1024 ≤ c.weightBytes := by decide
  obtain ⟨hiff, hfits⟩ := optimalInBytes_iff hkeys 3072
  exact ⟨hkeys, hlarge, hiff.2 (hfits hlarge)⟩

/-- Three filters of 100 bytes. -/
def smallFilters : List (MlCandidate ℚ) :=
  [⟨"a_0", "a", "x", 100, 9 / 10⟩, ⟨"b_1", "b", "y", 100, 8 / 10⟩, ⟨"c_2", "c", "z", 100, 7 / 10⟩]

/-- All three fit in 2048 bytes and the greedy policy takes them; the exact one takes two. -/
theorem smallFilters_not_optimal :
    (∀ c ∈ smallFilters, 0 < c.predProb) ∧ (smallFilters.map (·.weightBytes)).sum ≤ 2048 ∧
    knapsackSelect smallFilters 2048 = some {"a_0", "b_1"} ∧
    selectFiltersExact (smallFilters.map MlCandidate.toPy) 2048 = some ["b_1", "a_0"] ∧
    selectFiltersGreedy (smallFilters.map MlCandidate.toPy) 2048 = ["a_0", "b_1", "c_2"] ∧
    totalValue smallFilters {"a_0", "b_1"} < totalValue smallFilters {"a_0", "b_1", "c_2"} := by
  refine ⟨by decide +kernel, by decide, by decide +kernel, by decide +kernel, ?_,
    by decide +kernel⟩
  -- The three are ranked as they are listed.
  have hranked : (smallFilters.map MlCandidate.toPy).Pairwise
      fun a b => decide (b.ratio ≤ a.ratio) = true := by decide +kernel
  have hsort := List.mergeSort_of_pairwise hranked
  rw [selectFiltersGreedy, hsort]
  decide +kernel

end PredicateTransfer
