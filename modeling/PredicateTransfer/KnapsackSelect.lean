import PredicateTransfer.Lib.Knapsack
import Mathlib.Data.Finset.Card

/-!
# Which filters to build

`knapsack_select` of the planner and `select_filters_exact` of the offline evaluation are two
separately written dynamic programs over weights rounded to KB. Both fill one rolling row of
values and one row of flags for each candidate, from the largest capacity down, and then trace the
flags back. Values are taken from an ordered group in place of `f64`.

Indexing a vector out of its bounds and a subtraction below zero are failures (`none`) of the
Rust program; the Python one counts negative indices from the end of a list.

* `knapsackSelect_eq` — the planner never fails and returns the keys of `Knapsack.picks`;
* `selectFiltersExact_eq` — the evaluation returns the same list of names, so both make the same
  choice, ties included.
-/

namespace PredicateTransfer

open Knapsack

variable {K : Type} [AddCommGroup K] [LinearOrder K]

/-! ## The planner -/

structure MlCandidate (K : Type) where
  key : String
  buildCol : String
  probeCol : String
  weightBytes : Nat
  predProb : K
  deriving DecidableEq, Repr

/-- The closure `to_kb`. -/
def toKb (b : Nat) : Nat := max (b / 1024) 1

/-- A candidate's entry of `ws`. -/
def MlCandidate.weightKb (c : MlCandidate K) : Nat := toKb c.weightBytes

/-- Subtraction of `usize`. -/
def checkedSub (a b : Nat) : Option Nat := if b ≤ a then some (a - b) else none

/-- `v[i] = a` on a vector. -/
def store {α : Type} (v : List α) (i : Nat) (a : α) : Option (List α) :=
  if i < v.length then some (v.set i a) else none

/-- The loop over the capacities for one candidate of weight `wi` and value `vi`. -/
def fillRow (wi : Nat) (vi : K) : List Nat → List K → List Bool → Option (List K × List Bool)
  | [], dp, row => some (dp, row)
  | w :: capacities, dp, row => do
    let i ← checkedSub w wi
    let prev ← dp[i]?
    let cur ← dp[w]?
    if cur < prev + vi then do
      let dp ← store dp w (prev + vi)
      let row ← store row w true
      fillRow wi vi capacities dp row
    else fillRow wi vi capacities dp row

/-- `(ws[i]..=w_cap).rev()`. -/
def capacities (wi wCap : Nat) : List Nat := (List.range' wi (wCap + 1 - wi)).reverse

/-- The loop over the candidates; returns `chosen`. -/
def fillTable (wCap : Nat) : List (Nat × K) → List K → Option (List (List Bool))
  | [], _ => some []
  | (wi, vi) :: items, dp => do
    let (dp, row) ← fillRow wi vi (capacities wi wCap) dp (List.replicate (wCap + 1) false)
    let rows ← fillTable wCap items dp
    return row :: rows

/-- The loop that collects the selected keys, from the last candidate to the first. -/
def traceback : List (String × Nat × List Bool) → Nat → Option (List String)
  | [], _ => some []
  | (key, wi, row) :: items, w => do
    let chosen ← row[w]?
    if chosen then do
      let w ← checkedSub w wi
      let selected ← traceback items w
      return key :: selected
    else traceback items w

/-- `knapsack_select`. -/
def knapsackSelect (candidates : List (MlCandidate K)) (budgetBytes : Nat) :
    Option (Finset String) :=
  if candidates.isEmpty || budgetBytes == 0 then some ∅
  else do
    let wCap := toKb budgetBytes
    let ws := candidates.map MlCandidate.weightKb
    let vs := candidates.map MlCandidate.predProb
    let chosen ← fillTable wCap (ws.zip vs) (List.replicate (wCap + 1) 0)
    let keys ← traceback ((candidates.map (·.key)).zip (ws.zip chosen)).reverse wCap
    return keys.toFinset

/-! ## The offline evaluation -/

/-- One entry of the evaluation's candidate list. -/
structure PyCandidate (K : Type) where
  colName : String
  value : K
  weight : Int

/-- The entry the evaluation makes of a candidate. -/
def MlCandidate.toPy (c : MlCandidate K) : PyCandidate K := ⟨c.key, c.predProb, c.weightBytes⟩

/-- `_kb`. -/
def kb (bytesVal : Int) : Int := max 1 (bytesVal / 1024)

/-- `range(start, stop, -1)`. -/
def rangeDown (start stop : Int) : List Int :=
  (List.range (start - stop).toNat).map fun k : Nat => start - (k : Int)

/-- The position a Python index names in a list of the given length. -/
def pyIndex (length : Nat) (i : Int) : Option Nat :=
  if 0 ≤ i then if i < length then some i.toNat else none
  else if 0 ≤ length + i then some (length + i).toNat else none

def pyGet {α : Type} (l : List α) (i : Int) : Option α := (pyIndex l.length i).bind (l[·]?)

def pySet {α : Type} (l : List α) (i : Int) (a : α) : Option (List α) :=
  (pyIndex l.length i).map (l.set · a)

def pyFillRow (wi : Int) (vi : K) : List Int → List K → List Bool → Option (List K × List Bool)
  | [], dp, row => some (dp, row)
  | w :: range, dp, row => do
    let prev ← pyGet dp (w - wi)
    let candidateVal := prev + vi
    let cur ← pyGet dp w
    if candidateVal > cur then do
      let dp ← pySet dp w candidateVal
      let row ← pySet row w true
      pyFillRow wi vi range dp row
    else pyFillRow wi vi range dp row

def pyFillTable (W : Int) : List (Int × K) → List K → Option (List (List Bool))
  | [], _ => some []
  | (wi, vi) :: items, dp => do
    let (dp, row) ← pyFillRow wi vi (rangeDown W (wi - 1)) dp
      (List.replicate (W + 1).toNat false)
    let rows ← pyFillTable W items dp
    return row :: rows

def pyTraceback : List (String × Int × List Bool) → Int → Option (List String)
  | [], _ => some []
  | (colName, wi, row) :: items, w => do
    let chosen ← pyGet row w
    if chosen then do
      let selected ← pyTraceback items (w - wi)
      return colName :: selected
    else pyTraceback items w

/-- `select_filters_exact`. -/
def selectFiltersExact (candidates : List (PyCandidate K)) (budgetBytes : Int) :
    Option (List String) :=
  if candidates.isEmpty || decide (budgetBytes ≤ 0) then some []
  else do
    let W := kb budgetBytes
    let ws := candidates.map (kb ·.weight)
    let vs := candidates.map (·.value)
    let chosen ← pyFillTable W (ws.zip vs) (List.replicate (W + 1).toNat 0)
    pyTraceback ((candidates.map (·.colName)).zip (ws.zip chosen)).reverse W

/-! ## The rows of the planner -/

theorem checkedSub_eq {a b : Nat} (h : b ≤ a) : checkedSub a b = some (a - b) := if_pos h

theorem store_table {α : Type} {n i : Nat} (h : i < n) (f : Nat → α) (a : α) :
    store (table n f) i a = some (table n (Function.update f i a)) := by
  rw [store, if_pos (by simpa using h), set_table]

theorem sweep_succ {wi m : Nat} (h : wi ≤ m) :
    (List.range' wi (m + 1 - wi)).reverse = m :: (List.range' wi (m - wi)).reverse := by
  have hlen : m + 1 - wi = (m - wi) + 1 := by omega
  have hlast : wi + (m - wi) = m := by omega
  rw [hlen, List.range'_1_concat, List.reverse_append, hlast]
  rfl

/-- The sweep from `m` down, after its first cell. -/
theorem fillRow_cell {n m : Nat} (hm : m < n) (wi : Nat) (vi : K) (f : Nat → K)
    (g : Nat → Bool) :
    fillRow wi vi (List.range' wi (m + 1 - wi)).reverse (table n f) (table n g) =
      fillRow wi vi (List.range' wi (m - wi)).reverse
        (table n (Function.update f m (relaxed f wi vi m)))
        (table n (Function.update g m (if Improves f wi vi m then true else g m))) := by
  by_cases hle : wi ≤ m
  · rw [sweep_succ hle, fillRow, checkedSub_eq hle]
    simp only [bind, Option.bind, getElem?_table (show m - wi < n by omega), getElem?_table hm]
    by_cases hlt : f m < f (m - wi) + vi
    · have himp : Improves f wi vi m := ⟨hle, hlt⟩
      simp only [if_pos hlt, store_table hm, relaxed_of_improves himp, if_pos himp]
    · have himp : ¬ Improves f wi vi m := fun h => hlt h.2
      simp only [if_neg hlt, relaxed_of_not_improves himp, if_neg himp, Function.update_eq_self]
  · have himp : ¬ Improves f wi vi m := fun h => hle h.1
    have hlen : m + 1 - wi = 0 := by omega
    have hlen' : m - wi = 0 := by omega
    rw [relaxed_of_not_improves himp, if_neg himp, Function.update_eq_self,
      Function.update_eq_self, hlen, hlen']

/-- **The in-place sweep.** Going down, a cell is read before any cell below it is written, so
every cell below `m` is relaxed with the values of the old row. -/
theorem fillRow_sweep {n m : Nat} (hm : m ≤ n) (wi : Nat) (vi : K) (f : Nat → K)
    (g : Nat → Bool) :
    fillRow wi vi (List.range' wi (m - wi)).reverse (table n f) (table n g) =
      some (table n fun w => if w < m then relaxed f wi vi w else f w,
        table n fun w => if w < m ∧ Improves f wi vi w then true else g w) := by
  induction m generalizing f g with
  | zero =>
    rw [Nat.zero_sub]
    simp [fillRow]
  | succ m ih =>
    rw [fillRow_cell (by omega), ih (by omega)]
    congr 3
    · funext w
      rcases Nat.lt_trichotomy w m with hw | rfl | hw
      · rw [if_pos hw, if_pos (by omega), relaxed_update hw]
      · rw [if_neg (by omega), if_pos (by omega), Function.update_self]
      · rw [if_neg (by omega), if_neg (by omega), Function.update_of_ne (by omega)]
    · funext w
      rcases Nat.lt_trichotomy w m with hw | rfl | hw
      · have hw' : w < m + 1 := by omega
        simp [hw, hw', improves_update hw, Nat.ne_of_lt hw]
      · simp
      · have hw' : ¬ w < m + 1 := by omega
        simp [Nat.lt_asymm hw, hw', Nat.ne_of_gt hw]

/-- A candidate's row: the values relaxed by it, and where it is chosen. -/
theorem fillRow_eq (wCap wi : Nat) (vi : K) (f : Nat → K) :
    fillRow wi vi (capacities wi wCap) (table (wCap + 1) f) (List.replicate (wCap + 1) false) =
      some (table (wCap + 1) (relaxed f wi vi),
        table (wCap + 1) fun w => decide (Improves f wi vi w)) := by
  rw [replicate_eq_table, capacities, fillRow_sweep le_rfl]
  congr 2
  · refine List.map_congr_left fun w hw => ?_
    rw [if_pos (List.mem_range.1 hw)]
  · refine List.map_congr_left fun w hw => ?_
    simp [List.mem_range.1 hw]

/-! ## The planner picks what the recurrence picks -/

/-- The candidates selected: none without a budget, else those of the recurrence. -/
def selectedCandidates (candidates : List (MlCandidate K)) (budgetBytes : Nat) :
    List (MlCandidate K) :=
  if budgetBytes = 0 then []
  else picks MlCandidate.weightKb MlCandidate.predProb candidates.reverse (toKb budgetBytes)

/-- Where `c` is chosen after the candidates `xs`, the latest first. -/
def choiceRow (n : Nat) (xs : List (MlCandidate K)) (c : MlCandidate K) : List Bool :=
  table n fun w => decide (Improves (best MlCandidate.weightKb MlCandidate.predProb xs)
    c.weightKb c.predProb w)

/-- The rows of `chosen` for the candidates `cs`, which come after `xs`. -/
def choiceRows (n : Nat) : List (MlCandidate K) → List (MlCandidate K) → List (List Bool)
  | _, [] => []
  | xs, c :: cs => choiceRow n xs c :: choiceRows n (c :: xs) cs

theorem fillTable_eq (wCap : Nat) (xs cs : List (MlCandidate K)) :
    fillTable wCap ((cs.map MlCandidate.weightKb).zip (cs.map MlCandidate.predProb))
        (table (wCap + 1) (best MlCandidate.weightKb MlCandidate.predProb xs)) =
      some (choiceRows (wCap + 1) xs cs) := by
  induction cs generalizing xs with
  | nil => rfl
  | cons c cs ih =>
    rw [List.map_cons, List.map_cons, List.zip_cons_cons, fillTable, fillRow_eq]
    have hrest := ih (c :: xs)
    rw [best] at hrest
    simp only [bind, Option.bind, hrest]
    rfl

/-- What the traceback sees of the processed candidates, the latest first. -/
def traced (n : Nat) : List (MlCandidate K) → List (String × Nat × List Bool)
  | [] => []
  | c :: xs => (c.key, c.weightKb, choiceRow n xs c) :: traced n xs

theorem reverse_zip_choiceRows (n : Nat) (xs cs : List (MlCandidate K)) :
    ((cs.map (·.key)).zip ((cs.map MlCandidate.weightKb).zip (choiceRows n xs cs))).reverse ++
      traced n xs = traced n (cs.reverse ++ xs) := by
  induction cs generalizing xs with
  | nil => rfl
  | cons c cs ih =>
    have hrest := ih (c :: xs)
    rw [traced] at hrest
    simp only [List.map_cons, choiceRows, List.zip_cons_cons, List.reverse_cons,
      List.append_assoc, List.singleton_append]
    exact hrest

theorem traceback_traced {n w : Nat} (hw : w < n) (xs : List (MlCandidate K)) :
    traceback (traced n xs) w =
      some ((picks MlCandidate.weightKb MlCandidate.predProb xs w).map (·.key)) := by
  induction xs generalizing w with
  | nil => rfl
  | cons c xs ih =>
    rw [traced, traceback, choiceRow, getElem?_table hw]
    simp only [bind, Option.bind, decide_eq_true_eq]
    by_cases himp : Improves (best MlCandidate.weightKb MlCandidate.predProb xs) c.weightKb
        c.predProb w
    · -- The subtraction does not underflow: the row was improved with room for the candidate.
      have hrest := ih (show w - c.weightKb < n by omega)
      rw [if_pos himp, checkedSub_eq himp.1, picks, if_pos himp]
      simp only [hrest]
      rfl
    · rw [if_neg himp, picks, if_neg himp]
      exact ih hw

/-- The two loops of the planner, run one after the other. -/
theorem fillTable_traceback (wCap : Nat) (cs : List (MlCandidate K)) :
    ∃ chosen, fillTable wCap ((cs.map MlCandidate.weightKb).zip (cs.map MlCandidate.predProb))
        (List.replicate (wCap + 1) 0) = some chosen ∧
      traceback ((cs.map (·.key)).zip ((cs.map MlCandidate.weightKb).zip chosen)).reverse wCap =
        some ((picks MlCandidate.weightKb MlCandidate.predProb cs.reverse wCap).map (·.key)) := by
  refine ⟨choiceRows (wCap + 1) [] cs, ?_, ?_⟩
  · rw [replicate_eq_table]
    exact fillTable_eq wCap [] cs
  · have hrev := reverse_zip_choiceRows (wCap + 1) [] cs
    rw [traced, List.append_nil, List.append_nil] at hrev
    rw [hrev]
    exact traceback_traced (Nat.lt_succ_self wCap) cs.reverse

/-- **The planner never fails, and selects what the recurrence picks.** -/
theorem knapsackSelect_eq (candidates : List (MlCandidate K)) (budgetBytes : Nat) :
    knapsackSelect candidates budgetBytes =
      some ((selectedCandidates candidates budgetBytes).map (·.key)).toFinset := by
  unfold knapsackSelect selectedCandidates
  by_cases hb : budgetBytes = 0
  · simp [hb]
  · cases candidates with
    | nil => simp [picks]
    | cons c cs =>
      obtain ⟨chosen, hfill, htrace⟩ := fillTable_traceback (toKb budgetBytes) (c :: cs)
      rw [if_neg (by simp [hb]), if_neg hb]
      simp only [bind, Option.bind, hfill, htrace]
      rfl

/-- With room for everything, every candidate is selected. -/
theorem knapsackSelect_all [IsOrderedCancelAddMonoid K] {candidates : List (MlCandidate K)}
    {budgetBytes : Nat} (hbudget : 0 < budgetBytes) (hpos : ∀ c ∈ candidates, 0 < c.predProb)
    (hfit : (candidates.map MlCandidate.weightKb).sum ≤ toKb budgetBytes) :
    knapsackSelect candidates budgetBytes = some (candidates.map (·.key)).toFinset := by
  have hpicks : picks MlCandidate.weightKb MlCandidate.predProb candidates.reverse
      (toKb budgetBytes) = candidates.reverse := by
    refine picks_eq_self (fun c hc => hpos c (List.mem_reverse.1 hc)) ?_
    rw [List.map_reverse, List.sum_reverse]
    exact hfit
  rw [knapsackSelect_eq, selectedCandidates, if_neg (Nat.ne_of_gt hbudget), hpicks,
    List.map_reverse, List.toFinset_reverse]

/-! ## The evaluation follows the planner -/

theorem pyIndex_natCast (length k : Nat) :
    pyIndex length k = if k < length then some k else none := by
  rw [pyIndex, if_pos (Int.natCast_nonneg k), Int.toNat_natCast]
  simp only [Nat.cast_lt]

theorem pyGet_natCast {α : Type} (l : List α) (k : Nat) : pyGet l k = l[k]? := by
  rw [pyGet, pyIndex_natCast]
  split_ifs with hk
  · rfl
  · exact (List.getElem?_eq_none (Nat.not_lt.1 hk)).symm

theorem pySet_natCast {α : Type} (l : List α) (k : Nat) (a : α) : pySet l k a = store l k a := by
  rw [pySet, pyIndex_natCast, store]
  split_ifs <;> rfl

theorem kb_natCast (b : Nat) : kb b = toKb b := by
  rw [kb, toKb, max_comm]
  norm_cast

theorem checkedSub_eq_some {a b c : Nat} (h : checkedSub a b = some c) :
    ((a : Int) - b) = c := by
  unfold checkedSub at h
  split_ifs at h with hle
  cases h
  omega

theorem rangeDown_natCast (wi wCap : Nat) :
    rangeDown wCap (wi - 1) = (capacities wi wCap).map fun w : Nat => (w : Int) := by
  have hlen : ((wCap : Int) - (wi - 1)).toNat = wCap + 1 - wi := by omega
  apply List.ext_getElem
  · simp [rangeDown, capacities, hlen]
  · intro k hk hk'
    have hlt : k < wCap + 1 - wi := by simpa [rangeDown, hlen] using hk
    simp only [rangeDown, capacities, List.getElem_map, List.getElem_range, List.getElem_reverse,
      List.getElem_range', List.length_range']
    omega

theorem pyFillRow_eq {wi : Nat} {vi : K} {range : List Nat} {dp : List K} {row : List Bool}
    {res : List K × List Bool} (h : fillRow wi vi range dp row = some res) :
    pyFillRow wi vi (range.map fun w : Nat => (w : Int)) dp row = some res := by
  induction range generalizing dp row with
  | nil => exact h
  | cons w range ih =>
    rw [fillRow] at h
    obtain ⟨i, hi, h⟩ := Option.bind_eq_some_iff.1 h
    obtain ⟨prev, hprev, h⟩ := Option.bind_eq_some_iff.1 h
    obtain ⟨cur, hcur, h⟩ := Option.bind_eq_some_iff.1 h
    rw [List.map_cons, pyFillRow, checkedSub_eq_some hi, pyGet_natCast, pyGet_natCast, hprev, hcur]
    simp only [bind, Option.bind, gt_iff_lt, pySet_natCast]
    split_ifs at h ⊢ with hlt
    · obtain ⟨dp', hdp, h⟩ := Option.bind_eq_some_iff.1 h
      obtain ⟨row', hrow, h⟩ := Option.bind_eq_some_iff.1 h
      simp only [hdp, hrow]
      exact ih h
    · exact ih h

theorem pyFillTable_eq {wCap : Nat} {items : List (Nat × K)} {dp : List K}
    {rows : List (List Bool)} (h : fillTable wCap items dp = some rows) :
    pyFillTable wCap (items.map (Prod.map (fun w : Nat => (w : Int)) id)) dp = some rows := by
  induction items generalizing dp rows with
  | nil => exact h
  | cons item items ih =>
    obtain ⟨wi, vi⟩ := item
    rw [fillTable] at h
    obtain ⟨⟨dp', row⟩, hrow, h⟩ := Option.bind_eq_some_iff.1 h
    obtain ⟨rest, hrest, h⟩ := Option.bind_eq_some_iff.1 h
    have hlen : ((wCap : Int) + 1).toNat = wCap + 1 := by omega
    rw [List.map_cons, Prod.map_apply, id, pyFillTable, rangeDown_natCast, hlen,
      pyFillRow_eq hrow]
    simp only [bind, Option.bind, ih hrest]
    exact h

theorem pyTraceback_eq {items : List (String × Nat × List Bool)} {w : Nat} {keys : List String}
    (h : traceback items w = some keys) :
    pyTraceback (items.map (Prod.map id (Prod.map (fun w : Nat => (w : Int)) id))) w =
      some keys := by
  induction items generalizing w keys with
  | nil => exact h
  | cons item items ih =>
    obtain ⟨key, wi, row⟩ := item
    rw [traceback] at h
    obtain ⟨chosen, hchosen, h⟩ := Option.bind_eq_some_iff.1 h
    rw [List.map_cons, Prod.map_apply, Prod.map_apply, id, id, pyTraceback, pyGet_natCast, hchosen]
    simp only [bind, Option.bind]
    split_ifs at h ⊢ with hc
    · obtain ⟨w', hw', h⟩ := Option.bind_eq_some_iff.1 h
      obtain ⟨rest, hrest, h⟩ := Option.bind_eq_some_iff.1 h
      rw [checkedSub_eq_some hw', ih hrest]
      exact h
    · exact ih h

/-- **The evaluation selects the same candidates**, and lists their names from the last one to
the first. -/
theorem selectFiltersExact_eq (candidates : List (MlCandidate K)) (budgetBytes : Nat) :
    selectFiltersExact (candidates.map MlCandidate.toPy) budgetBytes =
      some ((selectedCandidates candidates budgetBytes).map (·.key)) := by
  unfold selectFiltersExact selectedCandidates
  by_cases hb : budgetBytes = 0
  · simp [hb]
  · cases hcs : candidates with
    | nil => simp [picks]
    | cons c cs =>
      rw [← hcs]
      obtain ⟨chosen, hfill, htrace⟩ := fillTable_traceback (toKb budgetBytes) candidates
      have hlen : ((toKb budgetBytes : Int) + 1).toNat = toKb budgetBytes + 1 := by omega
      have hws : (candidates.map MlCandidate.toPy).map (fun c => kb c.weight) =
          (candidates.map MlCandidate.weightKb).map fun w : Nat => (w : Int) := by
        simp [MlCandidate.toPy, MlCandidate.weightKb, kb_natCast, Function.comp_def]
      have hvs : (candidates.map MlCandidate.toPy).map (·.value) =
          candidates.map MlCandidate.predProb := by
        simp [MlCandidate.toPy, Function.comp_def]
      have hnames : (candidates.map MlCandidate.toPy).map (·.colName) =
          candidates.map (·.key) := by
        simp [MlCandidate.toPy, Function.comp_def]
      rw [if_neg (by simp [hcs, hb]), if_neg hb]
      simp only [kb_natCast, hlen, hws, hvs, hnames]
      generalize candidates.map MlCandidate.weightKb = ws at hfill htrace ⊢
      generalize candidates.map MlCandidate.predProb = vs at hfill ⊢
      generalize candidates.map (·.key) = names at htrace ⊢
      rw [List.zip_map_left, pyFillTable_eq hfill]
      simp only [bind, Option.bind, List.zip_map_left, List.zip_map_right, ← List.map_reverse]
      exact pyTraceback_eq htrace

/-- **The planner and the evaluation make the same selection**, whatever the candidates, the
values and the budget. -/
theorem knapsackSelect_eq_selectFiltersExact (candidates : List (MlCandidate K))
    (budgetBytes : Nat) :
    ∃ names, selectFiltersExact (candidates.map MlCandidate.toPy) budgetBytes = some names ∧
      knapsackSelect candidates budgetBytes = some names.toFinset :=
  ⟨_, selectFiltersExact_eq candidates budgetBytes, knapsackSelect_eq candidates budgetBytes⟩

/-! ## The budget -/

theorem filter_mem_map_of_sublist {α β : Type} [DecidableEq β] (f : α → β) {xs ys : List α}
    (h : ys.Sublist xs) (hnd : (xs.map f).Nodup) :
    xs.filter (fun x => decide (f x ∈ ys.map f)) = ys := by
  induction h with
  | slnil => rfl
  | @cons ys xs a h ih =>
    rw [List.map_cons, List.nodup_cons] at hnd
    have ha : f a ∉ ys.map f := fun hmem => hnd.1 ((h.map f).subset hmem)
    rw [List.filter_cons_of_neg (by simpa using ha)]
    exact ih hnd.2
  | @cons_cons ys xs a h ih =>
    rw [List.map_cons, List.nodup_cons] at hnd
    rw [List.filter_cons_of_pos (by simp)]
    congr 1
    rw [← ih hnd.2]
    refine List.filter_congr fun x hx => ?_
    have hne : f x ≠ f a := fun heq => hnd.1 (heq ▸ List.mem_map_of_mem hx)
    rw [ih hnd.2]
    simp [hne]

theorem reverse_selectedCandidates_sublist (candidates : List (MlCandidate K)) (budgetBytes : Nat) :
    (selectedCandidates candidates budgetBytes).reverse.Sublist candidates := by
  unfold selectedCandidates
  split_ifs
  · exact List.nil_sublist _
  · have hsub := (picks_sublist MlCandidate.weightKb MlCandidate.predProb candidates.reverse
      (toKb budgetBytes)).reverse
    rw [List.reverse_reverse] at hsub
    exact hsub

/-- Different keys identify the selected candidates. -/
theorem filter_key_mem_selected {candidates : List (MlCandidate K)} {budgetBytes : Nat}
    (hkeys : (candidates.map (·.key)).Nodup) :
    candidates.filter (fun c => decide
        (c.key ∈ ((selectedCandidates candidates budgetBytes).map (·.key)).toFinset)) =
      (selectedCandidates candidates budgetBytes).reverse := by
  have hsub := reverse_selectedCandidates_sublist candidates budgetBytes
  rw [← filter_mem_map_of_sublist _ hsub hkeys]
  refine List.filter_congr fun c _ => ?_
  simp

/-- As many candidates are selected as keys are returned. -/
theorem card_selected {candidates : List (MlCandidate K)} {budgetBytes : Nat}
    {selected : Finset String} (hkeys : (candidates.map (·.key)).Nodup)
    (h : knapsackSelect candidates budgetBytes = some selected) :
    selected.card = (candidates.filter fun c => decide (c.key ∈ selected)).length := by
  rw [knapsackSelect_eq] at h
  cases h
  have hsub : (candidates.filter (fun c => decide
      (c.key ∈ ((selectedCandidates candidates budgetBytes).map (·.key)).toFinset))).Sublist
      candidates := List.filter_sublist
  rw [filter_key_mem_selected hkeys] at hsub
  have hnd := (hsub.map (·.key)).nodup hkeys
  rw [List.map_reverse, List.nodup_reverse] at hnd
  rw [filter_key_mem_selected hkeys, List.toFinset_card_of_nodup hnd, List.length_map,
    List.length_reverse]

theorem sum_weightKb_selected_le (candidates : List (MlCandidate K)) (budgetBytes : Nat) :
    ((selectedCandidates candidates budgetBytes).map MlCandidate.weightKb).sum ≤
      toKb budgetBytes := by
  unfold selectedCandidates
  split_ifs
  · exact Nat.zero_le _
  · exact sum_weight_picks_le _ _ _ _

omit [AddCommGroup K] [LinearOrder K] in
/-- Rounding to KB loses less than one KB for each candidate. -/
theorem sum_weightBytes_le (cs : List (MlCandidate K)) :
    (cs.map (·.weightBytes)).sum ≤
      1024 * (cs.map MlCandidate.weightKb).sum + 1023 * cs.length := by
  induction cs with
  | nil => exact Nat.zero_le _
  | cons c cs ih =>
    have hc : c.weightBytes ≤ 1024 * c.weightKb + 1023 := by
      unfold MlCandidate.weightKb toKb
      omega
    simp only [List.map_cons, List.sum_cons, List.length_cons]
    omega

/-- **The budget holds at the granularity of a KB.** What is selected is a sublist of the
candidates, the one their keys identify if these are pairwise different. It is empty without a
budget; its weights in KB are within the budget in KB, and so its bytes exceed the budget, or one
KB, by less than one KB for each selected candidate. -/
theorem selected_weight_le (candidates : List (MlCandidate K)) (budgetBytes : Nat) :
    ∃ selected : List (MlCandidate K), selected.Sublist candidates ∧
      knapsackSelect candidates budgetBytes = some (selected.map (·.key)).toFinset ∧
      selectFiltersExact (candidates.map MlCandidate.toPy) budgetBytes =
        some (selected.map (·.key)).reverse ∧
      ((candidates.map (·.key)).Nodup →
        candidates.filter (fun c => decide (c.key ∈ selected.map (·.key))) = selected) ∧
      (budgetBytes = 0 → selected = []) ∧
      (selected.map MlCandidate.weightKb).sum ≤ toKb budgetBytes ∧
      (selected.map (·.weightBytes)).sum ≤
        max budgetBytes 1024 + 1023 * selected.length := by
  have hsub := reverse_selectedCandidates_sublist candidates budgetBytes
  have hkb := sum_weightKb_selected_le candidates budgetBytes
  refine ⟨(selectedCandidates candidates budgetBytes).reverse, hsub, ?_, ?_,
    filter_mem_map_of_sublist _ hsub, fun hb => ?_, ?_, ?_⟩
  · rw [knapsackSelect_eq, List.map_reverse, List.toFinset_reverse]
  · rw [selectFiltersExact_eq, List.map_reverse, List.reverse_reverse]
  · simp [selectedCandidates, hb]
  · rw [List.map_reverse, List.sum_reverse]
    exact hkb
  · have hbytes := sum_weightBytes_le (selectedCandidates candidates budgetBytes)
    have hcap : 1024 * toKb budgetBytes ≤ max budgetBytes 1024 := by
      unfold toKb
      omega
    rw [List.map_reverse, List.sum_reverse, List.length_reverse]
    omega

/-- Two filters of 2047 bytes. -/
def twoFilters : List (MlCandidate ℚ) :=
  [⟨"a_0", "a", "x", 2047, 9 / 10⟩, ⟨"b_1", "b", "y", 2047, 8 / 10⟩]

/-- Each counts as one KB, so both are selected for 2048 bytes and take 4094. -/
theorem twoFilters_exceed_budget :
    knapsackSelect twoFilters 2048 = some {"a_0", "b_1"} ∧
    selectFiltersExact (twoFilters.map MlCandidate.toPy) 2048 = some ["b_1", "a_0"] ∧
    2048 < (twoFilters.map (·.weightBytes)).sum := by
  decide +kernel

end PredicateTransfer
