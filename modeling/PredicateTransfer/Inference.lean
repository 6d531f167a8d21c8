import PredicateTransfer.Candidates
import PredicateTransfer.Lib.Fallible

/-!
# Inference in the planner and in Python

One model file has two readers. `predict_from_json` looks every feature up by the name the file
gives it (`feature_names`); the planner puts the five features into one fixed order and reads them
by position, and never looks at the names.

**Theorem (`rawScore_eq_pyRawScore_iff`).** The two raw scores agree on all well-formed models
with the name list `names` and on all feature values exactly when `names` is an initial segment of
the planner's order.

The walks agree step by step as long as position and name lead to the same value
(`pyWalkFrom_eq`). Where they do not, a tree with one split on the misplaced feature tells the two
apart (`oneSplit`).
-/

namespace PredicateTransfer

variable {S : Sig} {K : Type}

/-! ## Features by position and by name -/

/-- `FEATURE_COLS`, the names the exported model lists. -/
def featureCols : List String :=
  ["build_cardinality", "distinct_estimate", "filter_size_bytes", "build_time_ms",
    "distinctness_ratio"]

/-- Values of the five known features. -/
structure BuildFeatures (K : Type) where
  buildCardinality : K
  distinctEstimate : K
  filterSizeBytes : K
  buildTimeMs : K
  distinctnessRatio : K

/-- The features in the order of the array that `extract_features` returns. -/
def BuildFeatures.toArray (x : BuildFeatures K) : List K :=
  [x.buildCardinality, x.distinctEstimate, x.filterSizeBytes, x.buildTimeMs, x.distinctnessRatio]

/-- The features as the `features_dict` of the Python inference; another name is a `KeyError`. -/
def BuildFeatures.toDict (x : BuildFeatures K) (name : String) : Option K :=
  if name = "build_cardinality" then some x.buildCardinality
  else if name = "distinct_estimate" then some x.distinctEstimate
  else if name = "filter_size_bytes" then some x.filterSizeBytes
  else if name = "build_time_ms" then some x.buildTimeMs
  else if name = "distinctness_ratio" then some x.distinctnessRatio
  else none

theorem BuildFeatures.toArray_getElem? (x : BuildFeatures K) (i : Nat) :
    x.toArray[i]? = (featureCols[i]?).bind x.toDict := by
  match i with
  | 0 | 1 | 2 | 3 | 4 => simp [toArray, featureCols, toDict]
  | i + 5 => simp [toArray, featureCols]

variable [DivisionRing K] [LinearOrder K]

/-! ## The raw scores -/

/-- The score `predict_proba` computes before the sigmoid. -/
def rawScore (features : List K) (model : GbtModel K) : Option K :=
  model.trees.foldlM (fun score tree => do
    return score + model.learningRate * (← walkTree tree.nodes features)) model.initScore

theorem predictProba_eq_rawScore (exp : K → K) (features : List K) (model : GbtModel K) :
    predictProba exp features model =
      (rawScore features model).map fun score => 1 / (1 + exp (-score)) := by
  unfold predictProba
  change (rawScore features model).bind _ = _
  cases rawScore features model <;> rfl

/-- The `while` loop of `predict_from_json`, for at most `fuel` nodes. Arithmetic on `None` is a
`TypeError`. -/
def pyWalkFrom (nodes : List (Node K)) (x : List K) : Nat → Int → Option K
  | 0, _ => none
  | fuel + 1, idx => do
    let n ← pyGet nodes idx
    if n.feature = -1 then n.value
    else
      let featVal ← pyGet x n.feature
      let threshold ← n.threshold
      pyWalkFrom nodes x fuel (if featVal ≤ threshold then n.left else n.right)

/-- The score `predict_from_json` computes before the sigmoid. -/
def pyRawScore (featuresDict : String → Option K) (model : GbtModel K) : Option K := do
  let x ← model.featureNames.mapM featuresDict
  model.trees.foldlM (fun score tree => do
    return score + model.learningRate * (← pyWalkFrom tree.nodes x tree.nodes.length 0))
    model.initScore

/-- `predict_from_json`. -/
def predictFromJson (exp : K → K) (featuresDict : String → Option K) (model : GbtModel K) :
    Option K := do
  let score ← pyRawScore featuresDict model
  return 1 / (1 + exp (-score))

/-! ## Well-formed models -/

/-- The nodes reached from node `i` are a tree over `n` features: `i` is a leaf with a value, or
an inner node with a threshold whose two children are trees. All numbers fit their `i32`. -/
inductive IsTree (nodes : List (Node K)) (n : Nat) : Nat → Prop
  | leaf {i : Nat} {node : Node K} {v : K} (hnode : nodes[i]? = some node)
      (hleaf : node.feature = -1) (hvalue : node.value = some v) : IsTree nodes n i
  | inner {i f l r : Nat} {node : Node K} {t : K} (hnode : nodes[i]? = some node)
      (hfeature : node.feature = f) (hf : f < n) (ht : node.threshold = some t)
      (hl : node.left = l) (hr : node.right = r)
      (hbound : f < 2 ^ 31 ∧ l < 2 ^ 31 ∧ r < 2 ^ 31)
      (left : IsTree nodes n l) (right : IsTree nodes n r) : IsTree nodes n i

/-- Every tree of the model is one over the features the model names. -/
def GbtModel.WellFormed (model : GbtModel K) : Prop :=
  ∀ tree ∈ model.trees, IsTree tree.nodes model.featureNames.length 0

/-! ## Walks that agree -/

theorem asUsize_natCast {i : Nat} (h : i < 2 ^ 31) : asUsize (i : Int) = i := by
  unfold asUsize
  omega

section
variable {nodes : List (Node K)} {features x : List K} {n : Nat}

theorem walkFrom_inner {i fuel : Nat} {node : Node K} (hnode : nodes[i]? = some node)
    (hinner : node.feature ≠ -1) :
    walkFrom nodes features (fuel + 1) i = walkFrom nodes features fuel (node.next features) := by
  simp [walkFrom, hnode, hinner]

theorem exists_walkFrom {i : Nat} (h : IsTree nodes n i) :
    ∃ fuel v, walkFrom nodes features fuel i = some v := by
  induction h with
  | @leaf i node v hnode hleaf hvalue =>
    exact ⟨1, v, by simp [walkFrom, hnode, hleaf, hvalue]⟩
  | @inner i f l r node t hnode hfeature hf ht hl hr hbound _ _ ihl ihr =>
    obtain ⟨fl, vl, hwl⟩ := ihl
    obtain ⟨fr, vr, hwr⟩ := ihr
    have hinner : node.feature ≠ -1 := by omega
    have hnext : node.next features = l ∨ node.next features = r := by
      simp only [Node.next, hl, hr, asUsize_natCast hbound.2.1, asUsize_natCast hbound.2.2]
      split_ifs
      · exact .inl rfl
      · exact .inr rfl
    rcases hnext with hnext | hnext
    · exact ⟨fl + 1, vl, by rw [walkFrom_inner hnode hinner, hnext, hwl]⟩
    · exact ⟨fr + 1, vr, by rw [walkFrom_inner hnode hinner, hnext, hwr]⟩

/-- **The two walks agree** on a tree over features that both readers find the same values for. -/
theorem pyWalkFrom_eq (hlen : x.length = n) (hx : ∀ f < n, x[f]? = features[f]?) {i : Nat}
    (h : IsTree nodes n i) (fuel : Nat) :
    pyWalkFrom nodes x fuel i = walkFrom nodes features fuel i := by
  induction fuel generalizing i with
  | zero => rfl
  | succ fuel ih =>
    cases h with
    | @leaf _ node v hnode hleaf hvalue =>
      simp [pyWalkFrom, walkFrom, pyGet_natCast, hnode, hleaf, hvalue]
    | @inner _ f l r node t hnode hfeature hf ht hl hr hbound left right =>
      have hinner : node.feature ≠ -1 := by omega
      obtain ⟨a, ha⟩ : ∃ a, x[f]? = some a :=
        ⟨_, List.getElem?_eq_getElem (hlen.symm ▸ hf)⟩
      have hnext : node.next features = if a ≤ t then l else r := by
        simp only [Node.next, hfeature, ht, hl, hr, asUsize_natCast hbound.1,
          asUsize_natCast hbound.2.1, asUsize_natCast hbound.2.2, ← hx f hf, ha,
          Option.getD_some]
      have hpy : pyWalkFrom nodes x (fuel + 1) i =
          pyWalkFrom nodes x fuel (if a ≤ t then (l : Int) else r) := by
        rw [pyWalkFrom, pyGet_natCast, hnode]
        simp only [bind, Option.bind, if_neg hinner]
        simp only [hfeature, pyGet_natCast, ha, ht, hl, hr]
      rw [hpy, walkFrom_inner hnode hinner, hnext]
      split_ifs
      · exact ih left
      · exact ih right

end

/-! ## Scores that agree -/

omit [LinearOrder K] in
/-- Sums over the trees agree when the walks do. -/
theorem foldlM_score_eq {α : Type} {lr : K} {f g : α → Option K} {trees : List α} (score : K)
    (h : ∀ tree ∈ trees, ∃ v, f tree = some v ∧ g tree = some v) :
    ∃ v, trees.foldlM (fun s tree => do return s + lr * (← f tree)) score = some v ∧
      trees.foldlM (fun s tree => do return s + lr * (← g tree)) score = some v := by
  induction trees generalizing score with
  | nil => exact ⟨score, rfl, rfl⟩
  | cons tree trees ih =>
    obtain ⟨v, hf, hg⟩ := h tree List.mem_cons_self
    obtain ⟨w, hw⟩ := ih (score + lr * v) fun t ht => h t (List.mem_cons_of_mem _ ht)
    exact ⟨w, by simpa [List.foldlM_cons, hf, hg] using hw⟩

/-- The readers agree on a model whose named features have the values the planner finds at
their positions. -/
theorem rawScore_eq_pyRawScore_of_values {model : GbtModel K} (hwf : model.WellFormed)
    {dict : String → Option K} {xs features : List K}
    (hxs : model.featureNames.mapM dict = some xs)
    (hx : ∀ f < model.featureNames.length, xs[f]? = features[f]?) :
    ∃ score, rawScore features model = some score ∧ pyRawScore dict model = some score := by
  unfold rawScore pyRawScore
  rw [hxs]
  refine foldlM_score_eq model.initScore fun tree htree => ?_
  have hends : ∃ fuel v, walkFrom tree.nodes features fuel 0 = some v :=
    exists_walkFrom (hwf tree htree)
  obtain ⟨fuel, v, hv⟩ := hends
  have hwalk := walkFrom_length hv
  exact ⟨v, hwalk, (pyWalkFrom_eq (Fallible.mapM_getElem? hxs).1 hx (hwf tree htree) _).trans hwalk⟩

/-- The readers agree on a model that names its features in the planner's order. -/
theorem rawScore_eq_pyRawScore_of_isPrefix {model : GbtModel K} (hwf : model.WellFormed)
    (hnames : model.featureNames <+: featureCols) (x : BuildFeatures K) :
    ∃ score, rawScore x.toArray model = some score ∧ pyRawScore x.toDict model = some score := by
  have hknown : ∃ xs, model.featureNames.mapM x.toDict = some xs := by
    obtain ⟨rest, hrest⟩ := hnames
    have hall : featureCols.mapM x.toDict = some x.toArray := rfl
    rw [← hrest, List.mapM_append] at hall
    obtain ⟨xs, hxs, -⟩ := Option.bind_eq_some_iff.1 hall
    exact ⟨xs, hxs⟩
  obtain ⟨xs, hxs⟩ := hknown
  refine rawScore_eq_pyRawScore_of_values hwf hxs fun f hf => ?_
  rw [(Fallible.mapM_getElem? hxs).2, x.toArray_getElem?, List.getElem?_eq_getElem hf,
    List.prefix_iff_getElem?.1 hnames f hf]

/-! ## A tree that tells the readers apart -/

/-- One split on feature `i`, with the threshold at the lower of 0 and 1. -/
def splitNodes (i : Nat) : List (Node K) :=
  [⟨i, some (min 0 1), 1, 2, none⟩, ⟨-1, none, -1, -1, some 0⟩, ⟨-1, none, -1, -1, some 1⟩]

def oneSplit (names : List String) (i : Nat) : GbtModel K where
  featureNames := names
  nEstimators := 1
  learningRate := 1
  initScore := 0
  trees := [⟨splitNodes i⟩]

/-- One feature is 1, the others are 0. -/
def BuildFeatures.indicator (name : String) : BuildFeatures K :=
  let value (c : String) : K := if c = name then 1 else 0
  ⟨value "build_cardinality", value "distinct_estimate", value "filter_size_bytes",
    value "build_time_ms", value "distinctness_ratio"⟩

omit [LinearOrder K] in
theorem BuildFeatures.toArray_indicator (name : String) (i : Nat)
    (h : featureCols[i]? ≠ some name) :
    ((indicator name : BuildFeatures K).toArray[i]?).getD 0 = 0 := by
  have harr : (indicator name : BuildFeatures K).toArray =
      featureCols.map fun c => if c = name then (1 : K) else 0 := rfl
  rw [harr, List.getElem?_map]
  cases hc : featureCols[i]? with
  | none => rfl
  | some c =>
    have hne : c ≠ name := fun e => h (by rw [hc, e])
    simp [hne]

omit [LinearOrder K] in
theorem BuildFeatures.toDict_indicator {name : String} {v : K}
    (h : (indicator name : BuildFeatures K).toDict name = some v) : v = 1 := by
  unfold toDict indicator at h
  split_ifs at h <;> simp_all

theorem oneSplit_wellFormed {names : List String} {i : Nat} (hi : i < names.length)
    (hbound : i < 2 ^ 31) : (oneSplit names i : GbtModel K).WellFormed := by
  intro tree htree
  obtain rfl := List.mem_singleton.1 htree
  refine .inner rfl rfl hi rfl rfl rfl ⟨hbound, by norm_num, by norm_num⟩ ?_ ?_
  · exact .leaf rfl rfl rfl
  · exact .leaf rfl rfl rfl

theorem walkTree_splitNodes {features : List K} {i : Nat} (hbound : i < 2 ^ 31) :
    walkTree (splitNodes i) features =
      some (if (features[i]?).getD 0 ≤ min 0 1 then 0 else 1) := by
  have hnext : (⟨i, some (min 0 1), 1, 2, none⟩ : Node K).next features =
      if (features[i]?).getD 0 ≤ min 0 1 then 1 else 2 := by
    simp only [Node.next, asUsize_natCast hbound, Option.getD_some]
    rfl
  have hinner : (i : Int) ≠ -1 := by omega
  have hstep : walkTree (splitNodes i) features = walkFrom (splitNodes i) features 2
      ((⟨i, some (min 0 1), 1, 2, none⟩ : Node K).next features) :=
    walkFrom_inner rfl hinner
  rw [hstep, hnext]
  split_ifs <;> rfl

/-- The planner's score is the leaf of the feature at position `i`. -/
theorem rawScore_oneSplit {names : List String} {features : List K} {i : Nat}
    (hbound : i < 2 ^ 31) : rawScore features (oneSplit names i) =
      some (if (features[i]?).getD 0 ≤ min 0 1 then 0 else 1) := by
  simp [rawScore, oneSplit, walkTree_splitNodes hbound]

/-- **The planner and Python agree on a list of feature names exactly when it is an initial
segment of the planner's order.** -/
theorem rawScore_eq_pyRawScore_iff (names : List String) :
    (∀ model : GbtModel K, model.featureNames = names → model.WellFormed →
      ∀ x : BuildFeatures K, ∃ score,
        rawScore x.toArray model = some score ∧ pyRawScore x.toDict model = some score) ↔
      names <+: featureCols := by
  constructor
  · intro h
    rw [List.prefix_iff_getElem?]
    by_contra hne
    push Not at hne
    -- A first misplaced name stands at position 5 at the latest, where the planner has none.
    obtain ⟨i, hi, hcol, hbound⟩ : ∃ i, ∃ hi : i < names.length,
        featureCols[i]? ≠ some names[i] ∧ i < 2 ^ 31 := by
      obtain ⟨i, hi, hcol⟩ := hne
      by_cases hlt : i < 2 ^ 31
      · exact ⟨i, hi, hcol, hlt⟩
      · exact ⟨5, by omega, by simp [featureCols], by norm_num⟩
    let x : BuildFeatures K := .indicator names[i]
    have hwf : (oneSplit names i : GbtModel K).WellFormed := oneSplit_wellFormed hi hbound
    obtain ⟨score, hrust, hpy⟩ := h (oneSplit names i) rfl hwf x
    obtain ⟨xs, hxs, -⟩ := Option.bind_eq_some_iff.1 hpy
    -- Python reads 1, the planner reads 0, and the threshold lies between.
    obtain ⟨v, hv⟩ : ∃ v, xs[i]? = some v :=
      ⟨_, List.getElem?_eq_getElem ((Fallible.mapM_getElem? hxs).1.symm ▸ hi)⟩
    have hone : v = 1 := by
      apply BuildFeatures.toDict_indicator
      have hget := (Fallible.mapM_getElem? hxs).2 i
      rw [hv] at hget
      change some v = (names[i]?).bind x.toDict at hget
      rw [List.getElem?_eq_getElem hi] at hget
      exact hget.symm
    obtain ⟨score', hrust', hpy'⟩ := rawScore_eq_pyRawScore_of_values hwf hxs fun _ _ => rfl
    rw [hpy] at hpy'
    cases hpy'
    rw [rawScore_oneSplit hbound, BuildFeatures.toArray_indicator _ _ hcol] at hrust
    rw [rawScore_oneSplit hbound, hv, hone, Option.getD_some, ← hrust] at hrust'
    rcases lt_or_gt_of_ne (zero_ne_one' K) with hlt | hlt
    · simp [min_eq_left hlt.le, hlt.not_ge] at hrust'
    · simp [min_eq_right hlt.le, hlt.not_ge] at hrust'
  · rintro hnames model rfl hwf x
    exact rawScore_eq_pyRawScore_of_isPrefix hwf hnames x

/-- A model that lists its features in the reverse order: the planner reads the build cardinality
where the tree asks for the distinctness ratio. -/
theorem rawScore_reversed_names :
    (oneSplit featureCols.reverse 0 : GbtModel ℚ).WellFormed ∧
    rawScore (⟨1, 0, 0, 0, 0⟩ : BuildFeatures ℚ).toArray
      (oneSplit featureCols.reverse 0) = some 1 ∧
    pyRawScore (⟨1, 0, 0, 0, 0⟩ : BuildFeatures ℚ).toDict
      (oneSplit featureCols.reverse 0) = some 0 :=
  ⟨oneSplit_wellFormed (by decide) (by decide), by decide +kernel, by decide +kernel⟩

end PredicateTransfer
