import PredicateTransfer.Inference

/-!
# Which model files are safe

`load_model_once` accepts whatever deserializes: links may point anywhere, also back, and a node
list may be empty. `walk_tree` follows them inside query planning, without a bound.

**Theorem (`predictProba_safe_iff`).** A model can be evaluated on every feature vector if and only
if it passes `GbtModel.isSafe`, a check on the file alone, which the loader does not make.

The check explores a tree from its root. It keeps, for each feature, the range of values with which
a walk can come to the node it is at, and goes into a child only if some value is left. A negative
feature index becomes one that no slice has, and is read as 0 from every vector; such a node has one
way out. Since the check is exact (`reachesLeaf_iff`), a link that no feature vector follows does no
harm. A walk that ends visits no node twice, so exploring paths of as many nodes as there are is
enough.
-/

namespace PredicateTransfer

variable {K : Type}

/-! ## Ranges of a feature -/

/-- The values above `lower` and up to `upper`, where these are given. -/
structure FeatureRange (K : Type) where
  lower : Option K
  upper : Option K

namespace FeatureRange

def full : FeatureRange K := ⟨none, none⟩

variable [LinearOrder K]

/-- The values of the range that are at most `t`. -/
def atMost (t : K) (r : FeatureRange K) : FeatureRange K :=
  { r with upper := some (match r.upper with | some u => min u t | none => t) }

/-- The values of the range that are above `t`. -/
def above (t : K) (r : FeatureRange K) : FeatureRange K :=
  { r with lower := some (match r.lower with | some l => max l t | none => t) }

def isEmpty (r : FeatureRange K) : Bool :=
  match r.lower, r.upper with
  | some l, some u => decide (u ≤ l)
  | _, _ => false

def Contains (r : FeatureRange K) (v : K) : Prop :=
  (∀ l, r.lower = some l → l < v) ∧ ∀ u, r.upper = some u → v ≤ u

theorem contains_full (v : K) : (full : FeatureRange K).Contains v := ⟨nofun, nofun⟩

theorem contains_atMost {t v : K} {r : FeatureRange K} :
    (r.atMost t).Contains v ↔ r.Contains v ∧ v ≤ t := by
  obtain ⟨lower, upper⟩ := r
  cases upper with
  | none => simp [Contains, atMost]
  | some u => simp [Contains, atMost, and_assoc]

theorem contains_above {t v : K} {r : FeatureRange K} :
    (r.above t).Contains v ↔ r.Contains v ∧ t < v := by
  obtain ⟨lower, upper⟩ := r
  cases lower with
  | none =>
    simp only [Contains, above, Option.some.injEq, forall_eq', reduceCtorEq, false_implies,
      implies_true, true_and]
    exact and_comm
  | some l =>
    simp only [Contains, above, Option.some.injEq, forall_eq', max_lt_iff]
    exact and_right_comm

/-- A range is empty exactly when it contains nothing. -/
theorem exists_contains_iff [DivisionRing K] [IsStrictOrderedRing K] {r : FeatureRange K} :
    (∃ v, r.Contains v) ↔ r.isEmpty = false := by
  obtain ⟨lower, upper⟩ := r
  cases lower with
  | none =>
    refine ⟨fun _ => rfl, fun _ => ?_⟩
    cases upper with
    | none => exact ⟨0, contains_full 0⟩
    | some u => exact ⟨u, nofun, fun _ h => (Option.some.inj h).le⟩
  | some l =>
    cases upper with
    | none =>
      refine ⟨fun _ => rfl, fun _ => ⟨l + 1, fun l' h => ?_, nofun⟩⟩
      rw [← Option.some.inj h]
      exact lt_add_one l
    | some u =>
      simp only [Contains, isEmpty, Option.some.injEq, forall_eq', decide_eq_false_iff_not, not_le]
      exact ⟨fun ⟨v, hl, hu⟩ => hl.trans_le hu, fun h => ⟨u, h, le_rfl⟩⟩

end FeatureRange

/-! ## The check -/

/-- A slice of `f64` has no more elements than this: it has at most `isize::MAX` bytes. -/
def maxFeatures : Nat := 2 ^ 60 - 1

/-- A range for each feature. -/
abbrev FeatureBox (K : Type) := Nat → FeatureRange K

section
variable [DivisionRing K] [LinearOrder K]

/-- The feature an inner node tests. -/
def Node.tested (node : Node K) : Nat := asUsize node.feature

/-- The box on the left of an inner node's threshold. -/
def FeatureBox.left (box : FeatureBox K) (node : Node K) : FeatureBox K :=
  Function.update box node.tested ((box node.tested).atMost (node.threshold.getD 0))

/-- The box on its right. -/
def FeatureBox.right (box : FeatureBox K) (node : Node K) : FeatureBox K :=
  Function.update box node.tested ((box node.tested).above (node.threshold.getD 0))

/-- Every walk from node `idx` on with features in the box reaches a leaf within `fuel` nodes. -/
def reachesLeaf (nodes : List (Node K)) : Nat → FeatureBox K → Nat → Bool
  | 0, _, _ => false
  | fuel + 1, box, idx =>
    match nodes[idx]? with
    | none => false
    | some node =>
      if node.feature = -1 then true
      else if maxFeatures ≤ node.tested then reachesLeaf nodes fuel box (node.next [])
      else
        ((box.left node node.tested).isEmpty ||
          reachesLeaf nodes fuel (box.left node) (asUsize node.left)) &&
        ((box.right node node.tested).isEmpty ||
          reachesLeaf nodes fuel (box.right node) (asUsize node.right))

/-- The check a loader would have to make. -/
def GbtModel.isSafe (model : GbtModel K) : Bool :=
  model.trees.all fun tree =>
    reachesLeaf tree.nodes tree.nodes.length (fun _ => FeatureRange.full) 0

/-! ## The check is exact -/

/-- The vector, read with 0 beyond its end, is in the box. -/
structure FeatureBox.Contains (box : FeatureBox K) (x : List K) : Prop where
  length : x.length ≤ maxFeatures
  values : ∀ f, (box f).Contains ((x[f]?).getD 0)

/-- Every range has a value, and only features that a vector can have are constrained. -/
structure FeatureBox.Inhabited (box : FeatureBox K) : Prop where
  nonempty : ∀ f, (box f).isEmpty = false
  support : ∃ n ≤ maxFeatures, ∀ f, n ≤ f → box f = FeatureRange.full

theorem FeatureBox.Inhabited.exists_contains [IsStrictOrderedRing K] {box : FeatureBox K}
    (h : box.Inhabited) : ∃ x, box.Contains x := by
  obtain ⟨n, hle, hn⟩ := h.support
  have hval : ∀ f, ∃ v, (box f).Contains v := fun f =>
    FeatureRange.exists_contains_iff.2 (h.nonempty f)
  choose v hv using hval
  refine ⟨(List.range n).map v, by simpa using hle, fun f => ?_⟩
  by_cases hf : f < n
  · simp only [List.getElem?_map, List.getElem?_range hf, Option.map_some, Option.getD_some]
    exact hv f
  · rw [hn f (by omega)]
    exact FeatureRange.contains_full _

omit [DivisionRing K] in
theorem FeatureBox.Inhabited.update {box : FeatureBox K} (h : box.Inhabited) {f : Nat}
    (hf : f < maxFeatures) {r : FeatureRange K} (hr : r.isEmpty = false) :
    FeatureBox.Inhabited (Function.update box f r) := by
  obtain ⟨n, hle, hn⟩ := h.support
  refine ⟨fun g => ?_, max n (f + 1), max_le hle hf, fun g hg => ?_⟩
  · by_cases hgf : g = f
    · subst hgf
      rw [Function.update_self]
      exact hr
    · rw [Function.update_of_ne hgf]
      exact h.nonempty g
  · rw [Function.update_of_ne (by omega)]
    exact hn g (by omega)

/-- A box is cut at a threshold by cutting the range of the tested feature. -/
theorem FeatureBox.contains_update {box : FeatureBox K} {f : Nat} {r : FeatureRange K}
    {p : K → Prop} (hr : ∀ v, r.Contains v ↔ (box f).Contains v ∧ p v) {x : List K} :
    FeatureBox.Contains (Function.update box f r) x ↔ box.Contains x ∧ p ((x[f]?).getD 0) := by
  refine ⟨fun h => ⟨⟨h.length, fun g => ?_⟩, ?_⟩, fun ⟨h, hp⟩ => ⟨h.length, fun g => ?_⟩⟩
  · have hg := h.values g
    by_cases hgf : g = f
    · subst hgf
      rw [Function.update_self] at hg
      exact ((hr _).1 hg).1
    · rw [Function.update_of_ne hgf] at hg
      exact hg
  · have hf := h.values f
    rw [Function.update_self] at hf
    exact ((hr _).1 hf).2
  · by_cases hgf : g = f
    · subst hgf
      rw [Function.update_self]
      exact (hr _).2 ⟨h.values g, hp⟩
    · rw [Function.update_of_ne hgf]
      exact h.values g

theorem FeatureBox.contains_left {box : FeatureBox K} {node : Node K} {x : List K} :
    (box.left node).Contains x ↔
      box.Contains x ∧ (x[node.tested]?).getD 0 ≤ node.threshold.getD 0 :=
  contains_update fun _ => FeatureRange.contains_atMost

theorem FeatureBox.contains_right {box : FeatureBox K} {node : Node K} {x : List K} :
    (box.right node).Contains x ↔
      box.Contains x ∧ node.threshold.getD 0 < (x[node.tested]?).getD 0 :=
  contains_update fun _ => FeatureRange.contains_above

variable [IsStrictOrderedRing K]

/-- One child of an inner node: nothing is to be shown if no walk goes there. -/
theorem child_iff {box : FeatureBox K} (h : box.Inhabited) {f : Nat} (hlt : f < maxFeatures)
    {r : FeatureRange K} {check : Bool} {ends : List K → Prop}
    (ih : FeatureBox.Inhabited (Function.update box f r) →
      (check = true ↔ ∀ x, FeatureBox.Contains (Function.update box f r) x → ends x)) :
    ((Function.update box f r f).isEmpty || check) = true ↔
      ∀ x, FeatureBox.Contains (Function.update box f r) x → ends x := by
  rw [Function.update_self]
  by_cases hempty : r.isEmpty = true
  · refine ⟨fun _ x hx => ?_, fun _ => by simp [hempty]⟩
    have hf := hx.values f
    rw [Function.update_self] at hf
    rw [FeatureRange.exists_contains_iff.1 ⟨_, hf⟩] at hempty
    cases hempty
  · rw [Bool.not_eq_true] at hempty
    rw [hempty, Bool.false_or]
    exact ih (h.update hlt hempty)

omit [IsStrictOrderedRing K] in
/-- Every vector of a box is on one side of the threshold, so a walk from an inner node on is one
from the left child or one from the right child. -/
theorem walkFrom_split {nodes : List (Node K)} {idx : Nat} {node : Node K}
    (hnode : nodes[idx]? = some node) (hleaf : node.feature ≠ -1) (fuel : Nat)
    (box : FeatureBox K) :
    (∀ x, box.Contains x → ∃ v, walkFrom nodes x (fuel + 1) idx = some v) ↔
      (∀ x, (box.left node).Contains x →
        ∃ v, walkFrom nodes x fuel (asUsize node.left) = some v) ∧
      ∀ x, (box.right node).Contains x →
        ∃ v, walkFrom nodes x fuel (asUsize node.right) = some v := by
  refine ⟨fun hall => ⟨fun x hx => ?_, fun x hx => ?_⟩, fun ⟨hl, hr⟩ x hx => ?_⟩
  · obtain ⟨hx, hle⟩ := FeatureBox.contains_left.1 hx
    have hwalk := hall x hx
    rw [walkFrom_inner hnode hleaf, Node.next] at hwalk
    simp only [Node.tested] at hle
    simpa only [if_pos hle] using hwalk
  · obtain ⟨hx, hlt⟩ := FeatureBox.contains_right.1 hx
    have hwalk := hall x hx
    rw [walkFrom_inner hnode hleaf, Node.next] at hwalk
    simp only [Node.tested] at hlt
    simpa only [if_neg (not_le.2 hlt)] using hwalk
  · rw [walkFrom_inner hnode hleaf, Node.next]
    by_cases hle : (x[node.tested]?).getD 0 ≤ node.threshold.getD 0
    · have hwalk := hl x (FeatureBox.contains_left.2 ⟨hx, hle⟩)
      simp only [Node.tested] at hle
      simpa only [if_pos hle] using hwalk
    · have hwalk := hr x (FeatureBox.contains_right.2 ⟨hx, not_le.1 hle⟩)
      simp only [Node.tested] at hle
      simpa only [if_neg hle] using hwalk

omit [IsStrictOrderedRing K] in
/-- A feature that no vector can have is read as 0. -/
theorem Node.next_of_no_feature {node : Node K} (hno : maxFeatures ≤ node.tested) {x : List K}
    (hx : x.length ≤ maxFeatures) : node.next x = node.next [] := by
  have hnone : x[asUsize node.feature]? = none := List.getElem?_eq_none_iff.2 (hx.trans hno)
  simp only [Node.next, hnone, List.getElem?_nil]

/-- **The check is exact**: it passes a node if and only if every walk from it on reaches a leaf,
for all vectors in the box. -/
theorem reachesLeaf_iff (nodes : List (Node K)) (fuel : Nat) {box : FeatureBox K}
    (h : box.Inhabited) (idx : Nat) :
    reachesLeaf nodes fuel box idx = true ↔
      ∀ x, box.Contains x → ∃ v, walkFrom nodes x fuel idx = some v := by
  induction fuel generalizing box idx with
  | zero =>
    constructor
    · intro hfalse
      cases hfalse
    · intro hall
      obtain ⟨x, hx⟩ := h.exists_contains
      obtain ⟨v, hv⟩ := hall x hx
      cases hv
  | succ fuel ih =>
    cases hnode : nodes[idx]? with
    | none =>
      simp only [reachesLeaf, walkFrom, hnode]
      constructor
      · intro hfalse
        cases hfalse
      · intro hall
        obtain ⟨x, hx⟩ := h.exists_contains
        obtain ⟨v, hv⟩ := hall x hx
        cases hv
    | some node =>
      by_cases hleaf : node.feature = -1
      · simp [reachesLeaf, walkFrom, hnode, hleaf]
      · by_cases hno : maxFeatures ≤ node.tested
        · have hcheck : reachesLeaf nodes (fuel + 1) box idx =
              reachesLeaf nodes fuel box (node.next []) := by
            simp [reachesLeaf, hnode, hleaf, hno]
          rw [hcheck, ih h]
          refine forall₂_congr fun x hx => ?_
          rw [walkFrom_inner hnode hleaf, node.next_of_no_feature hno hx.length]
        have hlt := Nat.lt_of_not_le hno
        have hleft := child_iff h hlt
          (r := (box node.tested).atMost (node.threshold.getD 0)) fun hbox =>
            ih hbox (asUsize node.left)
        have hright := child_iff h hlt
          (r := (box node.tested).above (node.threshold.getD 0)) fun hbox =>
            ih hbox (asUsize node.right)
        have hcheck : reachesLeaf nodes (fuel + 1) box idx =
            (((box.left node node.tested).isEmpty ||
              reachesLeaf nodes fuel (box.left node) (asUsize node.left)) &&
            ((box.right node node.tested).isEmpty ||
              reachesLeaf nodes fuel (box.right node) (asUsize node.right))) := by
          simp [reachesLeaf, hnode, hleaf, hno]
        rw [hcheck, Bool.and_eq_true, walkFrom_split hnode hleaf]
        exact and_congr hleft hright

/-! ## Models -/

omit [LinearOrder K] [IsStrictOrderedRing K] in
/-- A score over the trees is defined exactly when every tree has a value. -/
theorem exists_foldlM_score_iff {α : Type} (lr : K) (f : α → Option K) (trees : List α)
    (score : K) :
    (∃ v, trees.foldlM (fun s tree => do return s + lr * (← f tree)) score = some v) ↔
      ∀ tree ∈ trees, ∃ v, f tree = some v := by
  induction trees generalizing score with
  | nil => simp
  | cons tree trees ih =>
    cases hf : f tree with
    | none => simp [List.foldlM_cons, hf]
    | some v => simpa [List.foldlM_cons, hf] using ih (score + lr * v)

/-- **When a model is safe to evaluate.** On every feature vector the walk reaches a leaf of every
tree, and so the inference returns a probability, if and only if the model passes the check. -/
theorem predictProba_safe_iff (exp : K → K) (model : GbtModel K) :
    (∀ features, features.length ≤ maxFeatures →
      (∀ tree ∈ model.trees, ∃ v, walkTree tree.nodes features = some v) ∧
        ∃ p, predictProba exp features model = some p) ↔
      model.isSafe = true := by
  have hfull : FeatureBox.Inhabited (fun _ => FeatureRange.full : FeatureBox K) :=
    ⟨fun _ => rfl, 0, Nat.zero_le _, fun _ _ => rfl⟩
  have hproba : ∀ features, (∃ p, predictProba exp features model = some p) ↔
      ∀ tree ∈ model.trees, ∃ v, walkTree tree.nodes features = some v := by
    intro features
    rw [predictProba_eq_rawScore]
    simp only [Option.map_eq_some_iff, exists_comm, exists_and_left, exists_eq', and_true]
    exact exists_foldlM_score_iff _ _ _ _
  have hwalks : (∀ features, features.length ≤ maxFeatures →
      (∀ tree ∈ model.trees, ∃ v, walkTree tree.nodes features = some v) ∧
        ∃ p, predictProba exp features model = some p) ↔
      ∀ tree ∈ model.trees, ∀ features, features.length ≤ maxFeatures →
        ∃ v, walkTree tree.nodes features = some v :=
    ⟨fun h tree htree features hlen => (h features hlen).1 tree htree, fun h features hlen =>
      ⟨fun tree htree => h tree htree features hlen,
        (hproba features).2 fun tree htree => h tree htree features hlen⟩⟩
  rw [hwalks, GbtModel.isSafe, List.all_eq_true]
  refine forall₂_congr fun tree _ => ?_
  rw [reachesLeaf_iff _ _ hfull]
  exact ⟨fun h x hx => h x hx.length,
    fun h x hx => h x ⟨hx, fun _ => FeatureRange.contains_full _⟩⟩

end

/-- A model of one split passes the check, and so is safe. -/
theorem predictProba_safe_oneSplit : (oneSplit featureCols 0 : GbtModel ℚ).isSafe = true ∧
    ∀ features, features.length ≤ maxFeatures →
      ∃ p, predictProba id features (oneSplit featureCols 0 : GbtModel ℚ) = some p := by
  have hsafe : (oneSplit featureCols 0 : GbtModel ℚ).isSafe = true := by decide +kernel
  exact ⟨hsafe, fun features hlen => ((predictProba_safe_iff id _).2 hsafe features hlen).2⟩

-- Feature -2 is read as 0 from every vector, so the loop on the right is never entered.
example : GbtModel.isSafe (K := ℚ) ⟨[], 1, 1, 0,
    [⟨[⟨-2, some 0, 1, 0, none⟩, ⟨-1, none, -1, -1, some 1⟩]⟩]⟩ = true := by
  decide +kernel

/-- A file with a tree without nodes. -/
def noNodes : GbtModel ℚ := ⟨[], 1, 1, 0, [⟨[]⟩]⟩

/-- A tree whose only node is its own child. -/
def loopTree : Tree ℚ := ⟨[⟨0, some 0, 0, 0, none⟩]⟩

def selfLoop : GbtModel ℚ := ⟨[], 1, 1, 0, [loopTree]⟩

/-- On every feature vector the walk leaves the list in the first file, and never ends in the
second, however many nodes it is allowed to visit. -/
theorem selfLoop_never_ends : (∀ features, predictProba id features noNodes = none) ∧
    (∀ features fuel, walkFrom loopTree.nodes features fuel 0 = none) ∧
    ∀ features, predictProba id features selfLoop = none := by
  have hloop : ∀ features fuel, walkFrom loopTree.nodes features fuel 0 = none := by
    intro features fuel
    induction fuel with
    | zero => rfl
    | succ fuel ih =>
      have hnext : (⟨0, some 0, 0, 0, none⟩ : Node ℚ).next features = 0 := by
        rw [Node.next]
        split_ifs <;> rfl
      rw [walkFrom_inner (show loopTree.nodes[0]? = some ⟨0, some 0, 0, 0, none⟩ from rfl)
        (by decide), hnext]
      exact ih
  refine ⟨fun _ => rfl, hloop, fun features => ?_⟩
  have hwalk : walkTree loopTree.nodes features = none := hloop features _
  simp [predictProba, selfLoop, hwalk]

end PredicateTransfer
