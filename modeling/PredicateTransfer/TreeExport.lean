import PredicateTransfer.Inference

/-!
# Exported trees

`sklearn` keeps a fitted tree in parallel arrays. `_tree_to_nodes` turns them into a list of nodes,
with -1 for the links and the feature of a leaf; the planner reads the list back and follows its
links, cast from `i32` to `usize`.

**Theorem (`walkTree_treeToNodes`).** The planner's walk over an exported tree ends, in the leaf
that recursive evaluation of the arrays reaches, and no node on its way makes it use a default.

Children stand after their parents, so `nodeCount - i` bounds the walk that is left from node `i`.
-/

namespace PredicateTransfer

variable {K : Type}

/-! ## The arrays -/

/-- The arrays of a tree as `sklearn` stores them. The feature of a leaf is -2; any other node has
a feature and two children, both after it. Node 0 is the root. -/
structure SklearnTree (K : Type) where
  nodeCount : Nat
  feature : Fin nodeCount → Int
  threshold : Fin nodeCount → K
  childrenLeft : Fin nodeCount → Int
  childrenRight : Fin nodeCount → Int
  /-- `value[i][0][0]`. -/
  value : Fin nodeCount → K
  root : 0 < nodeCount
  feature_nonneg : ∀ i, feature i ≠ -2 → 0 ≤ feature i
  left_bounds : ∀ i, feature i ≠ -2 → (i : Int) < childrenLeft i ∧ childrenLeft i < nodeCount
  right_bounds : ∀ i, feature i ≠ -2 → (i : Int) < childrenRight i ∧ childrenRight i < nodeCount

namespace SklearnTree

/-- The vector has a value for every feature of the tree. -/
def Covered (t : SklearnTree K) (x : List K) : Prop :=
  ∀ i, t.feature i ≠ -2 → t.feature i < x.length

/-- The value of an inner node's feature. -/
def featureValue (t : SklearnTree K) (x : List K) (hx : t.Covered x) (i : Fin t.nodeCount)
    (h : t.feature i ≠ -2) : K :=
  x.get ⟨(t.feature i).toNat, by
    have hlt := hx i h
    have hnonneg := t.feature_nonneg i h
    omega⟩

def left (t : SklearnTree K) (i : Fin t.nodeCount) (h : t.feature i ≠ -2) : Fin t.nodeCount :=
  ⟨(t.childrenLeft i).toNat, by
    have hb := t.left_bounds i h
    omega⟩

def right (t : SklearnTree K) (i : Fin t.nodeCount) (h : t.feature i ≠ -2) : Fin t.nodeCount :=
  ⟨(t.childrenRight i).toNat, by
    have hb := t.right_bounds i h
    omega⟩

theorem lt_left (t : SklearnTree K) (i : Fin t.nodeCount) (h : t.feature i ≠ -2) :
    (i : Nat) < t.left i h := by
  have hb := t.left_bounds i h
  simp only [left]
  omega

theorem lt_right (t : SklearnTree K) (i : Fin t.nodeCount) (h : t.feature i ≠ -2) :
    (i : Nat) < t.right i h := by
  have hb := t.right_bounds i h
  simp only [right]
  omega

/-- Recursive evaluation from node `i` on: the value of the leaf it reaches. -/
def eval [LinearOrder K] (t : SklearnTree K) (x : List K) (hx : t.Covered x)
    (i : Fin t.nodeCount) : K :=
  if h : t.feature i = -2 then t.value i
  else if t.featureValue x hx i h ≤ t.threshold i then t.eval x hx (t.left i h)
  else t.eval x hx (t.right i h)
termination_by t.nodeCount - i
decreasing_by
  · have hlt := t.lt_left i h
    omega
  · have hlt := t.lt_right i h
    omega

end SklearnTree

/-! ## The export -/

/-- The node appended for index `i`. -/
def SklearnTree.node (t : SklearnTree K) (i : Fin t.nodeCount) : Node K :=
  if t.feature i = -2 then ⟨-1, none, -1, -1, some (t.value i)⟩
  else ⟨t.feature i, some (t.threshold i), t.childrenLeft i, t.childrenRight i, none⟩

/-- `_tree_to_nodes`. -/
def treeToNodes (t : SklearnTree K) : List (Node K) := List.ofFn t.node

/-- The numbers of a node fit the `i32` fields it is read back into. -/
def Node.FitsI32 (node : Node K) : Prop :=
  (-2 ^ 31 ≤ node.feature ∧ node.feature < 2 ^ 31) ∧ (-2 ^ 31 ≤ node.left ∧ node.left < 2 ^ 31) ∧
    (-2 ^ 31 ≤ node.right ∧ node.right < 2 ^ 31)

/-! ## The walk -/

section
variable [DivisionRing K] [LinearOrder K]

/-- The nodes a walk reads. -/
def walkNodes (nodes : List (Node K)) (features : List K) : Nat → Nat → List (Node K)
  | 0, _ => []
  | fuel + 1, idx =>
    match nodes[idx]? with
    | none => []
    | some node =>
      node :: if node.feature = -1 then [] else walkNodes nodes features fuel (node.next features)

/-- No `unwrap_or` takes its default at the node: a leaf has a value, and an inner node has a
threshold and a feature that the vector has. -/
def Node.NoDefault (node : Node K) (features : List K) : Prop :=
  if node.feature = -1 then node.value.isSome = true
  else node.threshold.isSome = true ∧ asUsize node.feature < features.length

end

section
variable {t : SklearnTree K} {x : List K}

theorem getElem?_treeToNodes (t : SklearnTree K) (i : Fin t.nodeCount) :
    (treeToNodes t)[(i : Nat)]? = some (t.node i) := by
  simp [treeToNodes]

theorem node_leaf {i : Fin t.nodeCount} (h : t.feature i = -2) :
    t.node i = ⟨-1, none, -1, -1, some (t.value i)⟩ := if_pos h

theorem node_inner {i : Fin t.nodeCount} (h : t.feature i ≠ -2) :
    t.node i = ⟨t.feature i, some (t.threshold i), t.childrenLeft i, t.childrenRight i, none⟩ :=
  if_neg h

theorem asUsize_of_bounds {i : Int} (h : 0 ≤ i) (hlt : i < 2 ^ 31) : asUsize i = i.toNat := by
  unfold asUsize
  omega

variable [DivisionRing K] [LinearOrder K]

/-- At an inner node the walk goes where the recursion does. -/
theorem next_node (hx : t.Covered x) {i : Fin t.nodeCount} (h : t.feature i ≠ -2)
    (hfit : (t.node i).FitsI32) :
    (t.node i).next x = if t.featureValue x hx i h ≤ t.threshold i then (t.left i h : Nat)
      else t.right i h := by
  have hf := t.feature_nonneg i h
  have hl := t.left_bounds i h
  have hr := t.right_bounds i h
  have hlen := hx i h
  rw [node_inner h] at hfit ⊢
  obtain ⟨⟨-, hf'⟩, ⟨-, hl'⟩, -, hr'⟩ := hfit
  have hget : x[(t.feature i).toNat]? = some (t.featureValue x hx i h) :=
    List.getElem?_eq_getElem (by omega)
  simp only [Node.next, asUsize_of_bounds hf hf', hget, Option.getD_some,
    asUsize_of_bounds (show 0 ≤ t.childrenLeft i by omega) hl',
    asUsize_of_bounds (show 0 ≤ t.childrenRight i by omega) hr']
  rfl

/-- **The walk from any node**, with at least as many steps as there are nodes from it on. -/
theorem walkFrom_treeToNodes (hfit : ∀ i, (t.node i).FitsI32) (hx : t.Covered x) {fuel : Nat}
    (i : Fin t.nodeCount) (hfuel : t.nodeCount - i ≤ fuel) :
    walkFrom (treeToNodes t) x fuel i = some (t.eval x hx i) ∧
      ∀ node ∈ walkNodes (treeToNodes t) x fuel i, node.NoDefault x := by
  induction fuel generalizing i with
  | zero =>
    have hlt := i.isLt
    omega
  | succ fuel ih =>
    by_cases hleaf : t.feature i = -2
    · have hnode := node_leaf hleaf
      rw [walkFrom, walkNodes, getElem?_treeToNodes, hnode, SklearnTree.eval, dif_pos hleaf]
      refine ⟨rfl, fun node hmem => ?_⟩
      simp only [if_true, List.mem_singleton] at hmem
      subst hmem
      simp [Node.NoDefault]
    · have hnode := node_inner hleaf
      have hf := t.feature_nonneg i hleaf
      have hinner : (t.node i).feature ≠ -1 := by
        rw [hnode]
        simp only
        omega
      have hnext := next_node hx hleaf (hfit i)
      -- The child the walk goes to is after the node, so the steps left are enough for it.
      have hstep : ∃ c : Fin t.nodeCount, (t.node i).next x = c ∧ (i : Nat) < c ∧
          t.eval x hx i = t.eval x hx c := by
        rw [hnext, SklearnTree.eval, dif_neg hleaf]
        by_cases hle : t.featureValue x hx i hleaf ≤ t.threshold i
        · exact ⟨t.left i hleaf, if_pos hle, t.lt_left i hleaf, if_pos hle⟩
        · exact ⟨t.right i hleaf, if_neg hle, t.lt_right i hleaf, if_neg hle⟩
      obtain ⟨c, hc, hlt, heval⟩ := hstep
      obtain ⟨hwalk, hnodes⟩ := ih c (by omega)
      rw [walkFrom_inner (getElem?_treeToNodes t i) hinner, hc, heval]
      refine ⟨hwalk, fun node hmem => ?_⟩
      simp only [walkNodes, getElem?_treeToNodes, if_neg hinner, hc, List.mem_cons] at hmem
      rcases hmem with rfl | hmem
      · have hlen := hx i hleaf
        obtain ⟨⟨-, hf'⟩, -⟩ := hfit i
        rw [hnode] at hf'
        rw [Node.NoDefault, if_neg hinner, hnode]
        refine ⟨rfl, ?_⟩
        show asUsize (t.feature i) < x.length
        rw [asUsize_of_bounds hf hf']
        omega
      · exact hnodes node hmem

end

/-- **Exported trees are walked faithfully.** If the exported numbers fit their `i32` fields, then
on every feature vector with a value for each feature of the tree the planner's walk ends in the
leaf that recursive evaluation reaches, and uses no default on its way. -/
theorem walkTree_treeToNodes [DivisionRing K] [LinearOrder K] (t : SklearnTree K)
    (hfit : ∀ node ∈ treeToNodes t, node.FitsI32) (x : List K) (hx : t.Covered x) :
    walkTree (treeToNodes t) x = some (t.eval x hx ⟨0, t.root⟩) ∧
      ∀ node ∈ walkNodes (treeToNodes t) x (treeToNodes t).length 0, node.NoDefault x := by
  have hfit' : ∀ i, (t.node i).FitsI32 := fun i => hfit _ (List.mem_ofFn.2 ⟨i, rfl⟩)
  have hlen : (treeToNodes t).length = t.nodeCount := List.length_ofFn
  rw [walkTree, hlen]
  exact walkFrom_treeToNodes hfit' hx ⟨0, t.root⟩ (Nat.sub_le _ _)

/-- One split on feature 0 at 100, as in the first tree of the test fixture. -/
def splitAtHundred : SklearnTree ℚ where
  nodeCount := 3
  feature := ![0, -2, -2]
  threshold := ![100, -2, -2]
  childrenLeft := ![1, -1, -1]
  childrenRight := ![2, -1, -1]
  value := ![0, 1 / 2, -1 / 2]
  root := by decide
  feature_nonneg := by decide
  left_bounds := by decide
  right_bounds := by decide

theorem walkTree_splitAtHundred :
    (∀ node ∈ treeToNodes splitAtHundred, node.FitsI32) ∧
      walkTree (treeToNodes splitAtHundred) [200, 50, 100, 5, 1] = some (-1 / 2) := by
  have hfit : ∀ node ∈ treeToNodes splitAtHundred, node.FitsI32 := by
    unfold Node.FitsI32
    decide +kernel
  have hx : splitAtHundred.Covered [200, 50, 100, 5, 1] := by
    unfold SklearnTree.Covered
    decide +kernel
  refine ⟨hfit, (walkTree_treeToNodes splitAtHundred hfit [200, 50, 100, 5, 1] hx).1.trans ?_⟩
  have hroot : splitAtHundred.feature ⟨0, splitAtHundred.root⟩ ≠ -2 := by decide
  have hright : ¬ splitAtHundred.featureValue [200, 50, 100, 5, 1] hx ⟨0, splitAtHundred.root⟩
      hroot ≤ splitAtHundred.threshold ⟨0, splitAtHundred.root⟩ := by
    show ¬ (200 : ℚ) ≤ 100
    norm_num
  have hleaf : splitAtHundred.feature (splitAtHundred.right ⟨0, splitAtHundred.root⟩ hroot) = -2 :=
    rfl
  rw [SklearnTree.eval, dif_neg hroot, if_neg hright, SklearnTree.eval, dif_pos hleaf]
  rfl

end PredicateTransfer
