import Mathlib.Algebra.Order.Floor.Semiring
import Mathlib.Algebra.Order.Field.Basic
import Mathlib.Data.Fintype.Card
import Mathlib.Tactic

/-!
# The gradient boosted trees

The model the planner loads from its JSON file, and its inference. Scores are exact, from
an ordered division ring such as `ℚ` in place of `f64`, and `exp` is a parameter.

`walk_tree` is a loop without a bound: it panics on an index outside the node list and runs
forever on a cycle. A walk that reaches a leaf visits no node twice, so `walkTree` gives it as many
steps as there are nodes and returns `none` in both other cases (`walkFrom_length`).
-/

namespace PredicateTransfer

variable {K : Type} [DivisionRing K] [LinearOrder K]

/-! ## The model file -/

structure Node (K : Type) where
  feature : Int
  threshold : Option K
  left : Int
  right : Int
  value : Option K

structure Tree (K : Type) where
  nodes : List (Node K)

structure GbtModel (K : Type) where
  featureNames : List String
  nEstimators : Nat
  learningRate : K
  initScore : K
  trees : List (Tree K)

/-! ## Inference -/

/-- `i as usize` for an `i32`. -/
def asUsize (i : Int) : Nat := (i % 2 ^ 64).toNat

/-- The child the walk goes to from an inner node. -/
def Node.next (node : Node K) (features : List K) : Nat :=
  let featVal := (features[asUsize node.feature]?).getD 0
  let threshold := node.threshold.getD 0
  if featVal ≤ threshold then asUsize node.left else asUsize node.right

/-- The loop of `walk_tree`, from node `idx` on, for at most `fuel` nodes. -/
def walkFrom (nodes : List (Node K)) (features : List K) : Nat → Nat → Option K
  | 0, _ => none
  | fuel + 1, idx => do
    let node ← nodes[idx]?
    if node.feature = -1 then return node.value.getD 0
    else walkFrom nodes features fuel (node.next features)

/-- `walk_tree`. -/
def walkTree (nodes : List (Node K)) (features : List K) : Option K :=
  walkFrom nodes features nodes.length 0

/-- `predict_proba`. -/
def predictProba (exp : K → K) (features : List K) (model : GbtModel K) : Option K := do
  let score ← model.trees.foldlM (fun score tree => do
    return score + model.learningRate * (← walkTree tree.nodes features)) model.initScore
  return 1 / (1 + exp (-score))

/-! ## The bound on the walk -/

section
variable {nodes : List (Node K)} {features : List K}

theorem walkFrom_mono {fuel fuel' idx : Nat} {v : K}
    (h : walkFrom nodes features fuel idx = some v) (hle : fuel ≤ fuel') :
    walkFrom nodes features fuel' idx = some v := by
  induction fuel generalizing idx fuel' with
  | zero => cases h
  | succ fuel ih =>
    obtain ⟨m, rfl⟩ : ∃ m, fuel' = m + 1 := ⟨fuel' - 1, by omega⟩
    rw [walkFrom] at h ⊢
    obtain ⟨node, hnode, h⟩ := Option.bind_eq_some_iff.1 h
    rw [hnode]
    simp only [bind, Option.bind]
    split_ifs at h ⊢ with hleaf
    · exact h
    · exact ih h (by omega)

/-- A walk of `fuel + 1` nodes and no fewer passes through a node from which it takes `t + 1` and
no fewer, for every `t` up to `fuel`. -/
theorem exists_walk_of_length {fuel idx : Nat} {v : K}
    (h : walkFrom nodes features (fuel + 1) idx = some v)
    (hmin : walkFrom nodes features fuel idx = none) {t : Nat} (ht : t ≤ fuel) :
    ∃ i < nodes.length, walkFrom nodes features (t + 1) i = some v ∧
      walkFrom nodes features t i = none := by
  induction fuel generalizing idx with
  | zero =>
    obtain rfl : t = 0 := by omega
    rw [walkFrom] at h
    obtain ⟨node, hnode, -⟩ := Option.bind_eq_some_iff.1 h
    refine ⟨idx, (List.getElem?_eq_some_iff.1 hnode).1, ?_, hmin⟩
    rw [walkFrom]
    exact h
  | succ fuel ih =>
    have hstep := h
    rw [walkFrom] at hstep
    obtain ⟨node, hnode, hstep⟩ := Option.bind_eq_some_iff.1 hstep
    by_cases htop : t = fuel + 1
    · subst htop
      exact ⟨idx, (List.getElem?_eq_some_iff.1 hnode).1, h, hmin⟩
    · rw [walkFrom, hnode] at hmin
      simp only [bind, Option.bind] at hmin
      split_ifs at hstep hmin with hleaf
      exact ih hstep hmin (by omega)

/-- **A walk that reaches a leaf visits at most all nodes**, whatever the bound it was given. -/
theorem walkFrom_length {fuel idx : Nat} {v : K}
    (h : walkFrom nodes features fuel idx = some v) :
    walkFrom nodes features nodes.length idx = some v := by
  induction fuel with
  | zero => cases h
  | succ fuel ih =>
    cases hprev : walkFrom nodes features fuel idx with
    | some w =>
      have hw := walkFrom_mono hprev (Nat.le_succ fuel)
      rw [h] at hw
      cases hw
      exact ih hprev
    | none =>
      -- The nodes found at the different distances from the leaf are different.
      have hex := fun t : Fin (fuel + 1) =>
        exists_walk_of_length h hprev (Nat.lt_succ_iff.1 t.isLt)
      choose node hlt hsome hnone using hex
      have hinj : Function.Injective fun t => (⟨node t, hlt t⟩ : Fin nodes.length) := by
        intro s t hst
        have heq : node s = node t := congrArg Fin.val hst
        have hle : ∀ {a b : Fin (fuel + 1)}, node a = node b → ¬ a < b := by
          intro a b hab hlt'
          have hmono := walkFrom_mono (hsome a) (Nat.succ_le_of_lt hlt')
          rw [hab, hnone b] at hmono
          cases hmono
        exact le_antisymm (not_lt.1 (hle heq.symm)) (not_lt.1 (hle heq))
      have hcard := Fintype.card_le_of_injective _ hinj
      simp only [Fintype.card_fin] at hcard
      exact walkFrom_mono h hcard

end

end PredicateTransfer
