import PredicateTransfer.Plan
import PredicateTransfer.Lib.Scatter

/-!
# Pushing filters down a plan

`push_down_filters` offers a node's parent predicates, and the filters the node makes itself, to the
node's children, and hands the children's answers back to the node.

**Two passes and a mix.** Volatile predicates are taken out first; the node then marks the rest, for
each child, as sendable or not, and only those marked are sent. A child gets them behind the node's
own filters, in one list, and answers with one list. `FilteredVec` keeps a chain of index maps, one
per pass, through which every answer is traced to the predicate it is about.

**What holds.** A `FilteredVec` that `Tracks` a list of places writes every result back to the place
its item had, and each pass keeps the places of the items it keeps (`FilteredVec.Tracks.chain`).

Index errors are modelled: a look-up outside a table is `Abort.panic`. The operators' own methods
are parameters (`PushdownMethods`). So that no index leaves its table, a node has to mark as many
predicates as it is asked about (`PushdownMethods.MarksEach`). The maps know the marks by their
places alone, so an answer reaches its predicate only if the node also keeps the order
(`PushdownMethods.MarksInOrder`), which not every operator does.
-/

namespace PredicateTransfer

open Scatter

/-! ## Expressions -/

/-- A physical expression, as far as pushdown looks at it: its nodes. -/
inductive ExprTree (α : Type) where
  | node (value : α) (children : List (ExprTree α))

section
variable {α : Type} (isVolatileNode : α → Bool)

mutual

/-- `is_volatile`. -/
def ExprTree.isVolatile : ExprTree α → Bool
  | .node value children => isVolatileNode value || anyVolatile children

def anyVolatile : List (ExprTree α) → Bool
  | [] => false
  | e :: es => e.isVolatile || anyVolatile es

end

mutual

/-- `allow_pushdown_for_expr`: every node that is visited is searched again from there. -/
def allowPushdownForExpr : ExprTree α → Bool
  | .node value children =>
    !ExprTree.isVolatile isVolatileNode (.node value children) && allowPushdownForAll children

def allowPushdownForAll : List (ExprTree α) → Bool
  | [] => true
  | e :: es => allowPushdownForExpr e && allowPushdownForAll es

end

mutual

theorem allowPushdownForExpr_eq (e : ExprTree α) :
    allowPushdownForExpr isVolatileNode e = !e.isVolatile isVolatileNode := by
  cases e with
  | node value children =>
    rw [allowPushdownForExpr, allowPushdownForAll_eq children, ExprTree.isVolatile]
    cases isVolatileNode value <;> simp

theorem allowPushdownForAll_eq (es : List (ExprTree α)) :
    allowPushdownForAll isVolatileNode es = !anyVolatile isVolatileNode es := by
  cases es with
  | nil => rfl
  | cons e es =>
    rw [allowPushdownForAll, allowPushdownForExpr_eq e, allowPushdownForAll_eq es, anyVolatile,
      Bool.not_or]

end

end

/-! ## Filtering in passes -/

/-- `indexMappings[0]` maps the first filter's places to the original ones, `indexMappings[1]` the
second filter's to the first's, and so on. -/
structure FilteredVec (τ : Type) where
  items : List τ
  indexMappings : List (List Nat)
  originalLen : Nat

namespace FilteredVec

variable {τ υ ρ : Type}

/-- `FilteredVec::new`. -/
def new (items : List τ) (predicate : τ → Bool) : FilteredVec τ where
  items := (positions predicate items).map (·.1)
  indexMappings := [(positions predicate items).map (·.2)]
  originalLen := items.length

def len (v : FilteredVec τ) : Nat := v.items.length

/-- `trace_to_original_index`; `none` is an index out of range. -/
def traceToOriginalIndex (v : FilteredVec τ) (currentIdx : Nat) : Option Nat :=
  v.indexMappings.reverse.foldlM (fun idx mapping => mapping[idx]?) currentIdx

/-- `map_results_to_original`; `none` is an index out of range. -/
def mapResultsToOriginal (v : FilteredVec τ) (results : List ρ) (defaultValue : ρ) :
    Option (List ρ) :=
  results.zipIdx.foldlM
    (fun mapped x => do
      let originalIdx ← v.traceToOriginalIndex x.2
      if originalIdx < mapped.length then some (mapped.set originalIdx x.1) else none)
    (List.replicate v.originalLen defaultValue)

/-- `chain_filter_slice`. -/
def chainFilterSlice (v : FilteredVec τ) (items : List υ) (predicate : υ → Bool) :
    FilteredVec υ where
  items := (positions predicate items).map (·.1)
  indexMappings := v.indexMappings ++ [(positions predicate items).map (·.2)]
  originalLen := v.originalLen

/-- Tracing leads to the given places. -/
structure Tracks (v : FilteredVec τ) (origins : List Nat) : Prop where
  trace : ∀ idx, v.traceToOriginalIndex idx = origins[idx]?
  nodup : origins.Nodup
  lt : ∀ o ∈ origins, o < v.originalLen

theorem tracks_new (items : List τ) (p : τ → Bool) :
    (new items p).Tracks ((positions p items).map (·.2)) where
  trace _ := by simp [traceToOriginalIndex, new]
  nodup := nodup_positions p items
  lt _ h := lt_of_mem_positions h

/-- A second pass keeps the origins of the items it keeps. -/
theorem Tracks.chain {v : FilteredVec τ} {origins : List Nat} (h : v.Tracks origins)
    {items : List υ} (p : υ → Bool) (hlen : items.length = origins.length) :
    (v.chainFilterSlice items p).Tracks
      (((origins.zip items).filter fun x => p x.2).map (·.1)) := by
  have hsub : (((origins.zip items).filter fun x => p x.2).map (·.1)).Sublist origins := by
    have hzip := (List.filter_sublist (l := origins.zip items) (p := fun x => p x.2)).map Prod.fst
    rwa [List.map_fst_zip hlen.ge] at hzip
  refine ⟨fun idx => ?_, hsub.nodup h.nodup, fun o ho => h.lt o (hsub.mem ho)⟩
  rw [← getElem?_tags p hlen.le idx, ← funext h.trace]
  simp [traceToOriginalIndex, chainFilterSlice]

theorem Tracks.foldlM_eq {v : FilteredVec τ} {origins : List Nat} (h : v.Tracks origins)
    (results : List ρ) (k : Nat) (hlen : results.length ≤ (origins.drop k).length)
    (slots : List ρ) (hslots : slots.length = v.originalLen) :
    (results.zipIdx k).foldlM
        (fun mapped x => do
          let originalIdx ← v.traceToOriginalIndex x.2
          if originalIdx < mapped.length then some (mapped.set originalIdx x.1) else none)
        slots =
      some (scatter slots ((origins.drop k).zip results)) := by
  induction results generalizing k slots with
  | nil => simp [scatter]
  | cons r results ih =>
    -- result `k` goes where item `k` came from, which is a place within the slots
    rw [List.length_cons, List.length_drop] at hlen
    have hk : k < origins.length := by omega
    have htrace : v.traceToOriginalIndex k = some origins[k] := by
      rw [h.trace, List.getElem?_eq_getElem hk]
    have hlt : origins[k] < slots.length := by
      rw [hslots]
      exact h.lt _ (List.getElem_mem hk)
    have hrest := ih (k + 1) (by rw [List.length_drop]; omega) (slots.set origins[k] r)
      (by rw [List.length_set, hslots])
    rw [List.drop_eq_getElem_cons hk, List.zip_cons_cons, scatter_cons, ← hrest, List.zipIdx_cons,
      List.foldlM_cons, htrace]
    simp [hlt]

/-- Results are written back where their items came from. -/
theorem Tracks.mapResultsToOriginal_eq {v : FilteredVec τ} {origins : List Nat}
    (h : v.Tracks origins) {results : List ρ} (hlen : results.length = origins.length)
    (defaultValue : ρ) :
    v.mapResultsToOriginal results defaultValue =
      some ((List.range v.originalLen).map fun i =>
        ((origins.zip results).lookup i).getD defaultValue) := by
  have hnodup : ((origins.zip results).map (·.1)).Nodup := by
    rw [List.map_fst_zip hlen.ge]
    exact h.nodup
  have hfold : v.mapResultsToOriginal results defaultValue =
      some (scatter (List.replicate v.originalLen defaultValue) (origins.zip results)) :=
    h.foldlM_eq results 0 hlen.le _ List.length_replicate
  rw [hfold]
  congr 1
  apply List.ext_getElem?
  intro i
  rw [getElem?_scatter hnodup]
  by_cases hi : i < v.originalLen
  · simp [hi]
  · simp [hi]

end FilteredVec

/-! ## Descriptions and results -/

inductive FilterPushdownPhase where
  | pre
  | post
  deriving DecidableEq, Repr

inductive PushedDown where
  | yes
  | no
  deriving DecidableEq, Repr

structure PushedDownPredicate (E : Type) where
  discriminant : PushedDown
  predicate : E

def PushedDown.wrapExpression {E : Type} (support : PushedDown) (expr : E) :
    PushedDownPredicate E :=
  ⟨support, expr⟩

/-- What a node wants of one child: its marking of the parent predicates it was asked about, and
filters of its own. -/
structure ChildFilterDescription (E : Type) where
  parentFilters : List (PushedDownPredicate E)
  selfFilters : List E

/-- A parent predicate and the children's answers to it. -/
structure ChildFilterPushdownResult (E : Type) where
  filter : E
  childResults : List PushedDown

structure ChildPushdownResult (E : Type) where
  parentFilters : List (ChildFilterPushdownResult E)
  selfFilters : List (List (PushedDownPredicate E))

structure FilterPushdownPropagation (T : Type) where
  filters : List PushedDown
  updatedNode : Option T

/-- How a pushdown can end early. -/
inductive Abort where
  | error (e : DataFusionError)
  | panic

/-- The `?` of the source. -/
def Abort.ofResult {β : Type} : Except DataFusionError β → Except Abort β
  | .ok b => .ok b
  | .error e => .error (.error e)

/-- An index into a table. -/
def Abort.ofIndex {β : Type} : Option β → Except Abort β
  | some b => .ok b
  | none => .error .panic

theorem Abort.ofIndex_some {β : Type} (b : β) : Abort.ofIndex (some b) = .ok b := rfl

theorem Abort.ok_bind {β γ : Type} (b : β) (f : β → Except Abort γ) :
    (Except.ok b >>= f) = f b := rfl

/-- `assert_eq_or_internal_err`, on two lengths. -/
def assertEqOrInternalErr (leftText : String) (left : Nat) (rightText : String) (right : Nat)
    (message : String) : Except Abort Unit :=
  if left = right then .ok ()
  else .error (.error (.internal
    s!"Assertion failed: {leftText} == {rightText} (left: {left}, right: {right}): {message}"))

theorem assertEqOrInternalErr_self (leftText : String) (n : Nat) (rightText message : String) :
    assertEqOrInternalErr leftText n rightText n message = .ok () :=
  if_pos rfl

/-! ## The traversal -/

variable {S : Sig} {α : Type}

/-- `ExecutionPlan::children`. -/
def ExecutionPlan.children : ExecutionPlan S → List (ExecutionPlan S)
  | .hashJoin _ l r => [l, r]
  | .bloomBuild _ _ i => [i]
  | .bloomProbe _ _ i => [i]
  | .other _ cs => cs

/-- What the traversal calls on operators and expressions, under one configuration. -/
structure PushdownMethods (S : Sig) (α : Type) where
  isVolatileNode : α → Bool
  gatherFiltersForPushdown : ExecutionPlan S → FilterPushdownPhase → List (ExprTree α) →
    Except DataFusionError (List (ChildFilterDescription (ExprTree α)))
  handleChildPushdownResult : ExecutionPlan S → FilterPushdownPhase →
    ChildPushdownResult (ExprTree α) →
    Except DataFusionError (FilterPushdownPropagation (ExecutionPlan S))
  name : ExecutionPlan S → String
  ptrEq : ExecutionPlan S → ExecutionPlan S → Bool

/-- A node has a mark for every predicate it is asked about, for each child it describes. -/
def PushdownMethods.MarksEach (M : PushdownMethods S α) : Prop :=
  ∀ node phase filters description,
    M.gatherFiltersForPushdown node phase filters = .ok description →
      ∀ d ∈ description, d.parentFilters.length = filters.length

/-- The node lists its marks in the order of the predicates. `mark c f` is how it marks the
predicate `f` for its child `c`, and the form in which it would send it there. -/
def PushdownMethods.MarksInOrder (M : PushdownMethods S α) (node : ExecutionPlan S)
    (phase : FilterPushdownPhase) (filters : List (ExprTree α))
    (mark : Nat → ExprTree α → PushedDownPredicate (ExprTree α)) : Prop :=
  ∀ description, M.gatherFiltersForPushdown node phase filters = .ok description →
    ∀ (c : Nat) d, description[c]? = some d → d.parentFilters = filters.map (mark c)

/-- `with_new_children_if_necessary`. -/
def withNewChildrenIfNecessary (H : Host S) (M : PushdownMethods S α) (plan : ExecutionPlan S)
    (children : List (ExecutionPlan S)) : Except Abort (ExecutionPlan S) := do
  let oldChildren := plan.children
  assertEqOrInternalErr "children.len()" children.length "old_children.len()" oldChildren.length
    "Wrong number of children"
  if children.isEmpty || (children.zip oldChildren).any fun x => !M.ptrEq x.1 x.2 then
    Abort.ofResult (withNewChildren H plan children)
  else return plan

/-- A child of the node at hand, and the traversal from there. -/
structure PlanChild (S : Sig) (α : Type) where
  plan : ExecutionPlan S
  pushDownFilters : List (ExprTree α) →
    Except Abort (FilterPushdownPropagation (ExecutionPlan S))

/-- The three tables the loop over the children fills. -/
structure PushdownTables (S : Sig) (α : Type) where
  parentFilterPushdownSupports : List (List PushedDown)
  selfFiltersPushdownSupports : List (List (PushedDownPredicate (ExprTree α)))
  newChildren : List (ExecutionPlan S)

section
variable (H : Host S) (M : PushdownMethods S α) (phase : FilterPushdownPhase)

/-- One turn of the loop. -/
def pushDownChild (parentFiltered : FilteredVec (ExprTree α)) (childIdx : Nat)
    (child : PlanChild S α) (description : ChildFilterDescription (ExprTree α))
    (tables : PushdownTables S α) : Except Abort (PushdownTables S α) := do
  let selfFiltered :=
    FilteredVec.new description.selfFilters (allowPushdownForExpr M.isVolatileNode)
  let numSelfFilters := selfFiltered.len
  let parentFiltersForChild :=
    parentFiltered.chainFilterSlice description.parentFilters (·.discriminant == .yes)
  -- the child is not told which filters are whose: its answers are split at `numSelfFilters`
  let allPredicates := selfFiltered.items ++ parentFiltersForChild.items.map (·.predicate)
  let numParentFilters := allPredicates.length - numSelfFilters
  let result ← child.pushDownFilters allPredicates
  let newChildren := tables.newChildren ++ [result.updatedNode.getD child.plan]
  assertEqOrInternalErr "all_filters.len()" result.filters.length
    "num_self_filters + num_parent_filters" (numSelfFilters + numParentFilters)
    s!"Filter pushdown did not return the expected number of filters from {M.name child.plan}"
  let parentFilters := result.filters.drop numSelfFilters
  let mappedSelfResults ←
    Abort.ofIndex (selfFiltered.mapResultsToOriginal (result.filters.take numSelfFilters) .no)
  let selfFilterResults :=
    (mappedSelfResults.zip description.selfFilters).map fun x => x.1.wrapExpression x.2
  -- the `assert_eq!` of the source panics
  let marked ← tables.parentFilterPushdownSupports.mapM fun support =>
    let support := support ++ [PushedDown.no]
    if support.length = childIdx + 1 then .ok support else .error Abort.panic
  let mappedParentResults ←
    Abort.ofIndex (parentFiltersForChild.mapResultsToOriginal parentFilters .no)
  let supports ← marked.zipIdx.mapM fun x => do
    let answer ← Abort.ofIndex mappedParentResults[x.2]?
    if childIdx < x.1.length then .ok (x.1.set childIdx answer) else .error Abort.panic
  return ⟨supports, tables.selfFiltersPushdownSupports ++ [selfFilterResults], newChildren⟩

/-- The loop, from a child index on. -/
def pushDownChildren (parentFiltered : FilteredVec (ExprTree α)) :
    Nat → List (PlanChild S α × ChildFilterDescription (ExprTree α)) → PushdownTables S α →
      Except Abort (PushdownTables S α)
  | _, [], tables => .ok tables
  | childIdx, (child, description) :: rest, tables => do
    let tables ← pushDownChild M parentFiltered childIdx child description tables
    pushDownChildren parentFiltered (childIdx + 1) rest tables

/-- `push_down_filters` up to the call of `handle_child_pushdown_result`: the new children, and the
result that the node is then asked to handle. -/
def childPushdownResult (node : ExecutionPlan S) (children : List (PlanChild S α))
    (parentPredicates : List (ExprTree α)) :
    Except Abort (List (ExecutionPlan S) × ChildPushdownResult (ExprTree α)) := do
  let parentFiltered := FilteredVec.new parentPredicates (allowPushdownForExpr M.isVolatileNode)
  let description ←
    Abort.ofResult (M.gatherFiltersForPushdown node phase parentFiltered.items)
  assertEqOrInternalErr "filter_description_parent_filters.len()"
    (description.map (·.parentFilters)).length "children.len()" children.length
    ("Filter pushdown expected parent filters count to match number of children for node " ++
      M.name node)
  assertEqOrInternalErr "filter_description_self_filters.len()"
    (description.map (·.selfFilters)).length "children.len()" children.length
    ("Filter pushdown expected self filters count to match number of children for node " ++
      M.name node)
  let tables ← pushDownChildren M parentFiltered 0 (children.zip description)
    ⟨List.replicate parentPredicates.length [], [], []⟩
  let parentFilters ← parentPredicates.zipIdx.mapM fun x => do
    let support ← Abort.ofIndex tables.parentFilterPushdownSupports[x.2]?
    return ⟨x.1, support⟩
  return (tables.newChildren, ⟨parentFilters, tables.selfFiltersPushdownSupports⟩)

/-- `push_down_filters` at a node whose children are traversed as given. -/
def pushDownNode (node : ExecutionPlan S) (children : List (PlanChild S α))
    (parentPredicates : List (ExprTree α)) :
    Except Abort (FilterPushdownPropagation (ExecutionPlan S)) := do
  let (newChildren, result) ← childPushdownResult M phase node children parentPredicates
  let updatedNode ← withNewChildrenIfNecessary H M node newChildren
  let res ← Abort.ofResult (M.handleChildPushdownResult updatedNode phase result)
  if res.updatedNode.isNone && !M.ptrEq updatedNode node then
    return { res with updatedNode := some updatedNode }
  else return res

mutual

/-- `push_down_filters`. -/
def pushDownFilters : ExecutionPlan S → List (ExprTree α) →
    Except Abort (FilterPushdownPropagation (ExecutionPlan S))
  | .hashJoin j l r =>
    pushDownNode H M phase (.hashJoin j l r) [⟨l, pushDownFilters l⟩, ⟨r, pushDownFilters r⟩]
  | .bloomBuild k c i => pushDownNode H M phase (.bloomBuild k c i) [⟨i, pushDownFilters i⟩]
  | .bloomProbe k c i => pushDownNode H M phase (.bloomProbe k c i) [⟨i, pushDownFilters i⟩]
  | .other op cs => pushDownNode H M phase (.other op cs) (planChildren cs)

def planChildren : List (ExecutionPlan S) → List (PlanChild S α)
  | [] => []
  | c :: cs => ⟨c, pushDownFilters c⟩ :: planChildren cs

end

theorem planChildren_eq (cs : List (ExecutionPlan S)) :
    planChildren H M phase cs = cs.map fun c => ⟨c, pushDownFilters H M phase c⟩ := by
  induction cs with
  | nil => simp [planChildren]
  | cons c cs ih => rw [planChildren, ih, List.map_cons]

/-- The traversal is the same at every node. -/
theorem pushDownFilters_eq (p : ExecutionPlan S) :
    pushDownFilters H M phase p =
      pushDownNode H M phase p (planChildren H M phase p.children) := by
  cases p <;> simp [pushDownFilters, planChildren, ExecutionPlan.children]

end

end PredicateTransfer
