import PredicateTransfer.PushDownAnswers

/-!
# Answers reach the filters they are about

At every node that keeps the order of its predicates, the result that `push_down_filters` hands to
the node has each child's answer to each filter in its place, and no traversal indexes outside a
table (`pushDownFilters_answers_reach`). What one node needs of its children is that their
traversals do not panic; the rest is an induction on the plan.
-/

namespace PredicateTransfer

open Scatter Fallible

variable {S : Sig} {α : Type}

/-! ## At a node -/

/-- A parent predicate with its answers is filed under its place, whatever the turns were. -/
def answersOf (M : PushdownMethods S α) (preds : List (ExprTree α))
    (turns : List (PushdownTurn S α)) : ChildPushdownResult (ExprTree α) where
  parentFilters := preds.zipIdx.map fun x => ⟨x.1, turns.map (·.answer M preds (.parent x.2))⟩
  selfFilters := turns.map fun t =>
    t.description.selfFilters.zipIdx.map fun x => ⟨t.answer M preds (.own x.2), x.1⟩

section
variable (H : Host S) (M : PushdownMethods S α) (phase : FilterPushdownPhase)

/-- The turns of a traversal at a node: one per child, with what the node wants of it and what the
traversal from it returned. -/
structure PushdownTurns (p : ExecutionPlan S) (preds : List (ExprTree α))
    (turns : List (PushdownTurn S α)) : Prop where
  children : turns.map (·.child) = p.children
  gathered : M.gatherFiltersForPushdown p phase (preds.filter M.isPushable) =
    .ok (turns.map (·.description))
  answered : ∀ t ∈ turns, t.Answered M preds (pushDownFilters H M phase t.child)

end

section
variable {H : Host S} {M : PushdownMethods S α} {phase : FilterPushdownPhase}
  {preds : List (ExprTree α)}

theorem filled_init : (⟨List.replicate preds.length [], [], []⟩ : PushdownTables S α).Filled preds 0
    where
  rows := List.length_replicate
  entries := by
    intro support hsupport
    rw [List.eq_of_mem_replicate hsupport, List.length_nil]

theorem collect_parentFilters (turns : List (PushdownTurn S α)) :
    (preds.zipIdx.mapM fun x => do
        let support ← Abort.ofIndex ((⟨List.replicate preds.length [], [], []⟩ :
          PushdownTables S α).fileAll M preds turns).parentFilterPushdownSupports[x.2]?
        return (⟨x.1, support⟩ : ChildFilterPushdownResult (ExprTree α))) =
      .ok (answersOf M preds turns).parentFilters := by
  apply mapM_eq_ok
  intro x hx
  obtain ⟨hlt, -⟩ := List.mem_zipIdx' hx
  simp [PushdownTables.fileAll, hlt, Abort.ofIndex, bind, Except.bind, pure, Except.pure]

theorem items_new_allowed :
    (FilteredVec.new preds (allowPushdownForExpr M.isVolatileNode)).items =
      preds.filter M.isPushable := by
  rw [M.allowPushdownForExpr_eq_isPushable]
  exact map_fst_positions M.isPushable preds

theorem zip_planChildren (children : List (ExecutionPlan S))
    (description : List (ChildFilterDescription (ExprTree α))) :
    (planChildren H M phase children).zip description =
      (children.zip description).map fun x => (⟨x.1, pushDownFilters H M phase x.1⟩, x.2) := by
  rw [planChildren_eq, List.zip_map_left]
  rfl

theorem length_planChildren (children : List (ExecutionPlan S)) :
    (planChildren H M phase children).length = children.length := by
  rw [planChildren_eq, List.length_map]

theorem Abort.ofResult_eq_ok_iff {β : Type} {x : Except DataFusionError β} {b : β} :
    Abort.ofResult x = .ok b ↔ x = .ok b := by
  cases x with
  | ok c => simp [Abort.ofResult]
  | error e => simp [Abort.ofResult]

theorem marks_zip (hM : M.MarksEach) {p : ExecutionPlan S}
    {description : List (ChildFilterDescription (ExprTree α))}
    (hgather : M.gatherFiltersForPushdown p phase (preds.filter M.isPushable) = .ok description) :
    ∀ x ∈ p.children.zip description,
      x.2.parentFilters.length = (preds.filter M.isPushable).length := by
  intro x hx
  exact hM p phase _ description hgather x.2 (List.of_mem_zip hx).2

/-- **The result that is built** is the one with every answer in its place. -/
theorem childPushdownResult_eq_ok_iff (hM : M.MarksEach) {p : ExecutionPlan S}
    {newChildren : List (ExecutionPlan S)} {result : ChildPushdownResult (ExprTree α)} :
    childPushdownResult M phase p (planChildren H M phase p.children) preds =
        .ok (newChildren, result) ↔
      ∃ turns, PushdownTurns H M phase p preds turns ∧
        newChildren = turns.map (fun t => t.result.updatedNode.getD t.child) ∧
        result = answersOf M preds turns := by
  simp only [childPushdownResult, items_new_allowed, zip_planChildren, length_planChildren,
    List.length_map]
  constructor
  · intro h
    obtain ⟨description, hgather, h⟩ := bind_eq_ok.mp h
    obtain ⟨_, hassert, h⟩ := bind_eq_ok.mp h
    obtain ⟨_, _, h⟩ := bind_eq_ok.mp h
    obtain ⟨tables, htables, h⟩ := bind_eq_ok.mp h
    rw [Abort.ofResult_eq_ok_iff] at hgather
    have hlen := assertEqOrInternalErr_eq_ok_iff.mp hassert
    obtain ⟨turns, hturns, hanswered, rfl⟩ :=
      (pushDownChildren_eq_ok_iff (marks_zip hM hgather) filled_init).mp htables
    rw [collect_parentFilters, Abort.ok_bind] at h
    have hchildren := congrArg (List.map Prod.fst) hturns
    have hdescription := congrArg (List.map Prod.snd) hturns
    rw [List.map_map, List.map_fst_zip hlen.ge] at hchildren
    rw [List.map_map, List.map_snd_zip hlen.le] at hdescription
    refine ⟨turns, ⟨hchildren, ?_, hanswered⟩, ?_⟩
    · rw [hgather, ← hdescription]
      rfl
    · cases h
      exact ⟨rfl, rfl⟩
  · intro h
    obtain ⟨turns, ⟨hchildren, hgather, hanswered⟩, rfl, rfl⟩ := h
    have hlen : (turns.map (·.description)).length = p.children.length := by
      rw [← hchildren, List.length_map, List.length_map]
    have hpairs : turns.map (fun t => (t.child, t.description)) =
        p.children.zip (turns.map (·.description)) := by
      rw [← hchildren, List.zip_map']
    have hloop := (pushDownChildren_eq_ok_iff (marks_zip hM hgather) filled_init).mpr
      ⟨turns, hpairs, hanswered, rfl⟩
    rw [hgather]
    simp only [Abort.ofResult, Abort.ok_bind, hlen, assertEqOrInternalErr_self, hloop,
      collect_parentFilters]
    rfl

end

/-! ## No index leaves its table -/

section
variable {β γ : Type}

theorem bind_ne_panic {x : Except Abort β} {f : β → Except Abort γ} (hx : x ≠ .error .panic)
    (hf : ∀ b, x = .ok b → f b ≠ .error .panic) : (x >>= f) ≠ .error .panic := by
  cases x with
  | error e =>
    intro h
    apply hx
    rw [Except.error.inj h]
  | ok b => exact hf b rfl

theorem Abort.ofResult_ne_panic (x : Except DataFusionError β) :
    Abort.ofResult x ≠ .error .panic := by
  cases x with
  | ok b => simp [Abort.ofResult]
  | error e => simp [Abort.ofResult]

theorem assertEqOrInternalErr_ne_panic {leftText rightText message : String} {m n : Nat} :
    assertEqOrInternalErr leftText m rightText n message ≠ .error .panic := by
  by_cases h : m = n
  · simp [assertEqOrInternalErr, h]
  · simp [assertEqOrInternalErr, h]

end

section
variable {H : Host S} {M : PushdownMethods S α} {phase : FilterPushdownPhase}
  {preds : List (ExprTree α)}

theorem pushDownChildren_ne_panic {tables : PushdownTables S α} {childIdx : Nat}
    {pushDown : ExecutionPlan S → List (ExprTree α) →
      Except Abort (FilterPushdownPropagation (ExecutionPlan S))}
    {pairs : List (ExecutionPlan S × ChildFilterDescription (ExprTree α))}
    (hmarks : ∀ x ∈ pairs, x.2.parentFilters.length = (preds.filter M.isPushable).length)
    (hfilled : tables.Filled preds childIdx)
    (hchild : ∀ x ∈ pairs, ∀ filters, pushDown x.1 filters ≠ .error .panic) :
    pushDownChildren M (FilteredVec.new preds (allowPushdownForExpr M.isVolatileNode)) childIdx
      (pairs.map fun x => (⟨x.1, pushDown x.1⟩, x.2)) tables ≠ .error .panic := by
  induction pairs generalizing tables childIdx with
  | nil => simp [pushDownChildren]
  | cons x pairs ih =>
    have hmark := hmarks x List.mem_cons_self
    rw [List.map_cons, pushDownChildren]
    apply bind_ne_panic
    · rw [pushDownChild_eq _ hmark hfilled]
      apply bind_ne_panic (hchild x List.mem_cons_self _)
      intro r _
      apply bind_ne_panic assertEqOrInternalErr_ne_panic
      intro _ _ h
      cases h
    · intro tables' h
      obtain ⟨r, -, rfl⟩ := (pushDownChild_eq_ok_iff hmark hfilled).mp h
      exact ih (fun y hy => hmarks y (List.mem_cons_of_mem _ hy)) (hfilled.file ..)
        fun y hy => hchild y (List.mem_cons_of_mem _ hy)

theorem childPushdownResult_ne_panic (hM : M.MarksEach) {p : ExecutionPlan S}
    (hchild : ∀ c ∈ p.children, ∀ filters, pushDownFilters H M phase c filters ≠ .error .panic) :
    childPushdownResult M phase p (planChildren H M phase p.children) preds ≠ .error .panic := by
  simp only [childPushdownResult, items_new_allowed, zip_planChildren]
  apply bind_ne_panic (Abort.ofResult_ne_panic _)
  intro description hgather
  have hmarks := marks_zip hM (Abort.ofResult_eq_ok_iff.mp hgather)
  apply bind_ne_panic assertEqOrInternalErr_ne_panic
  intro _ _
  apply bind_ne_panic assertEqOrInternalErr_ne_panic
  intro _ _
  apply bind_ne_panic
  · apply pushDownChildren_ne_panic hmarks filled_init
    intro x hx
    exact hchild x.1 (List.of_mem_zip hx).1
  · intro tables htables
    obtain ⟨turns, -, -, rfl⟩ := (pushDownChildren_eq_ok_iff hmarks filled_init).mp htables
    rw [collect_parentFilters]
    intro h
    cases h

theorem withNewChildrenIfNecessary_ne_panic (plan : ExecutionPlan S)
    (children : List (ExecutionPlan S)) :
    withNewChildrenIfNecessary H M plan children ≠ .error .panic := by
  apply bind_ne_panic assertEqOrInternalErr_ne_panic
  intro _ _
  split
  · exact Abort.ofResult_ne_panic _
  · intro h
    cases h

/-- One node does not panic if the traversals from its children do not. -/
theorem pushDownNode_ne_panic (hM : M.MarksEach) {p : ExecutionPlan S}
    (hchild : ∀ c ∈ p.children, ∀ filters, pushDownFilters H M phase c filters ≠ .error .panic)
    (preds : List (ExprTree α)) : pushDownFilters H M phase p preds ≠ .error .panic := by
  rw [pushDownFilters_eq]
  apply bind_ne_panic (childPushdownResult_ne_panic hM hchild)
  intro x _
  apply bind_ne_panic (withNewChildrenIfNecessary_ne_panic p x.1)
  intro updatedNode _
  apply bind_ne_panic (Abort.ofResult_ne_panic _)
  intro res _
  split
  · intro h
    cases h
  · intro h
    cases h

/-- **No traversal panics.** -/
theorem pushDownFilters_ne_panic (hM : M.MarksEach) (p : ExecutionPlan S)
    (preds : List (ExprTree α)) : pushDownFilters H M phase p preds ≠ .error .panic := by
  induction p generalizing preds with
  | hashJoin j l r ihl ihr =>
    apply pushDownNode_ne_panic hM
    simpa [ExecutionPlan.children] using ⟨ihl, ihr⟩
  | bloomBuild k c i ih =>
    apply pushDownNode_ne_panic hM
    simpa [ExecutionPlan.children] using ih
  | bloomProbe k c i ih =>
    apply pushDownNode_ne_panic hM
    simpa [ExecutionPlan.children] using ih
  | other op cs ih =>
    apply pushDownNode_ne_panic hM
    simpa [ExecutionPlan.children] using ih

end

/-! ## Every answer in its place -/

/-- What the result says about the filter of that origin, for one child. -/
def ChildPushdownResult.answer {E : Type} (result : ChildPushdownResult E) (childIdx : Nat) :
    FilterOrigin → Option PushedDown
  | .own idx => do
    let filters ← result.selfFilters[childIdx]?
    let filter ← filters[idx]?
    return filter.discriminant
  | .parent idx => do
    let filter ← result.parentFilters[idx]?
    filter.childResults[childIdx]?

/-- The origins there are: the parent predicates, and the node's own filters for the child. -/
def FilterOrigin.Exists {E : Type} (preds : List E) (d : ChildFilterDescription E) :
    FilterOrigin → Prop
  | .own idx => idx < d.selfFilters.length
  | .parent idx => idx < preds.length

section
variable {H : Host S} {M : PushdownMethods S α} {phase : FilterPushdownPhase}
  {preds : List (ExprTree α)} {d : ChildFilterDescription (ExprTree α)}
  {turns : List (PushdownTurn S α)} {t : PushdownTurn S α}

theorem exists_of_mem_sentTo {o : FilterOrigin} {g : ExprTree α}
    (h : (o, g) ∈ M.sentTo preds d) : o.Exists preds d := by
  cases o with
  | own k =>
    obtain ⟨hk, -⟩ := M.mem_sentTo_own preds d |>.mp h
    exact (List.getElem?_eq_some_iff.mp hk).1
  | parent i =>
    obtain ⟨f, hf, -⟩ := M.mem_sentTo_parent preds d |>.mp h
    exact (List.getElem?_eq_some_iff.mp hf).1

theorem answer_answersOf {childIdx : Nat} (ht : turns[childIdx]? = some t) {o : FilterOrigin}
    (ho : o.Exists preds t.description) :
    (answersOf M preds turns).answer childIdx o = some (t.answer M preds o) := by
  cases o with
  | own k =>
    have hk : k < t.description.selfFilters.length := ho
    simp [ChildPushdownResult.answer, answersOf, ht, hk]
  | parent i =>
    have hi : i < preds.length := ho
    simp [ChildPushdownResult.answer, answersOf, ht, hi]

theorem PushdownTurn.answer_sent
    (hmarks : t.description.parentFilters.length = (preds.filter M.isPushable).length)
    (hlen : t.result.filters.length = (M.sentTo preds t.description).length) {k : Nat}
    {o : FilterOrigin} {g : ExprTree α} (hk : (M.sentTo preds t.description)[k]? = some (o, g)) :
    t.result.filters[k]? = some (t.answer M preds o) := by
  have hlt : k < t.result.filters.length := by
    rw [hlen]
    exact (List.getElem?_eq_some_iff.mp hk).1
  have htag : ((M.sentTo preds t.description).map (·.1))[k]? = some o := by
    rw [List.getElem?_map, hk]
    rfl
  have hget := List.getElem?_eq_getElem hlt
  rw [PushdownTurn.answer, answerTo, lookup_zip_of_getElem? (M.nodup_sentTo hmarks) htag hget, hget]
  rfl

theorem PushdownTurn.answer_not_sent {o : FilterOrigin}
    (h : o ∉ (M.sentTo preds t.description).map (·.1)) : t.answer M preds o = .no := by
  rw [PushdownTurn.answer, answerTo, lookup_zip_eq_none h]
  rfl

theorem PushdownTurns.marks (hM : M.MarksEach) {p : ExecutionPlan S}
    (h : PushdownTurns H M phase p preds turns) (ht : t ∈ turns) :
    t.description.parentFilters.length = (preds.filter M.isPushable).length :=
  hM p phase _ _ h.gathered t.description (List.mem_map_of_mem ht)

/-- The marked form of a predicate that was not taken out stands behind those of the earlier
ones. -/
theorem getElem?_map_filter_countP {p : ExprTree α → Bool} {i : Nat} {f : ExprTree α}
    (hf : preds[i]? = some f) (hp : p f = true)
    (mark : ExprTree α → PushedDownPredicate (ExprTree α)) :
    ((preds.filter p).map mark)[(preds.take i).countP p]? = some (mark f) := by
  obtain ⟨hlt, rfl⟩ := List.getElem?_eq_some_iff.mp hf
  have hsplit : preds.filter p =
      (preds.take i).filter p ++ (preds[i] :: preds.drop (i + 1)).filter p := by
    rw [← List.filter_append, ← List.drop_eq_getElem_cons hlt, List.take_append_drop]
  rw [List.getElem?_map, hsplit, List.countP_eq_length_filter,
    List.getElem?_append_right le_rfl, Nat.sub_self, List.filter_cons_of_pos hp]
  rfl

variable (M preds turns) in
/-- In a result for the given turns, every parent predicate and every filter of the node stands in
its place, what was sent to a child has that child's answer, and the rest has `No`. A parent
predicate that was sent is that predicate as the node marked it. -/
structure AnswersReach (mark : Nat → ExprTree α → PushedDownPredicate (ExprTree α))
    (result : ChildPushdownResult (ExprTree α)) : Prop where
  sentParents : ∀ (c : Nat) t, turns[c]? = some t → ∀ i g,
    (.parent i, g) ∈ M.sentTo preds t.description ↔
      ∃ f, preds[i]? = some f ∧ M.isPushable f = true ∧ mark c f = ⟨.yes, g⟩
  sentOwns : ∀ t ∈ turns, ∀ k g, (.own k, g) ∈ M.sentTo preds t.description ↔
    t.description.selfFilters[k]? = some g ∧ M.isPushable g = true
  parents : result.parentFilters.map (·.filter) = preds
  owns : result.selfFilters.map (·.map (·.predicate)) = turns.map (·.description.selfFilters)
  perChild : ∀ f ∈ result.parentFilters, f.childResults.length = turns.length
  sent : ∀ (c : Nat) t, turns[c]? = some t → ∀ (k : Nat) o g,
    (M.sentTo preds t.description)[k]? = some (o, g) → result.answer c o = t.result.filters[k]?
  notSent : ∀ (c : Nat) t, turns[c]? = some t → ∀ o : FilterOrigin, o.Exists preds t.description →
    o ∉ (M.sentTo preds t.description).map (·.1) → result.answer c o = some .no

theorem PushdownTurns.answersReach (hM : M.MarksEach) {p : ExecutionPlan S}
    {mark : Nat → ExprTree α → PushedDownPredicate (ExprTree α)}
    (horder : M.MarksInOrder p phase (preds.filter M.isPushable) mark)
    (h : PushdownTurns H M phase p preds turns) :
    AnswersReach M preds turns mark (answersOf M preds turns) where
  sentParents := by
    intro c t ht i g
    have hmarks : t.description.parentFilters = (preds.filter M.isPushable).map (mark c) := by
      apply horder _ h.gathered c
      rw [List.getElem?_map, ht]
      rfl
    rw [M.mem_sentTo_parent, hmarks]
    constructor
    · intro hsent
      obtain ⟨f, hf, hpushable, hmark⟩ := hsent
      rw [getElem?_map_filter_countP hf hpushable] at hmark
      exact ⟨f, hf, hpushable, Option.some.inj hmark⟩
    · intro hsent
      obtain ⟨f, hf, hpushable, hmark⟩ := hsent
      refine ⟨f, hf, hpushable, ?_⟩
      rw [getElem?_map_filter_countP hf hpushable, hmark]
  sentOwns := by
    intro t _ k g
    exact M.mem_sentTo_own preds t.description
  parents := by simp [answersOf, Function.comp_def]
  owns := by simp [answersOf, Function.comp_def]
  perChild := by
    intro f hf
    obtain ⟨x, -, rfl⟩ := List.mem_map.mp hf
    exact List.length_map _
  sent := by
    intro c t ht k o g hk
    have hmem := List.mem_of_getElem? ht
    have hmarks := h.marks hM hmem
    rw [answer_answersOf ht (exists_of_mem_sentTo (List.mem_of_getElem? hk))]
    exact (PushdownTurn.answer_sent hmarks (h.answered t hmem).answersEach hk).symm
  notSent := by
    intro c t ht o ho hnot
    rw [answer_answersOf ht ho, PushdownTurn.answer_not_sent hnot]

end

/-- The comparisons in the filters over a join of orders with customers. -/
inductive OrdersNode where
  | totalAbove
  | nationIs
  | randomBelow
  | custkeyIn
  deriving DecidableEq, Repr

def ordersNode (n : OrdersNode) : ExprTree OrdersNode := .node n []

/-- Totals belong to the first child and nations to the second. -/
def ordersMark (c : Nat) : ExprTree OrdersNode → PushedDownPredicate (ExprTree OrdersNode)
  | .node n es =>
    ⟨if n == (if c = 0 then .totalAbove else .nationIs) then .yes else .no, .node n es⟩

/-- The first child also gets the join's own filters, one of them volatile. A scan applies what
compares keys or nations. -/
def ordersMethods : PushdownMethods scanSig OrdersNode where
  isVolatileNode n := n == .randomBelow
  gatherFiltersForPushdown node _ filters :=
    match node.children with
    | [] => .ok []
    | _ =>
      .ok [⟨filters.map (ordersMark 0), [ordersNode .randomBelow, ordersNode .custkeyIn]⟩,
        ⟨filters.map (ordersMark 1), []⟩]
  handleChildPushdownResult _ _ result :=
    .ok ⟨result.parentFilters.map fun f =>
      match f.filter with
      | .node n _ => if n == .custkeyIn || n == .nationIs then .yes else .no, none⟩
  name _ := "HashJoinExec"
  ptrEq _ _ := true

theorem ordersMethods_marksEach : ordersMethods.MarksEach := by
  intro node phase filters description h d hd
  simp only [ordersMethods] at h
  split at h
  · cases h
    cases hd
  · cases h
    rcases List.mem_cons.mp hd with rfl | hd
    · exact List.length_map _
    · rw [List.mem_singleton.mp hd]
      exact List.length_map _

theorem ordersMethods_marksInOrder (node : ExecutionPlan scanSig) (phase : FilterPushdownPhase)
    (filters : List (ExprTree OrdersNode)) :
    ordersMethods.MarksInOrder node phase filters ordersMark := by
  intro description h c d hd
  simp only [ordersMethods] at h
  split at h
  · cases h
    cases hd
  · cases h
    rcases c with _ | _ | c
    · cases hd
      rfl
    · cases hd
      rfl
    · cases hd

def ordersScan (name : String) : ExecutionPlan scanSig := .other (name, []) []

def ordersPlan : ExecutionPlan scanSig :=
  .other ("HashJoinExec", []) [ordersScan "orders", ordersScan "customer"]

def ordersPredicates : List (ExprTree OrdersNode) :=
  [ordersNode .randomBelow, ordersNode .nationIs, ordersNode .totalAbove]

/-- The orders scan is sent a key filter and the predicate on totals and applies the first; the
customer scan is sent the predicate on nations and applies it. -/
def ordersTurns : List (PushdownTurn scanSig OrdersNode) :=
  [⟨ordersScan "orders",
      ⟨[⟨.no, ordersNode .nationIs⟩, ⟨.yes, ordersNode .totalAbove⟩],
        [ordersNode .randomBelow, ordersNode .custkeyIn]⟩,
      ⟨[.yes, .no], none⟩⟩,
    ⟨ordersScan "customer",
      ⟨[⟨.yes, ordersNode .nationIs⟩, ⟨.no, ordersNode .totalAbove⟩], []⟩, ⟨[.yes], none⟩⟩]

theorem ordersTurns_spec :
    PushdownTurns acceptAll ordersMethods .pre ordersPlan ordersPredicates ordersTurns where
  children := rfl
  gathered := rfl
  answered := by
    intro t ht
    rcases List.mem_cons.mp ht with rfl | ht
    · exact ⟨rfl, rfl⟩
    · rw [List.mem_singleton.mp ht]
      exact ⟨rfl, rfl⟩

-- the volatile predicate is sent to neither child
example :
    ((answersOf ordersMethods ordersPredicates ordersTurns).parentFilters.map (·.childResults),
      (answersOf ordersMethods ordersPredicates ordersTurns).selfFilters.map
        (·.map (·.discriminant))) =
      ([[.no, .no], [.no, .yes], [.no, .no]], [[.no, .yes], []]) := by
  rfl

end PredicateTransfer
