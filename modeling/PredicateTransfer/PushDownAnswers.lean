import PredicateTransfer.PushDownFilters
import PredicateTransfer.Lib.Fallible

/-!
# What a child is sent, and what it answers

What the loop of `push_down_filters` does, without its index maps.

**Sent.** `sentTo` is the list a child is sent, each filter with its origin. `mem_sentTo_own` and
`mem_sentTo_parent` say which filters those are.

**Answered.** `answerTo` looks an answer up by the origin of its filter; what was not sent has the
answer `No`. `pushDownChild_eq` says that one turn of the loop files exactly these, and
`pushDownChildren_eq_ok_iff` that the whole loop does, by induction on the children left, with the
tables so far general (`PushdownTables.Filled`).
-/

namespace PredicateTransfer

open Scatter Fallible

variable {S : Sig} {α : Type}

/-! ## What is sent -/

/-- Where a filter that is sent to a child came from. -/
inductive FilterOrigin where
  | own (idx : Nat)
  | parent (idx : Nat)
  deriving DecidableEq, Repr

namespace PushdownMethods

variable (M : PushdownMethods S α) (preds : List (ExprTree α))
  (d : ChildFilterDescription (ExprTree α))

def isPushable (e : ExprTree α) : Bool := !e.isVolatile M.isVolatileNode

/-- The original places of the predicates the node is asked about. -/
def remaining : List Nat := (positions M.isPushable preds).map (·.2)

/-- The node's own filters that are sent, by their places. -/
def ownSent : List (ExprTree α × Nat) := positions M.isPushable d.selfFilters

/-- The parent predicates that are sent, as the node remapped them, by their original places. -/
def parentSent : List (Nat × PushedDownPredicate (ExprTree α)) :=
  ((M.remaining preds).zip d.parentFilters).filter (·.2.discriminant == .yes)

/-- What a child is sent, each filter with its origin. -/
def sentTo : List (FilterOrigin × ExprTree α) :=
  (M.ownSent d).map (fun x => (.own x.2, x.1)) ++
    (M.parentSent preds d).map fun x => (.parent x.1, x.2.predicate)

theorem map_fst_sentTo :
    (M.sentTo preds d).map (·.1) =
      ((M.ownSent d).map (·.2)).map .own ++ ((M.parentSent preds d).map (·.1)).map .parent := by
  simp [sentTo, Function.comp_def]

theorem mem_sentTo_own {k : Nat} {g : ExprTree α} :
    (.own k, g) ∈ M.sentTo preds d ↔ d.selfFilters[k]? = some g ∧ M.isPushable g = true := by
  rw [sentTo, List.mem_append]
  constructor
  · intro h
    rcases h with h | h
    · obtain ⟨x, hx, heq⟩ := List.mem_map.mp h
      cases heq
      exact mem_positions.mp hx
    · obtain ⟨x, -, heq⟩ := List.mem_map.mp h
      cases heq
  · intro h
    exact .inl (List.mem_map.mpr ⟨(g, k), mem_positions.mpr h, rfl⟩)

/-- A parent predicate is sent, as it was remapped, if it is not volatile and its mark, which is the
one behind those of the earlier predicates that are not volatile, says so. -/
theorem mem_sentTo_parent {i : Nat} {g : ExprTree α} :
    (.parent i, g) ∈ M.sentTo preds d ↔
      ∃ f, preds[i]? = some f ∧ M.isPushable f = true ∧
        d.parentFilters[(preds.take i).countP M.isPushable]? = some ⟨.yes, g⟩ := by
  rw [sentTo, List.mem_append]
  constructor
  · intro h
    rcases h with h | h
    · obtain ⟨x, -, heq⟩ := List.mem_map.mp h
      cases heq
    · obtain ⟨⟨i, mark, g⟩, hx, heq⟩ := List.mem_map.mp h
      cases heq
      obtain ⟨hx, hyes⟩ := List.mem_filter.mp hx
      cases of_decide_eq_true hyes
      exact mem_zip_positions.mp hx
  · intro h
    have hmem := mem_zip_positions.mpr h
    exact .inr (List.mem_map.mpr ⟨_, List.mem_filter.mpr ⟨hmem, rfl⟩, rfl⟩)

theorem allowPushdownForExpr_eq_isPushable :
    allowPushdownForExpr M.isVolatileNode = M.isPushable := by
  funext e
  exact allowPushdownForExpr_eq M.isVolatileNode e

theorem length_remaining : (M.remaining preds).length = (preds.filter M.isPushable).length := by
  rw [remaining, ← map_fst_positions, List.length_map, List.length_map]

/-- The first pass. -/
theorem tracks_remaining :
    (FilteredVec.new preds M.isPushable).Tracks (M.remaining preds) :=
  FilteredVec.tracks_new preds M.isPushable

variable {preds d}

/-- The second pass. -/
theorem tracks_parentSent (hmarks : d.parentFilters.length = (preds.filter M.isPushable).length) :
    ((FilteredVec.new preds M.isPushable).chainFilterSlice d.parentFilters
      (·.discriminant == .yes)).Tracks ((M.parentSent preds d).map (·.1)) := by
  apply (M.tracks_remaining preds).chain
  rw [hmarks, length_remaining]

theorem nodup_sentTo (hmarks : d.parentFilters.length = (preds.filter M.isPushable).length) :
    ((M.sentTo preds d).map (·.1)).Nodup := by
  rw [map_fst_sentTo]
  refine List.Nodup.append ?_ ?_ ?_
  · refine List.Nodup.map ?_ (nodup_positions M.isPushable d.selfFilters)
    intro a b h
    exact FilterOrigin.own.inj h
  · refine List.Nodup.map ?_ (M.tracks_parentSent hmarks).nodup
    intro a b h
    exact FilterOrigin.parent.inj h
  · intro o ho ho'
    obtain ⟨a, -, rfl⟩ := List.mem_map.mp ho
    obtain ⟨b, -, hb⟩ := List.mem_map.mp ho'
    cases hb

/-- The list the code sends is what the origins are attached to. -/
theorem map_snd_sentTo (hmarks : d.parentFilters.length = (preds.filter M.isPushable).length) :
    (FilteredVec.new d.selfFilters M.isPushable).items ++
        ((FilteredVec.new preds M.isPushable).chainFilterSlice d.parentFilters
          (·.discriminant == .yes)).items.map (·.predicate) =
      (M.sentTo preds d).map (·.2) := by
  have hsnd : ((M.remaining preds).zip d.parentFilters).map (·.2) = d.parentFilters := by
    apply List.map_snd_zip
    rw [hmarks, length_remaining]
  have hparent : (M.parentSent preds d).map (·.2) =
      d.parentFilters.filter (·.discriminant == .yes) := by
    rw [← congrArg (List.filter _) hsnd, List.filter_map]
    rfl
  rw [sentTo, List.map_append, List.map_map, List.map_map]
  congr 1
  rw [FilteredVec.chainFilterSlice, map_fst_positions, ← hparent, List.map_map]
  rfl

end PushdownMethods

/-! ## What is answered -/

/-- The answer to the filter of that origin: the child's, if the filter was sent, and `No`
otherwise. -/
def answerTo (sent : List (FilterOrigin × ExprTree α)) (answers : List PushedDown)
    (o : FilterOrigin) : PushedDown :=
  (((sent.map (·.1)).zip answers).lookup o).getD .no

namespace PushdownMethods

variable (M : PushdownMethods S α) (preds : List (ExprTree α))
  (d : ChildFilterDescription (ExprTree α)) {answers : List PushedDown}

theorem zip_sentTo (answers : List PushedDown)
    (hlen : (M.ownSent d).length ≤ answers.length) :
    ((M.sentTo preds d).map (·.1)).zip answers =
      (((M.ownSent d).map (·.2)).map .own).zip (answers.take (M.ownSent d).length) ++
        (((M.parentSent preds d).map (·.1)).map .parent).zip
          (answers.drop (M.ownSent d).length) := by
  rw [map_fst_sentTo]
  conv => lhs; rw [← List.take_append_drop (M.ownSent d).length answers]
  apply List.zip_append
  rw [List.length_map, List.length_map, List.length_take, Nat.min_eq_left hlen]

theorem answerTo_own (hlen : (M.ownSent d).length ≤ answers.length) (k : Nat) :
    answerTo (M.sentTo preds d) answers (.own k) =
      ((((M.ownSent d).map (·.2)).zip (answers.take (M.ownSent d).length)).lookup k).getD .no := by
  have hinj : Function.Injective FilterOrigin.own := fun _ _ => FilterOrigin.own.inj
  have hparent : FilterOrigin.own k ∉ ((M.parentSent preds d).map (·.1)).map .parent := by simp
  rw [answerTo, zip_sentTo M preds d answers hlen, List.lookup_append, lookup_zip_map hinj,
    lookup_zip_eq_none hparent, Option.or_none]

theorem answerTo_parent (hlen : (M.ownSent d).length ≤ answers.length) (i : Nat) :
    answerTo (M.sentTo preds d) answers (.parent i) =
      ((((M.parentSent preds d).map (·.1)).zip
        (answers.drop (M.ownSent d).length)).lookup i).getD .no := by
  have hinj : Function.Injective FilterOrigin.parent := fun _ _ => FilterOrigin.parent.inj
  have hown : FilterOrigin.parent i ∉ ((M.ownSent d).map (·.2)).map .own := by simp
  rw [answerTo, zip_sentTo M preds d answers hlen, List.lookup_append, lookup_zip_map hinj,
    lookup_zip_eq_none hown, Option.none_or]

variable {preds d}

theorem length_sentTo :
    (M.sentTo preds d).length = (M.ownSent d).length + (M.parentSent preds d).length := by
  rw [sentTo, List.length_append, List.length_map, List.length_map]

/-- The answers to the node's own filters, in the order of the filters. -/
theorem mapResults_own (hlen : answers.length = (M.sentTo preds d).length) :
    (FilteredVec.new d.selfFilters M.isPushable).mapResultsToOriginal
        (answers.take (M.ownSent d).length) .no =
      some ((List.range d.selfFilters.length).map fun k =>
        answerTo (M.sentTo preds d) answers (.own k)) := by
  rw [length_sentTo] at hlen
  have htracks := FilteredVec.tracks_new d.selfFilters M.isPushable
  have htake : (answers.take (M.ownSent d).length).length =
      ((positions M.isPushable d.selfFilters).map (·.2)).length := by
    rw [List.length_take, List.length_map, Nat.min_eq_left (by omega)]
    rfl
  rw [htracks.mapResultsToOriginal_eq htake]
  congr 2
  funext k
  rw [answerTo_own M preds d (by omega)]
  rfl

/-- The answers to the parent predicates, in the order of the predicates. -/
theorem mapResults_parent
    (hmarks : d.parentFilters.length = (preds.filter M.isPushable).length)
    (hlen : answers.length = (M.sentTo preds d).length) :
    ((FilteredVec.new preds M.isPushable).chainFilterSlice d.parentFilters
        (·.discriminant == .yes)).mapResultsToOriginal
        (answers.drop (M.ownSent d).length) .no =
      some ((List.range preds.length).map fun i =>
        answerTo (M.sentTo preds d) answers (.parent i)) := by
  rw [length_sentTo] at hlen
  have hdrop : (answers.drop (M.ownSent d).length).length =
      ((M.parentSent preds d).map (·.1)).length := by
    rw [List.length_drop, List.length_map]
    omega
  rw [(M.tracks_parentSent hmarks).mapResultsToOriginal_eq hdrop]
  congr 2
  funext i
  rw [answerTo_parent M preds d (by omega)]

end PushdownMethods

/-! ## One child -/

/-- The tables after one more child. -/
def PushdownTables.file (tables : PushdownTables S α) (child : ExecutionPlan S)
    (d : ChildFilterDescription (ExprTree α)) (sent : List (FilterOrigin × ExprTree α))
    (r : FilterPushdownPropagation (ExecutionPlan S)) : PushdownTables S α where
  parentFilterPushdownSupports :=
    tables.parentFilterPushdownSupports.zipIdx.map fun x =>
      x.1 ++ [answerTo sent r.filters (.parent x.2)]
  selfFiltersPushdownSupports :=
    tables.selfFiltersPushdownSupports ++
      [d.selfFilters.zipIdx.map fun x => ⟨answerTo sent r.filters (.own x.2), x.1⟩]
  newChildren := tables.newChildren ++ [r.updatedNode.getD child]

/-- Before a turn of the loop there is one row per parent predicate, with one entry per child
done. -/
structure PushdownTables.Filled (tables : PushdownTables S α) (preds : List (ExprTree α))
    (childIdx : Nat) : Prop where
  rows : tables.parentFilterPushdownSupports.length = preds.length
  entries : ∀ support ∈ tables.parentFilterPushdownSupports, support.length = childIdx

theorem zip_range_map {β γ δ : Type} (f : Nat → β) (g : β → γ → δ) (items : List γ) :
    (((List.range items.length).map f).zip items).map (fun x => g x.1 x.2) =
      items.zipIdx.map fun x => g (f x.2) x.1 := by
  apply List.ext_getElem?
  intro i
  by_cases hi : i < items.length
  · simp [hi]
  · simp [hi]

section
variable {M : PushdownMethods S α} {preds : List (ExprTree α)}
  {d : ChildFilterDescription (ExprTree α)} {tables : PushdownTables S α} {childIdx : Nat}

theorem mark_unsupported (h : tables.Filled preds childIdx) :
    (tables.parentFilterPushdownSupports.mapM fun support =>
        let support := support ++ [PushedDown.no]
        if support.length = childIdx + 1 then Except.ok support else .error Abort.panic) =
      .ok (tables.parentFilterPushdownSupports.map (· ++ [PushedDown.no])) := by
  apply mapM_eq_ok
  intro support hsupport
  simp [h.entries support hsupport]

/-- Writing each answer over the last entry of its row. -/
theorem update_supports (h : tables.Filled preds childIdx) (f : Nat → PushedDown) :
    ((tables.parentFilterPushdownSupports.map (· ++ [PushedDown.no])).zipIdx.mapM fun x => do
        let answer ← Abort.ofIndex ((List.range preds.length).map f)[x.2]?
        if childIdx < x.1.length then .ok (x.1.set childIdx answer) else .error Abort.panic) =
      .ok (tables.parentFilterPushdownSupports.zipIdx.map fun x => x.1 ++ [f x.2]) := by
  have hzip : (tables.parentFilterPushdownSupports.map (· ++ [PushedDown.no])).zipIdx =
      tables.parentFilterPushdownSupports.zipIdx.map fun x => (x.1 ++ [PushedDown.no], x.2) := by
    rw [List.zipIdx_map]
    rfl
  rw [hzip, List.mapM_map]
  apply mapM_eq_ok
  intro x hx
  obtain ⟨hlt, hmem⟩ := List.mem_zipIdx' hx
  have hlen : x.1.length = childIdx := by
    rw [hmem]
    exact h.entries _ (List.getElem_mem hlt)
  have hrow : x.2 < preds.length := h.rows ▸ hlt
  subst hlen
  simp [Abort.ofIndex, hrow, bind, Except.bind]

/-- **One turn of the loop**: the child is sent `sentTo`, and its answers are filed under the
origins of what it was sent. -/
theorem pushDownChild_eq (child : PlanChild S α)
    (hmarks : d.parentFilters.length = (preds.filter M.isPushable).length)
    (hfilled : tables.Filled preds childIdx) :
    pushDownChild M (FilteredVec.new preds (allowPushdownForExpr M.isVolatileNode)) childIdx child
        d tables =
      (do
        let r ← child.pushDownFilters ((M.sentTo preds d).map (·.2))
        assertEqOrInternalErr "all_filters.len()" r.filters.length
          "num_self_filters + num_parent_filters" (M.sentTo preds d).length
          s!"Filter pushdown did not return the expected number of filters from {M.name child.plan}"
        return tables.file child.plan d (M.sentTo preds d) r) := by
  have hnum : (FilteredVec.new d.selfFilters M.isPushable).len = (M.ownSent d).length :=
    List.length_map _
  have hcount : (M.ownSent d).length + ((M.sentTo preds d).length - (M.ownSent d).length) =
      (M.sentTo preds d).length := by
    rw [M.length_sentTo]
    omega
  unfold pushDownChild
  simp only [M.allowPushdownForExpr_eq_isPushable, M.map_snd_sentTo hmarks, hnum,
    List.length_map, hcount]
  congr 1
  funext r
  -- with a wrong number of answers both sides end in the same error
  by_cases hlen : r.filters.length = (M.sentTo preds d).length
  · have hself := zip_range_map (fun k => answerTo (M.sentTo preds d) r.filters (.own k))
      PushedDown.wrapExpression d.selfFilters
    rw [M.mapResults_own hlen, M.mapResults_parent hmarks hlen, mark_unsupported hfilled, hlen]
    simp only [assertEqOrInternalErr_self, Abort.ofIndex_some, Abort.ok_bind, hself,
      update_supports hfilled]
    rfl
  · simp [assertEqOrInternalErr, hlen, bind, Except.bind]

end

/-! ## All children -/

/-- A child, what the node wants of it, and what it returned. -/
structure PushdownTurn (S : Sig) (α : Type) where
  child : ExecutionPlan S
  description : ChildFilterDescription (ExprTree α)
  result : FilterPushdownPropagation (ExecutionPlan S)

section
variable (M : PushdownMethods S α) (preds : List (ExprTree α))

/-- The child's answer to the filter of that origin. -/
def PushdownTurn.answer (t : PushdownTurn S α) (o : FilterOrigin) : PushedDown :=
  answerTo (M.sentTo preds t.description) t.result.filters o

/-- The child was sent what it should be and answered all of it. -/
structure PushdownTurn.Answered (t : PushdownTurn S α)
    (pushDown : List (ExprTree α) → Except Abort (FilterPushdownPropagation (ExecutionPlan S))) :
    Prop where
  returned : pushDown ((M.sentTo preds t.description).map (·.2)) = .ok t.result
  answersEach : t.result.filters.length = (M.sentTo preds t.description).length

/-- The tables after the given turns. -/
def PushdownTables.fileAll (tables : PushdownTables S α) (turns : List (PushdownTurn S α)) :
    PushdownTables S α where
  parentFilterPushdownSupports :=
    tables.parentFilterPushdownSupports.zipIdx.map fun x =>
      x.1 ++ turns.map (·.answer M preds (.parent x.2))
  selfFiltersPushdownSupports :=
    tables.selfFiltersPushdownSupports ++ turns.map fun t =>
      t.description.selfFilters.zipIdx.map fun x => ⟨t.answer M preds (.own x.2), x.1⟩
  newChildren := tables.newChildren ++ turns.map fun t => t.result.updatedNode.getD t.child

end

section
variable {M : PushdownMethods S α} {preds : List (ExprTree α)} {tables tables' : PushdownTables S α}
  {childIdx : Nat}

theorem PushdownTables.fileAll_nil : tables.fileAll M preds [] = tables := by
  simp [fileAll]

theorem append_rows {β : Type} (rows : List (List β)) (f g : Nat → List β) :
    ((rows.zipIdx.map fun x => x.1 ++ f x.2).zipIdx.map fun x => x.1 ++ g x.2) =
      rows.zipIdx.map fun x => x.1 ++ (f x.2 ++ g x.2) := by
  apply List.ext_getElem?
  intro i
  simp [Function.comp_def]

theorem PushdownTables.fileAll_cons (t : PushdownTurn S α) (turns : List (PushdownTurn S α)) :
    tables.fileAll M preds (t :: turns) =
      (tables.file t.child t.description (M.sentTo preds t.description) t.result).fileAll M preds
        turns := by
  unfold fileAll
  congr 1
  · exact (append_rows tables.parentFilterPushdownSupports
      (fun i => [t.answer M preds (.parent i)])
      fun i => turns.map (·.answer M preds (.parent i))).symm
  · simp [file, PushdownTurn.answer]
  · simp [file]

theorem PushdownTables.Filled.file (h : tables.Filled preds childIdx) (child : ExecutionPlan S)
    (d : ChildFilterDescription (ExprTree α)) (sent : List (FilterOrigin × ExprTree α))
    (r : FilterPushdownPropagation (ExecutionPlan S)) :
    (tables.file child d sent r).Filled preds (childIdx + 1) where
  rows := by simp [PushdownTables.file, h.rows]
  entries := by
    intro support hsupport
    obtain ⟨x, hx, rfl⟩ := List.mem_map.mp hsupport
    obtain ⟨hlt, hmem⟩ := List.mem_zipIdx' hx
    have hlen := h.entries x.1 (hmem ▸ List.getElem_mem hlt)
    simp [hlen]

theorem assertEqOrInternalErr_eq_ok_iff {leftText rightText message : String} {m n : Nat} :
    assertEqOrInternalErr leftText m rightText n message = .ok () ↔ m = n := by
  by_cases h : m = n
  · simp [assertEqOrInternalErr, h]
  · simp [assertEqOrInternalErr, h]

/-- A turn of the loop succeeds when the child answers all it was sent. -/
theorem pushDownChild_eq_ok_iff {child : PlanChild S α} {d : ChildFilterDescription (ExprTree α)}
    (hmarks : d.parentFilters.length = (preds.filter M.isPushable).length)
    (hfilled : tables.Filled preds childIdx) :
    pushDownChild M (FilteredVec.new preds (allowPushdownForExpr M.isVolatileNode)) childIdx child
        d tables = .ok tables' ↔
      ∃ r, (⟨child.plan, d, r⟩ : PushdownTurn S α).Answered M preds child.pushDownFilters ∧
        tables' = tables.file child.plan d (M.sentTo preds d) r := by
  rw [pushDownChild_eq child hmarks hfilled, bind_eq_ok]
  constructor
  · intro h
    obtain ⟨r, hr, h⟩ := h
    obtain ⟨_, hassert, h⟩ := bind_eq_ok.mp h
    exact ⟨r, ⟨hr, assertEqOrInternalErr_eq_ok_iff.mp hassert⟩, (Except.ok.inj h).symm⟩
  · intro h
    obtain ⟨r, ⟨hr, hlen⟩, rfl⟩ := h
    refine ⟨r, hr, ?_⟩
    rw [hlen, assertEqOrInternalErr_self]
    rfl

/-- **The loop** ends with every child's answers filed, when each child answers. -/
theorem pushDownChildren_eq_ok_iff
    {pushDown : ExecutionPlan S → List (ExprTree α) →
      Except Abort (FilterPushdownPropagation (ExecutionPlan S))}
    {pairs : List (ExecutionPlan S × ChildFilterDescription (ExprTree α))}
    (hmarks : ∀ x ∈ pairs, x.2.parentFilters.length = (preds.filter M.isPushable).length)
    (hfilled : tables.Filled preds childIdx) :
    pushDownChildren M (FilteredVec.new preds (allowPushdownForExpr M.isVolatileNode)) childIdx
        (pairs.map fun x => (⟨x.1, pushDown x.1⟩, x.2)) tables = .ok tables' ↔
      ∃ turns : List (PushdownTurn S α), turns.map (fun t => (t.child, t.description)) = pairs ∧
        (∀ t ∈ turns, t.Answered M preds (pushDown t.child)) ∧
        tables' = tables.fileAll M preds turns := by
  induction pairs generalizing tables childIdx with
  | nil =>
    constructor
    · intro h
      refine ⟨[], rfl, by simp, ?_⟩
      rw [PushdownTables.fileAll_nil]
      exact (Except.ok.inj h).symm
    · intro h
      obtain ⟨turns, hturns, -, rfl⟩ := h
      rw [List.map_eq_nil_iff.mp hturns, PushdownTables.fileAll_nil]
      rfl
  | cons x pairs ih =>
    obtain ⟨c, d⟩ := x
    have hstep (tables' : PushdownTables S α) :
        pushDownChild M (FilteredVec.new preds (allowPushdownForExpr M.isVolatileNode)) childIdx
          ⟨c, pushDown c⟩ d tables = .ok tables' ↔ _ :=
      pushDownChild_eq_ok_iff (hmarks (c, d) List.mem_cons_self) hfilled
    have hrest := fun x hx => hmarks x (List.mem_cons_of_mem _ hx)
    -- filing one more child keeps the shape of the tables, at the next child index
    rw [List.map_cons, pushDownChildren, bind_eq_ok]
    constructor
    · intro h
      obtain ⟨tables₁, h₁, h⟩ := h
      obtain ⟨r, hr, rfl⟩ := (hstep tables₁).mp h₁
      obtain ⟨turns, rfl, hturns, rfl⟩ := (ih hrest (hfilled.file ..)).mp h
      refine ⟨⟨c, d, r⟩ :: turns, rfl, ?_, (PushdownTables.fileAll_cons ⟨c, d, r⟩ turns).symm⟩
      intro t ht
      cases ht with
      | head => exact hr
      | tail _ ht => exact hturns t ht
    · intro h
      obtain ⟨turns, hturns, hanswered, rfl⟩ := h
      obtain ⟨t, turns, rfl, ht, rfl⟩ := List.map_eq_cons_iff.mp hturns
      cases ht
      refine ⟨_, (hstep _).mpr ⟨t.result, hanswered t List.mem_cons_self, rfl⟩, ?_⟩
      exact (ih hrest (hfilled.file ..)).mpr
        ⟨turns, rfl, fun t' ht' => hanswered t' (List.mem_cons_of_mem _ ht'),
          PushdownTables.fileAll_cons t turns⟩

end

end PredicateTransfer
