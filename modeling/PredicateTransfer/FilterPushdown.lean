import PredicateTransfer.FilterRemap
import PredicateTransfer.NullAwareJoin
import PredicateTransfer.Lib.FilterJoin

/-!
# Parent filters through a hash join

A filter above a hash join is offered to the join's children. Which output columns a child may see
is decided by position, through the join's column indices; which column of the child is then read is
decided by name. In a semi or anti join a filter over join keys is also offered to the side that is
not in the output. Each child answers whether it applies a filter in full, and a filter that *any*
child applies is not applied again above the join.

**Theorem (`pushdown_agrees_iff`).** For every join type and every combination of answers the answer
is kept if and only if, pair by pair and row by row, what is applied below and above comes to the
filters themselves (`PushdownAgrees`).
-/

namespace PredicateTransfer

open SemiJoin

variable {S : Sig}

/-! ## Gathering -/

/-- `lr_is_preserved` of the physical join. -/
def JoinType.lrIsPreserved : JoinType → Bool × Bool
  | .inner => (true, true)
  | .left => (true, false)
  | .right => (false, true)
  | .full => (false, false)
  | .leftSemi | .leftAnti => (true, true)
  | .rightSemi | .rightAnti => (true, true)
  | .leftMark => (true, false)
  | .rightMark => (false, true)

/-- The positions of the output columns with a property. -/
def outputIndices (columnIndices : List ColumnIndex) (p : ColumnIndex → Bool) : List Nat :=
  (columnIndices.zipIdx.filter fun x => p x.1).map (·.2)

/-- The indices of those expressions that are columns. -/
def keyIndices (keys : List (PhysicalExpr S)) : List Nat :=
  keys.filterMap fun
    | .column _ index => some index
    | .other _ => none

section
variable (j : HashJoinExec S) (left right : Schema)

/-- `left_allowed`. -/
def HashJoinExec.leftAllowed : List Nat :=
  let columnIndices := j.columnIndices left right
  let rightKeyIndices := keyIndices (j.on.map (·.2))
  outputIndices columnIndices (·.side == .left) ++
    match j.joinType with
    | .rightSemi | .rightAnti =>
      outputIndices columnIndices fun ci => ci.side == .right && rightKeyIndices.contains ci.index
    | _ => []

/-- `right_allowed`. -/
def HashJoinExec.rightAllowed : List Nat :=
  let columnIndices := j.columnIndices left right
  let leftKeyIndices := keyIndices (j.on.map (·.1))
  outputIndices columnIndices (·.side == .right) ++
    match j.joinType with
    | .leftSemi | .leftAnti =>
      outputIndices columnIndices fun ci => ci.side == .left && leftKeyIndices.contains ci.index
    | _ => []

/-- `HashJoinExec::gather_filters_for_pushdown`, for one parent filter: what is sent to each
child, if the filter is supported there. -/
def HashJoinExec.gatherFiltersForPushdown (f : FilterExpr S) :
    Option (FilterExpr S) × Option (FilterExpr S) :=
  let preserved := j.joinType.lrIsPreserved
  (if preserved.1 then tryRemap left (j.leftAllowed left right) f else none,
    if preserved.2 then tryRemap right (j.rightAllowed left right) f else none)

end

/-- A parent filter, and whether the children apply in full what is sent to them of it. -/
structure ParentFilter (S : Sig) where
  filter : FilterExpr S
  leftAnswer : Bool
  rightAnswer : Bool

section
variable (j : HashJoinExec S) (left right : Schema)

/-- What the left child applies. -/
def ParentFilter.atLeft (p : ParentFilter S) : Option (FilterExpr S) :=
  if p.leftAnswer then (j.gatherFiltersForPushdown left right p.filter).1 else none

/-- What the right child applies. -/
def ParentFilter.atRight (p : ParentFilter S) : Option (FilterExpr S) :=
  if p.rightAnswer then (j.gatherFiltersForPushdown left right p.filter).2 else none

/-- `HashJoinExec::handle_child_pushdown_result` through `FilterPushdownPropagation::if_any`: a
filter is reported as pushed if any child applies it. -/
def ParentFilter.ifAny (p : ParentFilter S) : Bool :=
  (p.atLeft j left right).isSome || (p.atRight j left right).isSome

variable (ps : List (ParentFilter S))

/-- The left child's filters. -/
def leftKeeps (l : Row S) : Bool := ps.all fun p => (p.atLeft j left right).all (·.holds l)

/-- The right child's filters. -/
def rightKeeps (r : Row S) : Bool := ps.all fun p => (p.atRight j left right).all (·.holds r)

/-- The filters left above the join. -/
def aboveKeeps (row : Row S) : Bool := ps.all fun p => p.ifAny j left right || p.filter.holds row

end

/-- All parent filters. -/
def allHold (ps : List (ParentFilter S)) (row : Row S) : Bool := ps.all (·.filter.holds row)

/-! ## Answers -/

section
variable (W : World S) (j : HashJoinExec S)

/-- The probe row keeps an anti join from outputting the build row. -/
def HashJoinExec.excludes (l r : Row S) : Bool :=
  j.joins W l r || j.nullAware && ((j.leftKey W l).isNull || (j.rightKey W r).isNull)

/-- What a hash join outputs. The builder accepts null-aware left anti joins only. -/
def HashJoinExec.answer (cis : List ColumnIndex) (L R : Multiset (Row S)) : Multiset (Row S) :=
  match j.joinType with
  | .leftAnti => (anti (j.excludes W) L R).map fun l => joinedRow cis (some l) none false
  | _ => j.join W cis L R

/-- The answer with the filters where the children and the join leave them. -/
def HashJoinExec.pushedAnswer (left right : Schema) (ps : List (ParentFilter S))
    (L R : Multiset (Row S)) : Multiset (Row S) :=
  (j.answer W (j.columnIndices left right) (L.filter (leftKeeps j left right ps ·))
    (R.filter (rightKeeps j left right ps ·))).filter (aboveKeeps j left right ps ·)

/-- The answer with all filters above the join. -/
def HashJoinExec.filteredAnswer (left right : Schema) (ps : List (ParentFilter S))
    (L R : Multiset (Row S)) : Multiset (Row S) :=
  (j.answer W (j.columnIndices left right) L R).filter (allHold ps ·)

end

section
variable {W : World S} {j : HashJoinExec S} {cis : List ColumnIndex}

/-- An ordinary join answers with the relational join. -/
theorem HashJoinExec.answer_eq_join (h : j.nullAware = false) (L R : Multiset (Row S)) :
    j.answer W cis L R = j.join W cis L R := by
  have hexcludes : j.excludes W = j.joins W := by
    funext l r
    simp [excludes, h]
  unfold answer
  split
  · rename_i htype
    rw [hexcludes, join, htype]
  · rfl

/-- A null-aware join answers with the build rows that no probe row and no NULL excludes. -/
theorem HashJoinExec.answer_eq_keptRows (htype : j.joinType = .leftAnti)
    (hnull : j.nullAware = true) (L : Multiset (Row S)) (probe : List (Row S)) :
    j.answer W cis L (probe : Multiset (Row S)) =
      keptRows cis (j.nullAwareKeeps W probe) L := by
  rw [answer, htype, keptRows, anti]
  refine congrArg _ (Multiset.filter_congr fun l _ => ?_)
  rw [hasPartner_eq_false_iff, nullAwareKeeps_iff_forall]
  refine forall₂_congr fun r _ => ?_
  simp only [excludes, hnull, Bool.or_eq_false_iff, Bool.true_and]
  tauto

end

/-! ## When the answer is kept -/

section
variable (W : World S) (j : HashJoinExec S) (left right : Schema) (ps : List (ParentFilter S))
  (D E : Row S → Prop)

/-- Pair by pair and row by row, what is applied below and above comes to the filters themselves.
`D` and `E` are the rows that the children may produce. In an anti join a probe row that excludes
a surviving build row must survive as well. -/
def HashJoinExec.PushdownAgrees : Prop :=
  let out := joinedRow (S := S) (j.columnIndices left right)
  let below l := leftKeeps j left right ps l
  let below' r := rightKeeps j left right ps r
  let above row := aboveKeeps j left right ps row
  let matched := ∀ l r, D l → E r → j.joins W l r = true →
    (below l && below' r && above (out (some l) (some r) true)) =
      allHold ps (out (some l) (some r) true)
  let leftMatched := ∀ l r, D l → E r → j.joins W l r = true →
    (below l && below' r && above (out (some l) none true)) = allHold ps (out (some l) none true)
  let rightMatched := ∀ r l, E r → D l → j.joins W l r = true →
    (below' r && below l && above (out none (some r) true)) = allHold ps (out none (some r) true)
  let leftAlone := ∀ l, D l →
    (below l && above (out (some l) none false)) = allHold ps (out (some l) none false)
  let rightAlone := ∀ r, E r →
    (below' r && above (out none (some r) false)) = allHold ps (out none (some r) false)
  match j.joinType with
  | .inner => matched
  | .left => matched ∧ leftAlone
  | .right => matched ∧ rightAlone
  | .full => True
  | .leftSemi => leftMatched
  | .rightSemi => rightMatched
  | .leftMark => leftAlone ∧ leftMatched
  | .rightMark => rightAlone ∧ rightMatched
  | .leftAnti => leftAlone ∧ ∀ l r, D l → E r → j.excludes W l r = true →
      below l = true → above (out (some l) none false) = true → below' r = true
  | .rightAnti => rightAlone ∧ ∀ r l, E r → D l → j.joins W l r = true →
      below' r = true → above (out none (some r) false) = true → below l = true

end

section
variable {W : World S} {j : HashJoinExec S} {left right : Schema} {ps : List (ParentFilter S)}
  {D E : Row S → Prop}

/-- Nothing is applied on a side that is not preserved. -/
theorem ParentFilter.atLeft_eq_none (h : j.joinType.lrIsPreserved.1 = false) (p : ParentFilter S) :
    p.atLeft j left right = none := by
  simp [atLeft, HashJoinExec.gatherFiltersForPushdown, h]

theorem ParentFilter.atRight_eq_none (h : j.joinType.lrIsPreserved.2 = false)
    (p : ParentFilter S) : p.atRight j left right = none := by
  simp [atRight, HashJoinExec.gatherFiltersForPushdown, h]

/-- A side that takes no part keeps all its rows. -/
theorem leftKeeps_eq_true (h : ∀ p ∈ ps, p.atLeft j left right = none) :
    leftKeeps j left right ps = fun _ => true := by
  funext l
  rw [leftKeeps, List.all_eq_true]
  intro p hp
  rw [h p hp]
  rfl

theorem rightKeeps_eq_true (h : ∀ p ∈ ps, p.atRight j left right = none) :
    rightKeeps j left right ps = fun _ => true := by
  funext r
  rw [rightKeeps, List.all_eq_true]
  intro p hp
  rw [h p hp]
  rfl

/-- **Pushing filters keeps the answer exactly when it does so on every pair and row.** -/
theorem pushdown_agrees_iff :
    (∀ L : Multiset (Row S), (∀ l ∈ L, D l) → ∀ R : Multiset (Row S), (∀ r ∈ R, E r) →
      j.pushedAnswer W left right ps L R = j.filteredAnswer W left right ps L R) ↔
      j.PushdownAgrees W left right ps D E := by
  unfold HashJoinExec.pushedAnswer HashJoinExec.filteredAnswer HashJoinExec.answer
    HashJoinExec.join HashJoinExec.PushdownAgrees
  cases htype : j.joinType with
  | inner => exact filter_pairs_eq_iff
  | left =>
    have hright : rightKeeps j left right ps = fun _ => true :=
      rightKeeps_eq_true fun p _ => p.atRight_eq_none (by rw [htype]; rfl)
    simp only [hright, Multiset.filter_true, Bool.and_true]
    exact filter_leftJoin_eq_iff
  | right =>
    have hleft : leftKeeps j left right ps = fun _ => true :=
      leftKeeps_eq_true fun p _ => p.atLeft_eq_none (by rw [htype]; rfl)
    -- the pairs are those of the left join seen from the other side
    have hpairs : ∀ L R : Multiset (Row S), (pairs (j.joins W) L R).map
        (fun x => joinedRow (j.columnIndices left right) (some x.1) (some x.2) true) =
        (pairs (flip (j.joins W)) R L).map
          fun x => joinedRow (j.columnIndices left right) (some x.2) (some x.1) true := by
      intro L R
      rw [pairs_flip, Multiset.map_map]
      rfl
    simp only [hleft, hpairs, Multiset.filter_true, Bool.true_and]
    refine (forall_inputs_comm.trans filter_leftJoin_eq_iff).trans (and_congr_left fun _ => ?_)
    exact ⟨fun h l r hl hr => h r l hr hl, fun h r l hr hl => h l r hl hr⟩
  | full =>
    have hleft : leftKeeps j left right ps = fun _ => true :=
      leftKeeps_eq_true fun p _ => p.atLeft_eq_none (by rw [htype]; rfl)
    have hright : rightKeeps j left right ps = fun _ => true :=
      rightKeeps_eq_true fun p _ => p.atRight_eq_none (by rw [htype]; rfl)
    have habove : aboveKeeps j left right ps = allHold ps := by
      funext row
      simp [aboveKeeps, allHold, ParentFilter.ifAny, ParentFilter.atLeft_eq_none,
        ParentFilter.atRight_eq_none, htype, JoinType.lrIsPreserved]
    simp only [hleft, hright, habove, Multiset.filter_true, implies_true]
  | leftSemi => exact filter_semi_eq_iff
  | rightSemi => exact forall_inputs_comm.trans filter_semi_eq_iff
  | leftMark =>
    have hright : rightKeeps j left right ps = fun _ => true :=
      rightKeeps_eq_true fun p _ => p.atRight_eq_none (by rw [htype]; rfl)
    simp only [hright, Multiset.filter_true, Bool.and_true]
    exact filter_mark_eq_iff
  | rightMark =>
    have hleft : leftKeeps j left right ps = fun _ => true :=
      leftKeeps_eq_true fun p _ => p.atLeft_eq_none (by rw [htype]; rfl)
    simp only [hleft, Multiset.filter_true, Bool.and_true]
    exact forall_inputs_comm.trans filter_mark_eq_iff
  | leftAnti => exact filter_anti_eq_iff
  | rightAnti => exact forall_inputs_comm.trans filter_anti_eq_iff

end

/-- `name = 7`. -/
def isSeven (name : String) (index : Nat) : FilterExpr rowSig where
  columns := [⟨name, index⟩]
  eval
    | [.int64 n] => some (n == 7)
    | _ => none

/-- A join on a key that has the same name on both sides. -/
def onSameKey (joinType : JoinType) (nullAware : Bool) : HashJoinExec rowSig :=
  { onCustomer joinType none nullAware with
    on := [(.column "customer_id" 0, .column "customer_id" 0)] }

/-- The filter reads the first of two columns of its name; it reads an unrelated column of the side
that is not in the output; it is taken as done although only the probe side of an anti join has
applied it; and it removes the NULL on the probe side that a null-aware join must see. -/
theorem pushdown_changes_answers :
    let int64 (name : String) : Field := ⟨name, .int64, true⟩
    let orders := [int64 "customer_id", int64 "id", int64 "id"]
    let keys := [int64 "customer_id"]
    let inner := onCustomer .inner none false
    let semi := onCustomer .leftSemi none false
    let anti := onSameKey .leftAnti false
    let notIn := onSameKey .leftAnti true
    (inner.pushedAnswer rowWorld orders [int64 "customer"] [⟨isSeven "id" 2, true, false⟩]
        {[.int64 1, .int64 5, .int64 7]} {[.int64 1]} = 0 ∧
      inner.filteredAnswer rowWorld orders [int64 "customer"] [⟨isSeven "id" 2, true, false⟩]
        {[.int64 1, .int64 5, .int64 7]} {[.int64 1]} =
          {[.int64 1, .int64 5, .int64 7, .int64 1]}) ∧
    (semi.pushedAnswer rowWorld keys [int64 "customer", int64 "customer_id"]
        [⟨isSeven "customer_id" 0, false, true⟩] {[.int64 7]} {[.int64 7, .int64 1]} = 0 ∧
      semi.filteredAnswer rowWorld keys [int64 "customer", int64 "customer_id"]
        [⟨isSeven "customer_id" 0, false, true⟩] {[.int64 7]} {[.int64 7, .int64 1]} =
          {[.int64 7]}) ∧
    (anti.pushedAnswer rowWorld keys keys [⟨isSeven "customer_id" 0, false, true⟩]
        {[.int64 1]} 0 = {[.int64 1]} ∧
      anti.filteredAnswer rowWorld keys keys [⟨isSeven "customer_id" 0, false, true⟩]
        {[.int64 1]} 0 = 0) ∧
    (notIn.pushedAnswer rowWorld keys keys [⟨isSeven "customer_id" 0, true, true⟩]
        {[.int64 7]} {[.null]} = {[.int64 7]} ∧
      notIn.filteredAnswer rowWorld keys keys [⟨isSeven "customer_id" 0, true, true⟩]
        {[.int64 7]} {[.null]} = 0) :=
  ⟨⟨rfl, rfl⟩, ⟨rfl, rfl⟩, ⟨rfl, rfl⟩, ⟨rfl, rfl⟩⟩

end PredicateTransfer
