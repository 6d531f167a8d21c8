import PredicateTransfer.FilterPushdown

/-!
# Filters that a join's children may apply

**Theorem (`pushdown_keeps_answer`).** The answer is kept if every filter is applied only by the
child that its columns come from, where its names find those very columns (`OwnColumns`), or in a
semi or anti join over key columns by the other child, if the names find the partner keys there
(`KeyColumns`). In an anti join the own child must apply such a filter as well, and the join must
not be null-aware.
-/

namespace PredicateTransfer

open SemiJoin

variable {S : Sig}

/-! ## Filters that a child may apply -/

/-- Every column of the filter comes from the side, and its name finds that very column there. -/
def FilterExpr.OwnColumns (f : FilterExpr S) (cis : List ColumnIndex) (schema : Schema)
    (side : JoinSide) : Prop :=
  ∀ c ∈ f.columns, ∃ k, cis[c.index]? = some ⟨k, side⟩ ∧ Schema.indexOf schema c.name = some k

/-- Every column of the filter is a key of the side, and its name finds the partner key on the
other. `keys` has the keys of the side first. -/
def FilterExpr.KeyColumns (f : FilterExpr S) (keys : List (PhysicalExpr S × PhysicalExpr S))
    (cis : List ColumnIndex) (side : JoinSide) (other : Schema) : Prop :=
  ∀ c ∈ f.columns, ∃ k k' name name', cis[c.index]? = some ⟨k, side⟩ ∧
    (.column name k, .column name' k') ∈ keys ∧ Schema.indexOf other c.name = some k'

/-- The filter does not tell apart what the join takes for equal. -/
def FilterExpr.RespectsKeys (W : World S) (nullEquality : NullEquality) (f : FilterExpr S) : Prop :=
  ∀ vs ws, List.Forall₂ (fun v w => W.keyEq nullEquality v w = true) vs ws →
    (f.eval vs == some true) = (f.eval ws == some true)

section
variable (W : World S) (j : HashJoinExec S) (left right : Schema) (p : ParentFilter S)

/-- By the positions and names of its columns, the filter can be sent to the left child. -/
structure ParentFilter.SentLeft : Prop where
  preserved : j.joinType.lrIsPreserved.1 = true
  columns : ∀ c ∈ p.filter.columns,
    c.index ∈ j.leftAllowed left right ∧ (Schema.indexOf left c.name).isSome = true

/-- The same for the right child. -/
structure ParentFilter.SentRight : Prop where
  preserved : j.joinType.lrIsPreserved.2 = true
  columns : ∀ c ∈ p.filter.columns,
    c.index ∈ j.rightAllowed left right ∧ (Schema.indexOf right c.name).isSome = true

/-- The left child applies the filter only if its columns are its own, or in a right semi join if
they are keys; in a right anti join the right child has to apply it too. -/
def ParentFilter.SafeLeft : Prop :=
  p.leftAnswer = true → p.SentLeft j left right →
    (j.joinType.outputSide .left = true ∧
      p.filter.OwnColumns (j.columnIndices left right) left .left) ∨
    ((j.joinType = .rightSemi ∨ j.joinType = .rightAnti ∧ p.rightAnswer = true ∧
        p.filter.OwnColumns (j.columnIndices left right) right .right) ∧
      p.filter.KeyColumns (j.on.map Prod.swap) (j.columnIndices left right) .right left ∧
      p.filter.RespectsKeys W j.nullEquality)

/-- The right child applies the filter only if its columns are its own, or in a left semi join if
they are keys; in a left anti join the left child has to apply it too, and the join must not be
null-aware. -/
def ParentFilter.SafeRight : Prop :=
  p.rightAnswer = true → p.SentRight j left right →
    (j.joinType.outputSide .right = true ∧
      p.filter.OwnColumns (j.columnIndices left right) right .right) ∨
    ((j.joinType = .leftSemi ∨ j.joinType = .leftAnti ∧ j.nullAware = false ∧
        p.leftAnswer = true ∧ p.filter.OwnColumns (j.columnIndices left right) left .left) ∧
      p.filter.KeyColumns j.on (j.columnIndices left right) .left right ∧
      p.filter.RespectsKeys W j.nullEquality)

end

section
variable {cis : List ColumnIndex} {schema : Schema} {allowed : List Nat} {f g : FilterExpr S}

theorem value_joinedRow_left {i k : Nat} (h : cis[i]? = some ⟨k, .left⟩) (l : Row S)
    (r : Option (Row S)) (mark : Bool) :
    Row.value (joinedRow cis (some l) r mark) i = Row.value l k := by
  simp [Row.value, joinedRow, List.getD_eq_getElem?_getD, h]

theorem value_joinedRow_right {i k : Nat} (h : cis[i]? = some ⟨k, .right⟩) (l : Option (Row S))
    (r : Row S) (mark : Bool) : Row.value (joinedRow cis l (some r) mark) i = Row.value r k := by
  simp [Row.value, joinedRow, List.getD_eq_getElem?_getD, h]

/-- Where the names find the own columns, the child's row is read as the output row is. -/
theorem holds_of_ownColumns {side : JoinSide} {row row' : Row S}
    (hown : f.OwnColumns cis schema side) (hg : tryRemap schema allowed f = some g)
    (hvalue : ∀ {i k : Nat}, cis[i]? = some ⟨k, side⟩ → Row.value row' i = Row.value row k) :
    g.holds row = f.holds row' := by
  refine holds_of_tryRemap (R := Eq) hg (fun vs ws h => ?_) ?_
  · rw [List.forall₂_eq_eq_eq] at h
    rw [h]
  · intro c hc k hk
    obtain ⟨k', hci, hk'⟩ := hown c hc
    obtain rfl : k' = k := Option.some.inj (hk'.symm.trans hk)
    exact (hvalue hci).symm

theorem mem_outputIndices {q : ColumnIndex → Bool} {i : Nat} {ci : ColumnIndex}
    (h : cis[i]? = some ci) (hq : q ci = true) : i ∈ outputIndices cis q :=
  List.mem_map.2 ⟨(ci, i), List.mem_filter.2 ⟨List.mem_zipIdx_iff_getElem?.2 h, hq⟩, rfl⟩

/-- A filter over own columns can be remapped. -/
theorem tryRemap_isSome_of_ownColumns {side : JoinSide} (hown : f.OwnColumns cis schema side)
    (hallowed : ∀ i k, cis[i]? = some ⟨k, side⟩ → i ∈ allowed) :
    (tryRemap schema allowed f).isSome = true := by
  refine tryRemap_isSome_iff.2 fun c hc => ?_
  obtain ⟨k, hci, hk⟩ := hown c hc
  exact ⟨hallowed _ _ hci, Option.isSome_of_eq_some hk⟩

end

section
variable {W : World S} {j : HashJoinExec S} {left right : Schema} {p : ParentFilter S}
variable {g : FilterExpr S} {l r : Row S}

/-- What a child applies was sent to it. -/
theorem ParentFilter.atLeft_eq_some (h : p.atLeft j left right = some g) :
    p.leftAnswer = true ∧ j.joinType.lrIsPreserved.1 = true ∧
      tryRemap left (j.leftAllowed left right) p.filter = some g := by
  simp only [atLeft, HashJoinExec.gatherFiltersForPushdown] at h
  split_ifs at h with hanswer hpreserved
  exact ⟨hanswer, hpreserved, h⟩

theorem ParentFilter.atRight_eq_some (h : p.atRight j left right = some g) :
    p.rightAnswer = true ∧ j.joinType.lrIsPreserved.2 = true ∧
      tryRemap right (j.rightAllowed left right) p.filter = some g := by
  simp only [atRight, HashJoinExec.gatherFiltersForPushdown] at h
  split_ifs at h with hanswer hpreserved
  exact ⟨hanswer, hpreserved, h⟩

/-- A filter over own columns is sent to its side, and so it is applied there if the child says
so. -/
theorem ParentFilter.atLeft_isSome (hpreserved : j.joinType.lrIsPreserved.1 = true)
    (hanswer : p.leftAnswer = true)
    (hown : p.filter.OwnColumns (j.columnIndices left right) left .left) :
    (p.atLeft j left right).isSome = true := by
  simp only [atLeft, HashJoinExec.gatherFiltersForPushdown, hanswer, hpreserved, if_true]
  exact tryRemap_isSome_of_ownColumns hown fun i k hci =>
    List.mem_append_left _ (mem_outputIndices hci rfl)

theorem ParentFilter.atRight_isSome (hpreserved : j.joinType.lrIsPreserved.2 = true)
    (hanswer : p.rightAnswer = true)
    (hown : p.filter.OwnColumns (j.columnIndices left right) right .right) :
    (p.atRight j left right).isSome = true := by
  simp only [atRight, HashJoinExec.gatherFiltersForPushdown, hanswer, hpreserved, if_true]
  exact tryRemap_isSome_of_ownColumns hown fun i k hci =>
    List.mem_append_left _ (mem_outputIndices hci rfl)

/-- What the left child applies of its own columns says what the filter says. -/
theorem ParentFilter.SafeLeft.holds_own (h : p.SafeLeft W j left right)
    (hside : j.joinType.outputSide .left = true) (hg : p.atLeft j left right = some g) (l : Row S)
    (r : Option (Row S)) (mark : Bool) :
    g.holds l = p.filter.holds (joinedRow (j.columnIndices left right) (some l) r mark) := by
  obtain ⟨hanswer, hpreserved, hremap⟩ := ParentFilter.atLeft_eq_some hg
  have hsent := tryRemap_isSome_iff.1 (Option.isSome_of_eq_some hremap)
  rcases h hanswer ⟨hpreserved, hsent⟩ with ⟨-, hown⟩ | ⟨htype, -⟩
  · exact holds_of_ownColumns hown hremap fun hci => value_joinedRow_left hci l r mark
  · rcases htype with htype | ⟨htype, -⟩
    · rw [htype] at hside
      cases hside
    · rw [htype] at hside
      cases hside

theorem ParentFilter.SafeRight.holds_own (h : p.SafeRight W j left right)
    (hside : j.joinType.outputSide .right = true) (hg : p.atRight j left right = some g)
    (l : Option (Row S)) (r : Row S) (mark : Bool) :
    g.holds r = p.filter.holds (joinedRow (j.columnIndices left right) l (some r) mark) := by
  obtain ⟨hanswer, hpreserved, hremap⟩ := ParentFilter.atRight_eq_some hg
  have hsent := tryRemap_isSome_iff.1 (Option.isSome_of_eq_some hremap)
  rcases h hanswer ⟨hpreserved, hsent⟩ with ⟨-, hown⟩ | ⟨htype, -⟩
  · exact holds_of_ownColumns hown hremap fun hci => value_joinedRow_right hci l r mark
  · rcases htype with htype | ⟨htype, -⟩
    · rw [htype] at hside
      cases hside
    · rw [htype] at hside
      cases hside

/-- What the right child applies of key columns says of a partner what the filter says of the left
row. -/
theorem ParentFilter.SafeRight.holds_keys (h : p.SafeRight W j left right)
    (hside : j.joinType.outputSide .right = false) (hg : p.atRight j left right = some g)
    (hjoins : j.joins W l r = true) (mark : Bool) :
    g.holds r = p.filter.holds (joinedRow (j.columnIndices left right) (some l) none mark) := by
  obtain ⟨hanswer, hpreserved, hremap⟩ := ParentFilter.atRight_eq_some hg
  have hsent := tryRemap_isSome_iff.1 (Option.isSome_of_eq_some hremap)
  rcases h hanswer ⟨hpreserved, hsent⟩ with ⟨hright, -⟩ | ⟨-, hkeys, hrespects⟩
  · rw [hside] at hright
    cases hright
  · refine holds_of_tryRemap (R := fun v w => W.keyEq j.nullEquality w v = true) hremap
      (fun vs ws hvs => (hrespects ws vs hvs.flip).symm) ?_
    intro c hc k hk
    obtain ⟨m, m', name, name', hci, hmem, hk'⟩ := hkeys c hc
    obtain rfl : m' = k := Option.some.inj (hk'.symm.trans hk)
    rw [value_joinedRow_left hci]
    exact keyEq_of_joins hjoins hmem

theorem ParentFilter.SafeLeft.holds_keys (h : p.SafeLeft W j left right)
    (hside : j.joinType.outputSide .left = false) (hg : p.atLeft j left right = some g)
    (hjoins : j.joins W l r = true) (mark : Bool) :
    g.holds l = p.filter.holds (joinedRow (j.columnIndices left right) none (some r) mark) := by
  obtain ⟨hanswer, hpreserved, hremap⟩ := ParentFilter.atLeft_eq_some hg
  have hsent := tryRemap_isSome_iff.1 (Option.isSome_of_eq_some hremap)
  rcases h hanswer ⟨hpreserved, hsent⟩ with ⟨hleft, -⟩ | ⟨-, hkeys, hrespects⟩
  · rw [hside] at hleft
    cases hleft
  · refine holds_of_tryRemap hremap hrespects ?_
    intro c hc k hk
    obtain ⟨m, m', name, name', hci, hmem, hk'⟩ := hkeys c hc
    obtain rfl : m' = k := Option.some.inj (hk'.symm.trans hk)
    obtain ⟨⟨a, b⟩, hmem, heq⟩ := List.mem_map.1 hmem
    cases heq
    rw [value_joinedRow_right hci]
    exact keyEq_of_joins hjoins hmem

/-- In an anti join the own child applies what the other one does. -/
theorem ParentFilter.SafeRight.atLeft_isSome (h : p.SafeRight W j left right)
    (htype : j.joinType = .leftAnti) (hg : (p.atRight j left right).isSome = true) :
    j.nullAware = false ∧ (p.atLeft j left right).isSome = true := by
  obtain ⟨g, hg⟩ := Option.isSome_iff_exists.1 hg
  obtain ⟨hanswer, hpreserved, hremap⟩ := ParentFilter.atRight_eq_some hg
  have hsent := tryRemap_isSome_iff.1 (Option.isSome_of_eq_some hremap)
  rcases h hanswer ⟨hpreserved, hsent⟩ with ⟨hright, -⟩ | ⟨hsemi | ⟨-, hnull, hleft, hown⟩, -⟩
  · rw [htype] at hright
    cases hright
  · rw [htype] at hsemi
    cases hsemi
  · exact ⟨hnull, ParentFilter.atLeft_isSome (by rw [htype]; rfl) hleft hown⟩

theorem ParentFilter.SafeLeft.atRight_isSome (h : p.SafeLeft W j left right)
    (htype : j.joinType = .rightAnti) (hg : (p.atLeft j left right).isSome = true) :
    (p.atRight j left right).isSome = true := by
  obtain ⟨g, hg⟩ := Option.isSome_iff_exists.1 hg
  obtain ⟨hanswer, hpreserved, hremap⟩ := ParentFilter.atLeft_eq_some hg
  have hsent := tryRemap_isSome_iff.1 (Option.isSome_of_eq_some hremap)
  rcases h hanswer ⟨hpreserved, hsent⟩ with ⟨hleft, -⟩ | ⟨hsemi | ⟨-, hright, hown⟩, -⟩
  · rw [htype] at hleft
    cases hleft
  · rw [htype] at hsemi
    cases hsemi
  · exact ParentFilter.atRight_isSome (by rw [htype]; rfl) hright hown

end

/-! ## Putting the filters together -/

section
variable {j : HashJoinExec S} {left right : Schema} {ps : List (ParentFilter S)}

/-- If what is applied below agrees with the filters on an output row, the whole does. -/
theorem keeps_eq_allHold {l r row : Row S}
    (hleft : ∀ p ∈ ps, ∀ g, p.atLeft j left right = some g → g.holds l = p.filter.holds row)
    (hright : ∀ p ∈ ps, ∀ g, p.atRight j left right = some g → g.holds r = p.filter.holds row) :
    (leftKeeps j left right ps l && rightKeeps j left right ps r &&
      aboveKeeps j left right ps row) = allHold ps row := by
  rw [Bool.eq_iff_iff, leftKeeps, rightKeeps, aboveKeeps, allHold]
  simp only [Bool.and_eq_true, List.all_eq_true, ← forall₂_and]
  refine forall₂_congr fun p hp => ?_
  unfold ParentFilter.ifAny
  cases hl : p.atLeft j left right with
  | none =>
    cases hr : p.atRight j left right with
    | none => simp
    | some g => simp [hright p hp g hr]
  | some g =>
    have hgl := hleft p hp g hl
    cases hr : p.atRight j left right with
    | none => simp [hgl]
    | some g' => simp [hgl, hright p hp g' hr]

/-- The filters of one child are enough where it applies whatever the other one does. -/
theorem applied_eq_allHold {mine other : ParentFilter S → Option (FilterExpr S)} {child row : Row S}
    (hmine : ∀ p ∈ ps, ∀ g, mine p = some g → g.holds child = p.filter.holds row)
    (hboth : ∀ p ∈ ps, (other p).isSome = true → (mine p).isSome = true) :
    ((ps.all fun p => (mine p).all (·.holds child)) &&
      ps.all fun p => ((mine p).isSome || (other p).isSome) || p.filter.holds row) =
      allHold ps row := by
  rw [Bool.eq_iff_iff, allHold]
  simp only [Bool.and_eq_true, List.all_eq_true, ← forall₂_and]
  refine forall₂_congr fun p hp => ?_
  cases hm : mine p with
  | none =>
    have hother : (other p).isSome = false := by
      rw [← Bool.not_eq_true]
      intro hsome
      have hsome' := hboth p hp hsome
      rw [hm] at hsome'
      cases hsome'
    simp [hother]
  | some g => simp [hmine p hp g hm]

theorem leftKeeps_eq_allHold {l row : Row S}
    (hleft : ∀ p ∈ ps, ∀ g, p.atLeft j left right = some g → g.holds l = p.filter.holds row)
    (hboth : ∀ p ∈ ps, (p.atRight j left right).isSome = true →
      (p.atLeft j left right).isSome = true) :
    (leftKeeps j left right ps l && aboveKeeps j left right ps row) = allHold ps row :=
  applied_eq_allHold hleft hboth

theorem rightKeeps_eq_allHold {r row : Row S}
    (hright : ∀ p ∈ ps, ∀ g, p.atRight j left right = some g → g.holds r = p.filter.holds row)
    (hboth : ∀ p ∈ ps, (p.atLeft j left right).isSome = true →
      (p.atRight j left right).isSome = true) :
    (rightKeeps j left right ps r && aboveKeeps j left right ps row) = allHold ps row := by
  rw [← applied_eq_allHold hright hboth, rightKeeps, aboveKeeps]
  simp only [ParentFilter.ifAny, Bool.or_comm (Option.isSome (ParentFilter.atRight _ _ _ _))]

variable {W : World S} {D E : Row S → Prop}

section
variable (hleft : ∀ p ∈ ps, p.SafeLeft W j left right)
variable (hright : ∀ p ∈ ps, p.SafeRight W j left right)
include hleft hright

/-- Both sides are in the output. -/
theorem matched_of_safe (hl : j.joinType.outputSide .left = true)
    (hr : j.joinType.outputSide .right = true) (l r : Row S) (mark : Bool) :
    let row := joinedRow (j.columnIndices left right) (some l) (some r) mark
    (leftKeeps j left right ps l && rightKeeps j left right ps r &&
      aboveKeeps j left right ps row) = allHold ps row :=
  keeps_eq_allHold (fun p hp _ hg => (hleft p hp).holds_own hl hg l (some r) mark)
    fun p hp _ hg => (hright p hp).holds_own hr hg (some l) r mark

/-- Only the left side is in the output. -/
theorem leftMatched_of_safe (hl : j.joinType.outputSide .left = true)
    (hr : j.joinType.outputSide .right = false) {l r : Row S} (hjoins : j.joins W l r = true)
    (mark : Bool) :
    let row := joinedRow (j.columnIndices left right) (some l) none mark
    (leftKeeps j left right ps l && rightKeeps j left right ps r &&
      aboveKeeps j left right ps row) = allHold ps row :=
  keeps_eq_allHold (fun p hp _ hg => (hleft p hp).holds_own hl hg l none mark)
    fun p hp _ hg => (hright p hp).holds_keys hr hg hjoins mark

/-- Only the right side is in the output. -/
theorem rightMatched_of_safe (hl : j.joinType.outputSide .left = false)
    (hr : j.joinType.outputSide .right = true) {l r : Row S} (hjoins : j.joins W l r = true)
    (mark : Bool) :
    let row := joinedRow (j.columnIndices left right) none (some r) mark
    (rightKeeps j left right ps r && leftKeeps j left right ps l &&
      aboveKeeps j left right ps row) = allHold ps row := by
  intro row
  rw [Bool.and_comm (rightKeeps j left right ps r)]
  exact keeps_eq_allHold (fun p hp _ hg => (hleft p hp).holds_keys hl hg hjoins mark)
    fun p hp _ hg => (hright p hp).holds_own hr hg none r mark

omit hright in
theorem leftAlone_of_safe (hl : j.joinType.outputSide .left = true)
    (hboth : ∀ p ∈ ps, (p.atRight j left right).isSome = true →
      (p.atLeft j left right).isSome = true) (l : Row S) (mark : Bool) :
    let row := joinedRow (j.columnIndices left right) (some l) none mark
    (leftKeeps j left right ps l && aboveKeeps j left right ps row) = allHold ps row :=
  leftKeeps_eq_allHold (fun p hp _ hg => (hleft p hp).holds_own hl hg l none mark) hboth

omit hleft in
theorem rightAlone_of_safe (hr : j.joinType.outputSide .right = true)
    (hboth : ∀ p ∈ ps, (p.atLeft j left right).isSome = true →
      (p.atRight j left right).isSome = true) (r : Row S) (mark : Bool) :
    let row := joinedRow (j.columnIndices left right) none (some r) mark
    (rightKeeps j left right ps r && aboveKeeps j left right ps row) = allHold ps row :=
  rightKeeps_eq_allHold (fun p hp _ hg => (hright p hp).holds_own hr hg none r mark) hboth

/-- A probe row that excludes a build row passes if the build row does. -/
theorem leftAnti_of_safe (htype : j.joinType = .leftAnti) {l r : Row S}
    (hexcludes : j.excludes W l r = true) (hbelow : leftKeeps j left right ps l = true)
    (habove : aboveKeeps j left right ps
      (joinedRow (j.columnIndices left right) (some l) none false) = true) :
    rightKeeps j left right ps r = true := by
  have hall := leftAlone_of_safe hleft (by rw [htype]; rfl)
    (fun p hp hsome => ((hright p hp).atLeft_isSome htype hsome).2) l false
  simp only [hbelow, habove, Bool.and_true] at hall
  rw [rightKeeps, List.all_eq_true]
  intro p hp
  rw [Option.all_eq_true]
  intro g hg
  have hnull := ((hright p hp).atLeft_isSome htype (Option.isSome_of_eq_some hg)).1
  have hjoins : j.joins W l r = true := by
    simpa [HashJoinExec.excludes, hnull] using hexcludes
  rw [(hright p hp).holds_keys (by rw [htype]; rfl) hg hjoins false]
  exact List.all_eq_true.1 hall.symm p hp

theorem rightAnti_of_safe (htype : j.joinType = .rightAnti) {l r : Row S}
    (hjoins : j.joins W l r = true) (hbelow : rightKeeps j left right ps r = true)
    (habove : aboveKeeps j left right ps
      (joinedRow (j.columnIndices left right) none (some r) false) = true) :
    leftKeeps j left right ps l = true := by
  have hall := rightAlone_of_safe hright (by rw [htype]; rfl)
    (fun p hp hsome => (hleft p hp).atRight_isSome htype hsome) r false
  simp only [hbelow, habove, Bool.and_true] at hall
  rw [leftKeeps, List.all_eq_true]
  intro p hp
  rw [Option.all_eq_true]
  intro g hg
  rw [(hleft p hp).holds_keys (by rw [htype]; rfl) hg hjoins false]
  exact List.all_eq_true.1 hall.symm p hp

/-- **Filters that a child may apply keep the answer**, pair by pair and row by row. -/
theorem pushdownAgrees_of_safe : j.PushdownAgrees W left right ps D E := by
  have hnoLeft : j.joinType.lrIsPreserved.1 = false → ∀ p ∈ ps,
      (p.atLeft j left right).isSome = true → (p.atRight j left right).isSome = true := by
    intro hpreserved p _ hsome
    rw [p.atLeft_eq_none hpreserved] at hsome
    cases hsome
  have hnoRight : j.joinType.lrIsPreserved.2 = false → ∀ p ∈ ps,
      (p.atRight j left right).isSome = true → (p.atLeft j left right).isSome = true := by
    intro hpreserved p _ hsome
    rw [p.atRight_eq_none hpreserved] at hsome
    cases hsome
  unfold HashJoinExec.PushdownAgrees
  cases htype : j.joinType with
  | full => trivial
  | inner =>
    exact fun l r _ _ _ =>
      matched_of_safe hleft hright (by rw [htype]; rfl) (by rw [htype]; rfl) l r true
  | left =>
    refine ⟨fun l r _ _ _ => ?_, fun l _ => ?_⟩
    · exact matched_of_safe hleft hright (by rw [htype]; rfl) (by rw [htype]; rfl) l r true
    · exact leftAlone_of_safe hleft (by rw [htype]; rfl) (hnoRight (by rw [htype]; rfl)) l false
  | right =>
    refine ⟨fun l r _ _ _ => ?_, fun r _ => ?_⟩
    · exact matched_of_safe hleft hright (by rw [htype]; rfl) (by rw [htype]; rfl) l r true
    · exact rightAlone_of_safe hright (by rw [htype]; rfl) (hnoLeft (by rw [htype]; rfl)) r false
  | leftSemi =>
    exact fun l r _ _ hjoins =>
      leftMatched_of_safe hleft hright (by rw [htype]; rfl) (by rw [htype]; rfl) hjoins true
  | rightSemi =>
    exact fun r l _ _ hjoins =>
      rightMatched_of_safe hleft hright (by rw [htype]; rfl) (by rw [htype]; rfl) hjoins true
  | leftMark =>
    refine ⟨fun l _ => ?_, fun l r _ _ hjoins => ?_⟩
    · exact leftAlone_of_safe hleft (by rw [htype]; rfl) (hnoRight (by rw [htype]; rfl)) l false
    · exact leftMatched_of_safe hleft hright (by rw [htype]; rfl) (by rw [htype]; rfl) hjoins true
  | rightMark =>
    refine ⟨fun r _ => ?_, fun r l _ _ hjoins => ?_⟩
    · exact rightAlone_of_safe hright (by rw [htype]; rfl) (hnoLeft (by rw [htype]; rfl)) r false
    · exact rightMatched_of_safe hleft hright (by rw [htype]; rfl) (by rw [htype]; rfl) hjoins true
  | leftAnti =>
    refine ⟨fun l _ => ?_, fun l r _ _ hexcludes hbelow habove => ?_⟩
    · exact leftAlone_of_safe hleft (by rw [htype]; rfl)
        (fun p hp hsome => ((hright p hp).atLeft_isSome htype hsome).2) l false
    · exact leftAnti_of_safe hleft hright htype hexcludes hbelow habove
  | rightAnti =>
    refine ⟨fun r _ => ?_, fun r l _ _ hjoins hbelow habove => ?_⟩
    · exact rightAlone_of_safe hright (by rw [htype]; rfl)
        (fun p hp hsome => (hleft p hp).atRight_isSome htype hsome) r false
    · exact rightAnti_of_safe hleft hright htype hjoins hbelow habove

end

/-- **Pushing filters keeps the answer** if every filter is applied only by children that may: by
the child that its columns come from, and over keys in a semi or anti join by the other. -/
theorem pushdown_keeps_answer (hleft : ∀ p ∈ ps, p.SafeLeft W j left right)
    (hright : ∀ p ∈ ps, p.SafeRight W j left right) (L R : Multiset (Row S)) :
    j.pushedAnswer W left right ps L R = j.filteredAnswer W left right ps L R :=
  pushdown_agrees_iff.2 (pushdownAgrees_of_safe (D := fun _ => True) (E := fun _ => True) hleft
    hright) L (fun _ _ => trivial) R fun _ _ => trivial

end

/-- Equal numbers are 7 or not. -/
theorem isSeven_respectsKeys (name : String) (index : Nat) :
    (isSeven name index).RespectsKeys rowWorld .nullEqualsNothing := by
  intro vs ws h
  cases h with
  | nil => rfl
  | @cons v w vs ws hvw h =>
    rw [keyEq_nullEqualsNothing] at hvw
    cases h with
    | nil => cases v <;> cases w <;> simp_all [World.valueEq, isSeven]
    | cons _ _ => cases v <;> cases w <;> rfl

/-- In an anti join both children apply `customer_id = 7`, and the left one a filter on a column of
its own. -/
theorem onSameKey_keeps_answer :
    let int64 (name : String) : Field := ⟨name, .int64, true⟩
    let customers := [int64 "customer_id", int64 "budget"]
    let orders := [int64 "amount", int64 "customer_id"]
    let anti : HashJoinExec rowSig := { onCustomer .leftAnti none false with
      on := [(.column "customer_id" 0, .column "customer_id" 1)] }
    let ps : List (ParentFilter rowSig) :=
      [⟨isSeven "customer_id" 0, true, true⟩, ⟨isSeven "budget" 1, true, true⟩]
    ∀ L R, anti.pushedAnswer rowWorld customers orders ps L R =
      anti.filteredAnswer rowWorld customers orders ps L R := by
  intro int64 customers orders anti ps
  have hown : ∀ p ∈ ps,
      p.filter.OwnColumns (anti.columnIndices customers orders) customers .left := by
    intro p hp c hc
    rcases List.mem_pair.1 hp with rfl | rfl
    · rw [List.mem_singleton.1 hc]
      exact ⟨0, rfl, rfl⟩
    · rw [List.mem_singleton.1 hc]
      exact ⟨1, rfl, rfl⟩
  refine pushdown_keeps_answer (fun p hp _ _ => .inl ⟨rfl, hown p hp⟩) fun p hp _ hsent => ?_
  rcases List.mem_pair.1 hp with rfl | rfl
  · refine .inr ⟨.inr ⟨rfl, rfl, rfl, hown _ hp⟩, fun c hc => ?_, isSeven_respectsKeys _ _⟩
    rw [List.mem_singleton.1 hc]
    exact ⟨0, 1, _, _, rfl, List.mem_singleton.2 rfl, rfl⟩
  · -- The orders have no budget, so this filter is not sent to them.
    cases (hsent.columns _ (List.mem_singleton.2 rfl)).2

end PredicateTransfer
