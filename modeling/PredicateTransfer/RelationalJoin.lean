import PredicateTransfer.Run

/-!
# The relational join

What a hash join is for: the join of two bags of rows under its keys and its residual filter, for
each of the ten join types (`HashJoinExec.join`). A row of the output is assembled from a row of
each side, or none, by the join's table of column indices.

A stream of a hash join works its way through the probe side and looks back at the build side once
at the end, and the join splits accordingly (`join_eq_bind_add`): what each probe row contributes
on its own (`probeRows`), and what is left to say about the build rows (`finalRows`).
-/

namespace PredicateTransfer

open SemiJoin

variable {S : Sig}

/-! ## Output columns -/

/-- The column indices of `build_join_schema`: the side and the position of each field. -/
def joinColumnIndices (left right : Schema) (joinType : JoinType) : List ColumnIndex :=
  let leftFields := (List.range left.length).map fun i => (⟨i, .left⟩ : ColumnIndex)
  let rightFields := (List.range right.length).map fun i => (⟨i, .right⟩ : ColumnIndex)
  match joinType with
  | .inner | .left | .full | .right => leftFields ++ rightFields
  | .leftSemi | .leftAnti => leftFields
  | .leftMark => leftFields ++ [⟨0, .none⟩]
  | .rightSemi | .rightAnti => rightFields
  | .rightMark => rightFields ++ [⟨0, .none⟩]

/-- The column indices after the embedded projection. -/
def HashJoinExec.columnIndices (j : HashJoinExec S) (left right : Schema) : List ColumnIndex :=
  let columnIndices := joinColumnIndices left right j.joinType
  match j.projection with
  | none => columnIndices
  | some indices => indices.filterMap (columnIndices[·]?)

/-- The sides that the output columns of a join come from. -/
def JoinType.outputSide : JoinType → JoinSide → Bool
  | .inner, side | .left, side | .right, side | .full, side => side != .none
  | .leftSemi, side | .leftAnti, side => side == .left
  | .leftMark, side => side != .right
  | .rightSemi, side | .rightAnti, side => side == .right
  | .rightMark, side => side != .left

theorem outputSide_of_mem_joinColumnIndices {left right : Schema} {joinType : JoinType}
    {ci : ColumnIndex} (h : ci ∈ joinColumnIndices left right joinType) :
    joinType.outputSide ci.side = true := by
  cases joinType with
  | inner | left | right | full =>
    rcases List.mem_append.1 h with h | h
    · obtain ⟨i, -, rfl⟩ := List.mem_map.1 h
      rfl
    · obtain ⟨i, -, rfl⟩ := List.mem_map.1 h
      rfl
  | leftSemi | leftAnti | rightSemi | rightAnti =>
    obtain ⟨i, -, rfl⟩ := List.mem_map.1 h
    rfl
  | leftMark | rightMark =>
    rcases List.mem_append.1 h with h | h
    · obtain ⟨i, -, rfl⟩ := List.mem_map.1 h
      rfl
    · rw [List.mem_singleton.1 h]
      rfl

theorem HashJoinExec.outputSide_of_mem {j : HashJoinExec S} {left right : Schema}
    {ci : ColumnIndex} (h : ci ∈ j.columnIndices left right) :
    j.joinType.outputSide ci.side = true := by
  apply outputSide_of_mem_joinColumnIndices
  unfold columnIndices at h
  cases hproj : j.projection with
  | none => simpa only [hproj] using h
  | some indices =>
    simp only [hproj, List.mem_filterMap] at h
    obtain ⟨i, -, hi⟩ := h
    exact List.mem_of_getElem? hi

/-- An output row, from a row or none of each side and the mark. -/
def joinedRow (columnIndices : List ColumnIndex) (l r : Option (Row S)) (mark : Bool) : Row S :=
  columnIndices.map fun ci => match ci.side with
    | .left => (l.map (Row.value · ci.index)).getD .null
    | .right => (r.map (Row.value · ci.index)).getD .null
    | .none => .boolean mark

/-- Only the sides in the output matter. -/
theorem joinedRow_congr {cis : List ColumnIndex} {l l' r r' : Option (Row S)} {mark mark' : Bool}
    (hl : ∀ ci ∈ cis, ci.side = .left → l = l') (hr : ∀ ci ∈ cis, ci.side = .right → r = r')
    (hmark : ∀ ci ∈ cis, ci.side = .none → mark = mark') :
    joinedRow cis l r mark = joinedRow cis l' r' mark' := by
  refine List.map_congr_left fun ci hci => ?_
  cases hside : ci.side with
  | left => rw [hl ci hci hside]
  | right => rw [hr ci hci hside]
  | none => rw [hmark ci hci hside]

/-! ## The ten joins -/

section
variable (W : World S) (j : HashJoinExec S) (cis : List ColumnIndex)

/-- **The join of two bags.** -/
def HashJoinExec.join (L R : Multiset (Row S)) : Multiset (Row S) :=
  let matched := (pairs (j.joins W) L R).map fun x => joinedRow cis (some x.1) (some x.2) true
  let leftOnly := (anti (j.joins W) L R).map fun l => joinedRow cis (some l) none false
  let rightOnly := (anti (flip (j.joins W)) R L).map fun r => joinedRow cis none (some r) false
  match j.joinType with
  | .inner => matched
  | .left => matched + leftOnly
  | .right => matched + rightOnly
  | .full => matched + rightOnly + leftOnly
  | .leftSemi => (semi (j.joins W) L R).map fun l => joinedRow cis (some l) none true
  | .leftAnti => leftOnly
  | .leftMark => L.map fun l => joinedRow cis (some l) none (hasPartner (j.joins W) R l)
  | .rightSemi => (semi (flip (j.joins W)) R L).map fun r => joinedRow cis none (some r) true
  | .rightAnti => rightOnly
  | .rightMark =>
    R.map fun r => joinedRow cis none (some r) (hasPartner (flip (j.joins W)) L r)

/-- What one probe row contributes while the probe side is read. -/
def HashJoinExec.probeRows (L : Multiset (Row S)) (r : Row S) : Multiset (Row S) :=
  let matched := (L.filter (j.joins W · r)).map fun l => joinedRow cis (some l) (some r) true
  let paired := hasPartner (flip (j.joins W)) L r
  match j.joinType with
  | .inner | .left => matched
  | .right | .full => matched + if paired then 0 else {joinedRow cis none (some r) false}
  | .rightSemi => if paired then {joinedRow cis none (some r) true} else 0
  | .rightAnti => if paired then 0 else {joinedRow cis none (some r) false}
  | .rightMark => {joinedRow cis none (some r) paired}
  | .leftSemi | .leftAnti | .leftMark => 0

/-- What the build rows contribute at the end. -/
def HashJoinExec.finalRows (L R : Multiset (Row S)) : Multiset (Row S) :=
  match j.joinType with
  | .left | .full | .leftAnti =>
    (anti (j.joins W) L R).map fun l => joinedRow cis (some l) none false
  | .leftSemi => (semi (j.joins W) L R).map fun l => joinedRow cis (some l) none true
  | .leftMark => L.map fun l => joinedRow cis (some l) none (hasPartner (j.joins W) R l)
  | .inner | .right | .rightSemi | .rightAnti | .rightMark => 0

theorem filter_eq_bind {α : Type} (p : α → Bool) (s : Multiset α) :
    s.filter (p ·) = s.bind fun a => if p a then {a} else 0 := by
  induction s using Multiset.induction with
  | empty => rfl
  | cons a s ih =>
    rw [Multiset.cons_bind, ← ih]
    cases hp : p a with
    | true => simp [hp]
    | false => simp [hp]

/-- **A join is what its probe rows contribute one by one, and the final look at the build
rows.** -/
theorem HashJoinExec.join_eq_bind_add (L R : Multiset (Row S)) :
    j.join W cis L R = R.bind (j.probeRows W cis L) + j.finalRows W cis L R := by
  have hmatched : (pairs (j.joins W) L R).map
      (fun x => joinedRow cis (some x.1) (some x.2) true) =
      R.bind fun r =>
        (L.filter (j.joins W · r)).map fun l => joinedRow cis (some l) (some r) true := by
    rw [pairs_eq_bind, Multiset.map_bind]
    simp only [Multiset.map_map, Function.comp_def]
  have hanti : (anti (flip (j.joins W)) R L).map (fun r => joinedRow cis none (some r) false) =
      R.bind fun r => if hasPartner (flip (j.joins W)) L r then 0
        else {joinedRow cis none (some r) false} := by
    have hfilter : anti (flip (j.joins W)) R L =
        R.filter fun r => (!hasPartner (flip (j.joins W)) L r) = true := by
      simp [anti]
    rw [hfilter, filter_eq_bind, Multiset.map_bind]
    congr 1
    funext r
    cases hasPartner (flip (j.joins W)) L r <;> simp
  have hsemi : (semi (flip (j.joins W)) R L).map (fun r => joinedRow cis none (some r) true) =
      R.bind fun r => if hasPartner (flip (j.joins W)) L r then
        {joinedRow cis none (some r) true} else 0 := by
    rw [semi, filter_eq_bind, Multiset.map_bind]
    congr 1
    funext r
    cases hasPartner (flip (j.joins W)) L r <;> simp
  unfold HashJoinExec.join HashJoinExec.probeRows HashJoinExec.finalRows
  cases j.joinType with
  | inner => simp only [hmatched, add_zero]
  | left => simp only [hmatched]
  | right => simp only [hmatched, hanti, Multiset.bind_add, add_zero]
  | full => simp only [hmatched, hanti, Multiset.bind_add]
  | rightSemi => simp only [hsemi, add_zero]
  | rightAnti => simp only [hanti, add_zero]
  | rightMark => simp only [Multiset.bind_singleton, add_zero]
  | leftSemi => simp only [Multiset.bind_zero, zero_add]
  | leftAnti => simp only [Multiset.bind_zero, zero_add]
  | leftMark => simp only [Multiset.bind_zero, zero_add]

end

end PredicateTransfer
