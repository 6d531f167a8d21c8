import PredicateTransfer.InsertProof

/-!
# Matched pairs

What a rewritten plan looks like, read off the plan itself:

* `erase` drops the Bloom filter operators, and undoes any rewrite of a plan without them
  (`Inserted.erase_eq`);
* `WellPaired` says that every Bloom filter operator stands in one of two matched stacks, build
  operators on the left child and probe operators on the right child of an inner join, equal
  heights holding equal channels and built for the same `on` entry;
* `insertWith_senders` counts the operators holding a channel: one build and one probe operator
  for each channel allocated on the way, none for any other.
-/

namespace PredicateTransfer

variable {S : Sig}

/-! ## Channels -/

/-- The two kinds of Bloom filter operators. -/
inductive Side where
  | build
  | probe
  deriving DecidableEq, Repr

namespace ExecutionPlan

mutual

/-- The channels held by the operators of one kind, one entry for each operator. -/
def senders (side : Side) : ExecutionPlan S → List Nat
  | .hashJoin _ l r => senders side l ++ senders side r
  | .bloomBuild _ c i => senders side i ++ if side = .build then [c] else []
  | .bloomProbe _ c i => senders side i ++ if side = .probe then [c] else []
  | .other _ cs => sendersAll side cs

def sendersAll (side : Side) : List (ExecutionPlan S) → List Nat
  | [] => []
  | c :: cs => senders side c ++ sendersAll side cs

end

theorem mem_sendersAll {side : Side} {cs : List (ExecutionPlan S)} {d : ExecutionPlan S}
    (hd : d ∈ cs) {c : Nat} (hc : c ∈ d.senders side) : c ∈ sendersAll side cs := by
  induction cs with
  | nil => cases hd
  | cons e cs ih =>
    rw [sendersAll]
    rcases List.mem_cons.1 hd with rfl | hd
    · exact List.mem_append_left _ hc
    · exact List.mem_append_right _ (ih hd)

/-- The plan has no Bloom filter operators. -/
def NoBloom (p : ExecutionPlan S) : Prop := ∀ side, p.senders side = []

mutual

/-- Drop the Bloom filter operators. -/
def erase : ExecutionPlan S → ExecutionPlan S
  | .hashJoin j l r => .hashJoin j (erase l) (erase r)
  | .bloomBuild _ _ i => erase i
  | .bloomProbe _ _ i => erase i
  | .other op cs => .other op (eraseAll cs)

def eraseAll : List (ExecutionPlan S) → List (ExecutionPlan S)
  | [] => []
  | c :: cs => erase c :: eraseAll cs

end

theorem noBloom_hashJoin {j : HashJoinExec S} {l r : ExecutionPlan S} :
    (ExecutionPlan.hashJoin j l r).NoBloom ↔ l.NoBloom ∧ r.NoBloom := by
  simp only [NoBloom, senders, List.append_eq_nil_iff, forall_and]

theorem not_noBloom_bloomBuild {k : String} {c : Nat} {i : ExecutionPlan S} :
    ¬ (ExecutionPlan.bloomBuild k c i).NoBloom := fun h => by
  simpa [senders] using h .build

theorem not_noBloom_bloomProbe {k : String} {c : Nat} {i : ExecutionPlan S} :
    ¬ (ExecutionPlan.bloomProbe k c i).NoBloom := fun h => by
  simpa [senders] using h .probe

theorem noBloom_other {op : S.Op} {cs : List (ExecutionPlan S)} :
    (ExecutionPlan.other op cs).NoBloom ↔ ∀ c ∈ cs, c.NoBloom := by
  have hall : ∀ side, sendersAll side cs = [] ↔ ∀ c ∈ cs, c.senders side = [] := by
    intro side
    induction cs with
    | nil => simp [sendersAll]
    | cons c cs ih => simp [sendersAll, ih]
  simp only [NoBloom, senders, hall]
  exact ⟨fun h c hc side => h side c hc, fun h side c hc => h c hc side⟩

theorem erase_of_noBloom {p : ExecutionPlan S} (h : p.NoBloom) : p.erase = p := by
  induction p with
  | hashJoin j l r ihl ihr =>
    rw [noBloom_hashJoin] at h
    rw [erase, ihl h.1, ihr h.2]
  | bloomBuild k c i => exact absurd h not_noBloom_bloomBuild
  | bloomProbe k c i => exact absurd h not_noBloom_bloomProbe
  | other op cs ih =>
    rw [noBloom_other] at h
    rw [erase]
    congr 1
    induction cs with
    | nil => rfl
    | cons c cs ihcs =>
      rw [eraseAll, ih c List.mem_cons_self (h c List.mem_cons_self),
        ihcs (fun d hd => ih d (List.mem_cons_of_mem _ hd))
          (fun d hd => h d (List.mem_cons_of_mem _ hd))]

end ExecutionPlan

open ExecutionPlan

/-! ## Erasing an insertion -/

@[simp] theorem erase_stackBuild (p : ExecutionPlan S) (prs : List (BloomPair S)) :
    (stackBuild p prs).erase = p.erase := by
  induction prs generalizing p with
  | nil => rfl
  | cons pr prs ih => rw [stackBuild, ih, erase]

@[simp] theorem erase_stackProbe (p : ExecutionPlan S) (prs : List (BloomPair S)) :
    (stackProbe p prs).erase = p.erase := by
  induction prs generalizing p with
  | nil => rfl
  | cons pr prs ih => rw [stackProbe, ih, erase]

theorem Inserted.erase_eq {P : JoinCondition S} {p q : ExecutionPlan S} (h : Inserted P p q) :
    q.erase = p.erase := by
  apply h.inductOn (motive := fun p q => q.erase = p.erase)
  · intro j l r l' r' prs _ _ _ _ hl hr
    rw [erase, erase, erase_stackBuild, erase_stackProbe, hl, hr]
  · intro k c i i' _ hi
    rw [erase, erase, hi]
  · intro k c i i' _ hi
    rw [erase, erase, hi]
  · intro op cs cs' hcs
    rw [erase, erase]
    congr 1
    induction hcs with
    | nil => rfl
    | cons hc _ ih => rw [eraseAll, eraseAll, hc, ih]

/-! ## Matched stacks -/

/-- Every Bloom filter operator of the plan stands in a pair of matched stacks. -/
inductive WellPaired : ExecutionPlan S → Prop
  | other (op : S.Op) (cs : List (ExecutionPlan S)) :
      (∀ c ∈ cs, WellPaired c) → WellPaired (.other op cs)
  | hashJoin (j : HashJoinExec S) (l r : ExecutionPlan S) (prs : List (BloomPair S)) :
      WellPaired l → WellPaired r → PairsFor j l.schema r.schema prs →
      WellPaired (.hashJoin j (stackBuild l prs) (stackProbe r prs))

theorem Inserted.wellPaired {P : JoinCondition S} {p q : ExecutionPlan S} (h : Inserted P p q)
    (hp : p.NoBloom) : WellPaired q := by
  refine h.inductOn (motive := fun p q => p.NoBloom → WellPaired q) ?_ ?_ ?_ ?_ hp
  · intro j l r l' r' prs hl hr hprs _ ihl ihr hp
    rw [noBloom_hashJoin] at hp
    rw [← hl.schema_eq, ← hr.schema_eq] at hprs
    exact .hashJoin j l' r' prs (ihl hp.1) (ihr hp.2) hprs
  · intro k c i i' _ _ hp
    exact absurd hp not_noBloom_bloomBuild
  · intro k c i i' _ _ hp
    exact absurd hp not_noBloom_bloomProbe
  · intro op cs cs' hcs hp
    rw [noBloom_other] at hp
    refine .other op cs' ?_
    induction hcs with
    | nil => exact fun d hd => absurd hd List.not_mem_nil
    | cons hc _ ih =>
      intro d hd
      rcases List.mem_cons.1 hd with rfl | hd
      · exact hc (hp _ List.mem_cons_self)
      · exact ih (fun e he => hp e (List.mem_cons_of_mem _ he)) d hd

/-! ## Each allocated channel is held by one pair -/

theorem senders_stackBuild (side : Side) (p : ExecutionPlan S) (prs : List (BloomPair S)) :
    (stackBuild p prs).senders side =
      p.senders side ++ if side = .build then prs.map (·.sender) else [] := by
  induction prs generalizing p with
  | nil => simp [stackBuild]
  | cons pr prs ih =>
    rw [stackBuild, ih, senders]
    split_ifs <;> simp

theorem senders_stackProbe (side : Side) (p : ExecutionPlan S) (prs : List (BloomPair S)) :
    (stackProbe p prs).senders side =
      p.senders side ++ if side = .probe then prs.map (·.sender) else [] := by
  induction prs generalizing p with
  | nil => simp [stackProbe]
  | cons pr prs ih =>
    rw [stackProbe, ih, senders]
    split_ifs <;> simp

/-- A join's two stacks hold the pairs' channels once for each kind of operator. -/
theorem count_senders_stacks (side : Side) (j : HashJoinExec S) (l r : ExecutionPlan S)
    (prs : List (BloomPair S)) (c : Nat) :
    ((ExecutionPlan.hashJoin j (stackBuild l prs) (stackProbe r prs)).senders side).count c =
      (l.senders side).count c + (r.senders side).count c + (prs.map (·.sender)).count c := by
  rw [senders, senders_stackBuild, senders_stackProbe]
  cases side <;> simp <;> omega

theorem count_range' (n m c : Nat) :
    (List.range' n m).count c = if n ≤ c ∧ c < n + m then 1 else 0 := by
  rw [List.Nodup.count List.nodup_range']
  simp only [List.mem_range'_1]

/-- **Each channel allocated by a rewrite is held by one build and by one probe operator**, and
the channels the plan held before are held as before. -/
theorem insertWith_senders {H : Host S} {keep : Keep} {p q : ExecutionPlan S} {next next' : Nat}
    (h : insertWith H false keep p next = .ok (q, next')) :
    next ≤ next' ∧ ∀ side c, (q.senders side).count c =
      (p.senders side).count c + if next ≤ c ∧ c < next' then 1 else 0 := by
  refine ⟨by rw [insertWith_next h]; omega, fun side c => ?_⟩
  induction p generalizing keep q next next' with
  | hashJoin j l r ihl ihr =>
    obtain ⟨l', n₁, r', n₂, hl, hr, rfl, rfl⟩ := insertWith_hashJoin h
    have h₁ := insertWith_next hl
    have h₂ := insertWith_next hr
    rw [count_senders_stacks, ihl hl, ihr hr, joinPairs, map_sender_numbered, count_range',
      length_numbered, senders, List.count_append]
    split_ifs <;> omega
  | bloomBuild k d i ih =>
    obtain ⟨i', hi, rfl⟩ := insertWith_bloomBuild h
    rw [senders, senders, List.count_append, List.count_append, ih hi]
    omega
  | bloomProbe k d i ih =>
    obtain ⟨i', hi, rfl⟩ := insertWith_bloomProbe h
    rw [senders, senders, List.count_append, List.count_append, ih hi]
    omega
  | other op cs ih =>
    obtain ⟨cs', hcs, rfl⟩ := insertWith_other h
    rw [senders, senders]
    suffices hall : ∀ i, insertAll H false keep i cs next = .ok (cs', next') →
        (sendersAll side cs').count c = (sendersAll side cs).count c +
          if next ≤ c ∧ c < next' then 1 else 0 from hall 0 hcs
    clear h hcs
    intro i hcs
    induction cs generalizing cs' next i with
    | nil =>
      obtain ⟨rfl, rfl⟩ := insertAll_nil hcs
      rw [if_neg (by omega)]
      rfl
    | cons d cs ihcs =>
      obtain ⟨d', n₁, ds, hd, hds, rfl⟩ := insertAll_cons hcs
      have h₁ := insertWith_next hd
      have h₂ := insertAll_next hds
      rw [sendersAll, sendersAll, List.count_append, List.count_append, ih d List.mem_cons_self hd,
        ihcs (fun e he => ih e (List.mem_cons_of_mem _ he)) ds (i + 1) hds]
      split_ifs <;> omega

/-- The operators of each kind that a rewrite adds are as many as the channels it allocates. -/
theorem insertWith_length_senders {H : Host S} {keep : Keep} {p q : ExecutionPlan S}
    {next next' : Nat} (h : insertWith H false keep p next = .ok (q, next')) (side : Side) :
    (q.senders side).length =
      (p.senders side).length + ((sites p).filter keep.passes).length := by
  have hnext := insertWith_next h
  have hperm : (q.senders side).Perm
      (p.senders side ++ List.range' next ((sites p).filter keep.passes).length) := by
    rw [List.perm_iff_count]
    intro c
    rw [(insertWith_senders h).2 side c, List.count_append, count_range', ← hnext]
  rw [hperm.length_eq, List.length_append, List.length_range']

/-- **Over a plan without Bloom filter operators, a rewrite adds matched pairs on channels of their
own and nothing else**, also where it returns the plan at once. -/
theorem insertWith_matched {H : Host S} {skip : Bool} {keep : Keep} {p q : ExecutionPlan S}
    {next next' : Nat} (hp : p.NoBloom) (h : insertWith H skip keep p next = .ok (q, next')) :
    q.erase = p ∧ WellPaired q ∧ ∀ side, ∀ c ∈ q.senders side,
      (q.senders .build).count c = 1 ∧ (q.senders .probe).count c = 1 := by
  cases skip with
  | true =>
    rw [insertWith_skip] at h
    cases h
    refine ⟨erase_of_noBloom hp, (Inserted.refl (fun _ _ _ => True) p).wellPaired hp, ?_⟩
    intro side c hc
    rw [hp side] at hc
    cases hc
  | false =>
    have hins := insertWith_inserted h (atInnerJoins_true p)
    obtain ⟨-, hcount⟩ := insertWith_senders h
    refine ⟨by rw [hins.erase_eq, erase_of_noBloom hp], hins.wellPaired hp, ?_⟩
    intro side c hc
    have hnew : next ≤ c ∧ c < next' := by
      by_contra hold
      have hpos := List.count_pos_iff.2 hc
      rw [hcount, hp side, if_neg hold] at hpos
      simp at hpos
    simp [hcount, hp .build, hp .probe, hnew]

end PredicateTransfer
