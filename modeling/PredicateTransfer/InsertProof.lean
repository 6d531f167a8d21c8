import PredicateTransfer.Insert

/-!
# What the rewrite can do to a plan

The loop over a join's keys puts two stacks of equal height on the children, one pair for each
resolved key that passes the test (`wrapKeys_eq`). From this and from the inversion lemmas for
`insertWith`:

* `insertWith_inserted` — the result is `Inserted` over the plan: the same tree, with matched
  stacks on the children of inner joins and nothing else;
* `insertWith_congr` — the rewrite depends on the test only at the plan's `sites`;
* `insertWith_placed` — it places a pair at every site that passes the test, and nowhere else;
* `insertWith_next` — it allocates one channel for each site that passes the test;
* `inserted_reads_own_iff` — when the inserted operators read the columns of the keys they were
  inserted for.
-/

namespace PredicateTransfer

variable {S : Sig}

/-! ## Sites: the resolved keys of a plan -/

/-- A key whose column name is found on both sides of its join. -/
structure Site (S : Sig) where
  pos : Position
  key : PhysicalExpr S × PhysicalExpr S
  buildCol : String
  probeCol : String

def Site.under (i : Nat) (s : Site S) : Site S := { s with pos := s.pos.under i }

/-- The test, at a site. -/
def Keep.passes (keep : Keep) (s : Site S) : Bool := keep s.pos s.buildCol s.probeCol

/-- The resolved keys of one join, from key `k` on. -/
def joinSites : Nat → List (PhysicalExpr S × PhysicalExpr S) → Schema → Schema → List (Site S)
  | _, [], _, _ => []
  | k, key :: on, left, right =>
    match lookupField left key.1.fmt, lookupField right key.2.fmt with
    | some buildCol, some probeCol =>
      ⟨⟨[], k⟩, key, buildCol, probeCol⟩ :: joinSites (k + 1) on left right
    | _, _ => joinSites (k + 1) on left right

/-- The resolved keys of a join over children with the given schemas; only inner joins have
any. -/
def HashJoinExec.sites (j : HashJoinExec S) (left right : Schema) : List (Site S) :=
  if j.joinType = .inner then joinSites 0 j.on left right else []

mutual

/-- The resolved keys of a plan's inner joins, in the order the rewrites reach them. -/
def sites : ExecutionPlan S → List (Site S)
  | .hashJoin j l r =>
    (sites l).map (Site.under 0) ++ (sites r).map (Site.under 1) ++ j.sites l.schema r.schema
  | .bloomBuild _ _ i => (sites i).map (Site.under 0)
  | .bloomProbe _ _ i => (sites i).map (Site.under 0)
  | .other _ cs => sitesAll 0 cs

def sitesAll : Nat → List (ExecutionPlan S) → List (Site S)
  | _, [] => []
  | i, c :: cs => (sites c).map (Site.under i) ++ sitesAll (i + 1) cs

end

/-! ## Stacks -/

/-- A Bloom filter pair: the `on` entry it was built for, its two column names and its
channel. -/
structure BloomPair (S : Sig) where
  key : PhysicalExpr S × PhysicalExpr S
  buildCol : String
  probeCol : String
  sender : Nat

/-- The pairs of some sites, on the channels from `next` on. -/
def numbered : Nat → List (Site S) → List (BloomPair S)
  | _, [] => []
  | next, s :: ss => ⟨s.key, s.buildCol, s.probeCol, next⟩ :: numbered (next + 1) ss

/-- Build operators on a plan, the first pair at the bottom. -/
def stackBuild : ExecutionPlan S → List (BloomPair S) → ExecutionPlan S
  | p, [] => p
  | p, pr :: prs => stackBuild (.bloomBuild pr.buildCol pr.sender p) prs

/-- Probe operators on a plan, the first pair at the bottom. -/
def stackProbe : ExecutionPlan S → List (BloomPair S) → ExecutionPlan S
  | p, [] => p
  | p, pr :: prs => stackProbe (.bloomProbe pr.probeCol pr.sender p) prs

@[simp] theorem length_numbered (next : Nat) (ss : List (Site S)) :
    (numbered next ss).length = ss.length := by
  induction ss generalizing next with
  | nil => rfl
  | cons s ss ih => simp [numbered, ih]

theorem map_sender_numbered (next : Nat) (ss : List (Site S)) :
    (numbered next ss).map (·.sender) = List.range' next ss.length := by
  induction ss generalizing next with
  | nil => rfl
  | cons s ss ih => simp [numbered, ih, List.range'_succ]

theorem map_key_numbered (next : Nat) (ss : List (Site S)) :
    (numbered next ss).map (·.key) = ss.map (·.key) := by
  induction ss generalizing next with
  | nil => rfl
  | cons s ss ih => simp [numbered, ih]

theorem getElem?_numbered (next i : Nat) (ss : List (Site S)) :
    (numbered next ss)[i]? =
      ss[i]?.map fun s => ⟨s.key, s.buildCol, s.probeCol, next + i⟩ := by
  induction ss generalizing next i with
  | nil => rfl
  | cons s ss ih =>
    cases i with
    | zero => rfl
    | succ i =>
      rw [numbered, List.getElem?_cons_succ, List.getElem?_cons_succ, ih, Nat.add_right_comm,
        Nat.add_assoc]

/-- A pair is found at its channel's offset. -/
theorem getElem?_of_mem_numbered {next : Nat} {ss : List (Site S)} {pr : BloomPair S}
    (h : pr ∈ numbered next ss) :
    next ≤ pr.sender ∧ (numbered next ss)[pr.sender - next]? = some pr := by
  obtain ⟨i, hi⟩ := List.mem_iff_getElem?.1 h
  have hs := hi
  rw [getElem?_numbered] at hs
  obtain ⟨s, -, rfl⟩ := Option.map_eq_some_iff.1 hs
  refine ⟨Nat.le_add_right _ _, ?_⟩
  rw [Nat.add_sub_cancel_left]
  exact hi

theorem mem_numbered {next : Nat} {ss : List (Site S)} {pr : BloomPair S}
    (h : pr ∈ numbered next ss) :
    ∃ s ∈ ss, s.key = pr.key ∧ s.buildCol = pr.buildCol ∧ s.probeCol = pr.probeCol := by
  induction ss generalizing next with
  | nil => cases h
  | cons s ss ih =>
    rcases List.mem_cons.1 h with rfl | h
    · exact ⟨s, List.mem_cons_self, rfl, rfl, rfl⟩
    · obtain ⟨s', hs', heq⟩ := ih h
      exact ⟨s', List.mem_cons_of_mem _ hs', heq⟩

@[simp] theorem schema_stackBuild (p : ExecutionPlan S) (prs : List (BloomPair S)) :
    (stackBuild p prs).schema = p.schema := by
  induction prs generalizing p with
  | nil => rfl
  | cons pr prs ih => rw [stackBuild, ih, ExecutionPlan.schema]

@[simp] theorem schema_stackProbe (p : ExecutionPlan S) (prs : List (BloomPair S)) :
    (stackProbe p prs).schema = p.schema := by
  induction prs generalizing p with
  | nil => rfl
  | cons pr prs ih => rw [stackProbe, ih, ExecutionPlan.schema]

/-- **The loop over the keys.** Wrapping never changes the schemas that later lookups see, so
the loop stacks one pair for each resolved key that passes the test. -/
theorem wrapKeys_eq (keep : Keep) (k : Nat) (on : List (PhysicalExpr S × PhysicalExpr S))
    (l r : ExecutionPlan S) (next : Nat) :
    let prs := numbered next ((joinSites k on l.schema r.schema).filter keep.passes)
    wrapKeys keep k on l r next = (stackBuild l prs, stackProbe r prs, next + prs.length) := by
  induction on generalizing k l r next with
  | nil => rfl
  | cons key on ih =>
    unfold wrapKeys joinSites
    cases hl : lookupField l.schema key.1.fmt with
    | none => exact ih (k + 1) l r next
    | some b =>
      cases hr : lookupField r.schema key.2.fmt with
      | none => exact ih (k + 1) l r next
      | some q =>
        by_cases hk : keep ⟨[], k⟩ b q = true
        · have hp : keep.passes (⟨⟨[], k⟩, key, b, q⟩ : Site S) = true := hk
          have h := ih (k + 1) (.bloomBuild b next l) (.bloomProbe q next r) (next + 1)
          simp only [ExecutionPlan.schema] at h
          simp only [hk, hp, if_true, List.filter_cons, numbered, stackBuild, stackProbe, h,
            List.length_cons]
          rw [Nat.add_right_comm, Nat.add_assoc]
        · have hp : ¬ keep.passes (⟨⟨[], k⟩, key, b, q⟩ : Site S) = true := hk
          simp only [hk, hp, List.filter_cons]
          exact ih (k + 1) l r next

/-! ## Inversion -/

theorem insertWith_skip (H : Host S) (keep : Keep) (p : ExecutionPlan S) (next : Nat) :
    insertWith H true keep p next = .ok (p, next) := by
  cases p <;> rw [insertWith] <;> rfl

/-- The pairs a join gets over its rewritten children. -/
def joinPairs (keep : Keep) (j : HashJoinExec S) (l r : ExecutionPlan S) (next : Nat) :
    List (BloomPair S) :=
  numbered next ((j.sites l.schema r.schema).filter keep.passes)

theorem wrap_eq (keep : Keep) (j : HashJoinExec S) (l r : ExecutionPlan S) (next : Nat) :
    (if j.joinType = .inner then wrapKeys keep 0 j.on l r next else (l, r, next)) =
      (stackBuild l (joinPairs keep j l r next), stackProbe r (joinPairs keep j l r next),
        next + (joinPairs keep j l r next).length) := by
  unfold joinPairs HashJoinExec.sites
  split_ifs with hj
  · exact wrapKeys_eq keep 0 j.on l r next
  · rfl

section
variable {H : Host S} {keep : Keep} {next next' : Nat} {q : ExecutionPlan S}

theorem insertWith_hashJoin {j : HashJoinExec S} {l r : ExecutionPlan S}
    (h : insertWith H false keep (.hashJoin j l r) next = .ok (q, next')) :
    ∃ l' n₁ r' n₂, insertWith H false (keep.under 0) l next = .ok (l', n₁) ∧
      insertWith H false (keep.under 1) r n₁ = .ok (r', n₂) ∧
      q = .hashJoin j (stackBuild l' (joinPairs keep j l' r' n₂))
        (stackProbe r' (joinPairs keep j l' r' n₂)) ∧
      next' = n₂ + (joinPairs keep j l' r' n₂).length := by
  rw [insertWith, if_neg (by simp)] at h
  obtain ⟨⟨l', n₁⟩, hl, h⟩ := bind_eq_ok.1 h
  obtain ⟨⟨r', n₂⟩, hr, h⟩ := bind_eq_ok.1 h
  simp only [wrap_eq] at h
  obtain ⟨q', hq, h⟩ := bind_eq_ok.1 h
  cases h
  exact ⟨l', n₁, r', n₂, hl, hr, withNewChildren_hashJoin hq, rfl⟩

theorem insertWith_bloomBuild {k : String} {c : Nat} {i : ExecutionPlan S}
    (h : insertWith H false keep (.bloomBuild k c i) next = .ok (q, next')) :
    ∃ i', insertWith H false (keep.under 0) i next = .ok (i', next') ∧ q = .bloomBuild k c i' := by
  rw [insertWith, if_neg (by simp)] at h
  obtain ⟨⟨i', n₁⟩, hi, h⟩ := bind_eq_ok.1 h
  cases h
  exact ⟨i', hi, rfl⟩

theorem insertWith_bloomProbe {k : String} {c : Nat} {i : ExecutionPlan S}
    (h : insertWith H false keep (.bloomProbe k c i) next = .ok (q, next')) :
    ∃ i', insertWith H false (keep.under 0) i next = .ok (i', next') ∧ q = .bloomProbe k c i' := by
  rw [insertWith, if_neg (by simp)] at h
  obtain ⟨⟨i', n₁⟩, hi, h⟩ := bind_eq_ok.1 h
  cases h
  exact ⟨i', hi, rfl⟩

theorem insertWith_other {op : S.Op} {cs : List (ExecutionPlan S)}
    (h : insertWith H false keep (.other op cs) next = .ok (q, next')) :
    ∃ cs', insertAll H false keep 0 cs next = .ok (cs', next') ∧ q = .other op cs' := by
  rw [insertWith] at h
  split_ifs at h with hcs
  · cases h
    have : cs = [] := by simpa using hcs
    subst this
    exact ⟨[], rfl, rfl⟩
  · obtain ⟨⟨cs', n₁⟩, hi, h⟩ := bind_eq_ok.1 h
    obtain ⟨q', hq, h⟩ := bind_eq_ok.1 h
    cases h
    exact ⟨cs', hi, withNewChildren_other hq⟩

theorem insertAll_cons {i : Nat} {c : ExecutionPlan S} {cs qs : List (ExecutionPlan S)}
    (h : insertAll H false keep i (c :: cs) next = .ok (qs, next')) :
    ∃ c' n₁ cs', insertWith H false (keep.under i) c next = .ok (c', n₁) ∧
      insertAll H false keep (i + 1) cs n₁ = .ok (cs', next') ∧ qs = c' :: cs' := by
  rw [insertAll] at h
  obtain ⟨⟨c', n₁⟩, hc, h⟩ := bind_eq_ok.1 h
  obtain ⟨⟨cs', n₂⟩, hcs, h⟩ := bind_eq_ok.1 h
  cases h
  exact ⟨c', n₁, cs', hc, hcs, rfl⟩

theorem insertAll_nil {i : Nat} {qs : List (ExecutionPlan S)}
    (h : insertAll H false keep i [] next = .ok (qs, next')) : qs = [] ∧ next' = next := by
  rw [insertAll] at h
  cases h
  exact ⟨rfl, rfl⟩

end

/-! ## Only matched stacks are inserted -/

/-- The pairs were built for entries of the join's `on` list, in order, and carry the column
names found for these entries; only an inner join has any. -/
structure PairsFor (j : HashJoinExec S) (left right : Schema) (prs : List (BloomPair S)) :
    Prop where
  inner : prs ≠ [] → j.joinType = .inner
  entries : (prs.map (·.key)).Sublist j.on
  buildCol : ∀ pr ∈ prs, lookupField left pr.key.1.fmt = some pr.buildCol
  probeCol : ∀ pr ∈ prs, lookupField right pr.key.2.fmt = some pr.probeCol

/-- A condition on an inner join and its children's schemas. -/
abbrev JoinCondition (S : Sig) := HashJoinExec S → Schema → Schema → Prop

mutual

/-- The condition holds at every inner join of the plan. -/
def AtInnerJoins (P : JoinCondition S) : ExecutionPlan S → Prop
  | .hashJoin j l r => (j.joinType = .inner → P j l.schema r.schema) ∧
      AtInnerJoins P l ∧ AtInnerJoins P r
  | .bloomBuild _ _ i => AtInnerJoins P i
  | .bloomProbe _ _ i => AtInnerJoins P i
  | .other _ cs => AtInnerJoinsAll P cs

def AtInnerJoinsAll (P : JoinCondition S) : List (ExecutionPlan S) → Prop
  | [] => True
  | c :: cs => AtInnerJoins P c ∧ AtInnerJoinsAll P cs

end

theorem atInnerJoinsAll_iff {P : JoinCondition S} {cs : List (ExecutionPlan S)} :
    AtInnerJoinsAll P cs ↔ ∀ c ∈ cs, AtInnerJoins P c := by
  induction cs with
  | nil => simp [AtInnerJoinsAll]
  | cons c cs ih => simp [AtInnerJoinsAll, ih]

theorem atInnerJoins_true (p : ExecutionPlan S) : AtInnerJoins (fun _ _ _ => True) p := by
  induction p with
  | hashJoin j l r ihl ihr => rw [AtInnerJoins]; exact ⟨fun _ => trivial, ihl, ihr⟩
  | bloomBuild k c i ih => rw [AtInnerJoins]; exact ih
  | bloomProbe k c i ih => rw [AtInnerJoins]; exact ih
  | other op cs ih => rw [AtInnerJoins]; exact atInnerJoinsAll_iff.2 ih

mutual

/-- `q` is `p` with matched stacks put on the children of inner joins that meet `P`. -/
def Inserted (P : JoinCondition S) : ExecutionPlan S → ExecutionPlan S → Prop
  | .hashJoin j l r, q => ∃ l' r' prs, Inserted P l l' ∧ Inserted P r r' ∧
      PairsFor j l.schema r.schema prs ∧ (prs ≠ [] → P j l.schema r.schema) ∧
      q = .hashJoin j (stackBuild l' prs) (stackProbe r' prs)
  | .bloomBuild k c i, q => ∃ i', Inserted P i i' ∧ q = .bloomBuild k c i'
  | .bloomProbe k c i, q => ∃ i', Inserted P i i' ∧ q = .bloomProbe k c i'
  | .other op cs, q => ∃ cs', InsertedAll P cs cs' ∧ q = .other op cs'

def InsertedAll (P : JoinCondition S) : List (ExecutionPlan S) → List (ExecutionPlan S) → Prop
  | [], qs => qs = []
  | c :: cs, qs => ∃ c' cs', Inserted P c c' ∧ InsertedAll P cs cs' ∧ qs = c' :: cs'

end

variable {P : JoinCondition S}

theorem Inserted.refl (P : JoinCondition S) (p : ExecutionPlan S) : Inserted P p p := by
  induction p with
  | hashJoin j l r ihl ihr =>
    rw [Inserted]
    exact ⟨l, r, [], ihl, ihr, ⟨by simp, by simp, by simp, by simp⟩, by simp, rfl⟩
  | bloomBuild k c i ih => rw [Inserted]; exact ⟨i, ih, rfl⟩
  | bloomProbe k c i ih => rw [Inserted]; exact ⟨i, ih, rfl⟩
  | other op cs ih =>
    rw [Inserted]
    refine ⟨cs, ?_, rfl⟩
    induction cs with
    | nil => rw [InsertedAll]
    | cons c cs ihcs =>
      rw [InsertedAll]
      exact ⟨c, cs, ih c List.mem_cons_self,
        ihcs fun d hd => ih d (List.mem_cons_of_mem _ hd), rfl⟩

/-- **Induction over an insertion**, with the hypothesis for every child of an other operator. -/
theorem Inserted.inductOn {motive : ExecutionPlan S → ExecutionPlan S → Prop}
    {p q : ExecutionPlan S} (h : Inserted P p q)
    (hashJoin : ∀ {j l r l' r' prs}, Inserted P l l' → Inserted P r r' →
      PairsFor j l.schema r.schema prs → (prs ≠ [] → P j l.schema r.schema) →
      motive l l' → motive r r' →
      motive (.hashJoin j l r) (.hashJoin j (stackBuild l' prs) (stackProbe r' prs)))
    (bloomBuild : ∀ {k c i i'}, Inserted P i i' → motive i i' →
      motive (.bloomBuild k c i) (.bloomBuild k c i'))
    (bloomProbe : ∀ {k c i i'}, Inserted P i i' → motive i i' →
      motive (.bloomProbe k c i) (.bloomProbe k c i'))
    (other : ∀ {op cs cs'}, List.Forall₂ motive cs cs' → motive (.other op cs) (.other op cs')) :
    motive p q := by
  induction p generalizing q with
  | hashJoin j l r ihl ihr =>
    rw [Inserted] at h
    obtain ⟨l', r', prs, hl, hr, hprs, hP, rfl⟩ := h
    exact hashJoin hl hr hprs hP (ihl hl) (ihr hr)
  | bloomBuild k c i ih =>
    rw [Inserted] at h
    obtain ⟨i', hi, rfl⟩ := h
    exact bloomBuild hi (ih hi)
  | bloomProbe k c i ih =>
    rw [Inserted] at h
    obtain ⟨i', hi, rfl⟩ := h
    exact bloomProbe hi (ih hi)
  | other op cs ih =>
    rw [Inserted] at h
    obtain ⟨cs', hcs, rfl⟩ := h
    apply other
    induction cs generalizing cs' with
    | nil =>
      rw [InsertedAll] at hcs
      rw [hcs]
      exact .nil
    | cons c cs ihcs =>
      rw [InsertedAll] at hcs
      obtain ⟨c', cs', hc, hcs, rfl⟩ := hcs
      exact .cons (ih c List.mem_cons_self hc)
        (ihcs (fun d hd => ih d (List.mem_cons_of_mem _ hd)) cs' hcs)

theorem Inserted.schema_eq {p q : ExecutionPlan S} (h : Inserted P p q) : q.schema = p.schema := by
  apply h.inductOn (motive := fun p q => q.schema = p.schema)
  · intro j l r l' r' prs _ _ _ _ hl hr
    simp only [ExecutionPlan.schema, schema_stackBuild, schema_stackProbe, hl, hr]
  · intro k c i i' _ hi
    simp only [ExecutionPlan.schema, hi]
  · intro k c i i' _ hi
    simp only [ExecutionPlan.schema, hi]
  · intro op cs cs' hcs
    simp only [ExecutionPlan.schema]
    congr 1
    induction hcs with
    | nil => rfl
    | cons hc _ ih => simp only [ExecutionPlan.schemas, hc, ih]

theorem joinSites_spec {k : Nat} {on : List (PhysicalExpr S × PhysicalExpr S)}
    {left right : Schema} :
    ((joinSites k on left right).map (·.key)).Sublist on ∧
      ∀ s ∈ joinSites k on left right, lookupField left s.key.1.fmt = some s.buildCol ∧
        lookupField right s.key.2.fmt = some s.probeCol := by
  induction on generalizing k with
  | nil => exact ⟨List.Sublist.refl _, fun s hs => absurd hs List.not_mem_nil⟩
  | cons key on ih =>
    obtain ⟨hsub, hlook⟩ := ih (k := k + 1)
    unfold joinSites
    split
    · rename_i b q hb hq
      refine ⟨hsub.cons_cons key, fun s hs => ?_⟩
      rcases List.mem_cons.1 hs with rfl | hs
      · exact ⟨hb, hq⟩
      · exact hlook s hs
    · exact ⟨hsub.cons key, hlook⟩

theorem joinPairs_pairsFor (keep : Keep) (j : HashJoinExec S) (l r : ExecutionPlan S)
    (next : Nat) : PairsFor j l.schema r.schema (joinPairs keep j l r next) := by
  have hspec : ∀ pr ∈ joinPairs keep j l r next, lookupField l.schema pr.key.1.fmt =
      some pr.buildCol ∧ lookupField r.schema pr.key.2.fmt = some pr.probeCol := by
    intro pr hpr
    obtain ⟨s, hs, hkey, hb, hp⟩ := mem_numbered hpr
    have hs' := List.mem_of_mem_filter hs
    unfold HashJoinExec.sites at hs'
    split_ifs at hs'
    · rw [← hkey, ← hb, ← hp]
      exact joinSites_spec.2 s hs'
    · cases hs'
  refine ⟨fun hne => ?_, ?_, fun pr hpr => (hspec pr hpr).1, fun pr hpr => (hspec pr hpr).2⟩
  · by_contra hj
    exact hne (by simp [joinPairs, HashJoinExec.sites, hj, numbered])
  · rw [joinPairs, map_key_numbered]
    refine (List.filter_sublist.map _).trans ?_
    unfold HashJoinExec.sites
    split_ifs
    · exact joinSites_spec.1
    · exact List.nil_sublist _

/-- **A rewrite inserts matched stacks and does nothing else.** -/
theorem insertWith_inserted {H : Host S} {keep : Keep} {p q : ExecutionPlan S} {next next' : Nat}
    (h : insertWith H false keep p next = .ok (q, next')) (hP : AtInnerJoins P p) :
    Inserted P p q := by
  induction p generalizing keep q next next' with
  | hashJoin j l r ihl ihr =>
    rw [AtInnerJoins] at hP
    obtain ⟨l', n₁, r', n₂, hl, hr, rfl, -⟩ := insertWith_hashJoin h
    have hil := ihl hl hP.2.1
    have hir := ihr hr hP.2.2
    have hpairs := joinPairs_pairsFor keep j l' r' n₂
    rw [hil.schema_eq, hir.schema_eq] at hpairs
    rw [Inserted]
    exact ⟨l', r', _, hil, hir, hpairs, fun hne => hP.1 (hpairs.inner hne), rfl⟩
  | bloomBuild k c i ih =>
    rw [AtInnerJoins] at hP
    obtain ⟨i', hi, rfl⟩ := insertWith_bloomBuild h
    rw [Inserted]
    exact ⟨i', ih hi hP, rfl⟩
  | bloomProbe k c i ih =>
    rw [AtInnerJoins] at hP
    obtain ⟨i', hi, rfl⟩ := insertWith_bloomProbe h
    rw [Inserted]
    exact ⟨i', ih hi hP, rfl⟩
  | other op cs ih =>
    rw [AtInnerJoins, atInnerJoinsAll_iff] at hP
    obtain ⟨cs', hcs, rfl⟩ := insertWith_other h
    rw [Inserted]
    refine ⟨cs', ?_, rfl⟩
    clear h
    generalize 0 = i at hcs
    induction cs generalizing cs' next i with
    | nil => rw [InsertedAll]; exact (insertAll_nil hcs).1
    | cons c cs ihcs =>
      obtain ⟨c', n₁, ds, hc, hds, rfl⟩ := insertAll_cons hcs
      rw [InsertedAll]
      exact ⟨c', ds, ih c List.mem_cons_self hc (hP c List.mem_cons_self),
        ihcs (fun d hd => ih d (List.mem_cons_of_mem _ hd))
          (fun d hd => hP d (List.mem_cons_of_mem _ hd)) ds (i + 1) hds, rfl⟩

theorem insertWith_schema {H : Host S} {keep : Keep} {p q : ExecutionPlan S} {next next' : Nat}
    (h : insertWith H false keep p next = .ok (q, next')) : q.schema = p.schema :=
  (insertWith_inserted h (atInnerJoins_true p)).schema_eq

/-! ## The test matters at the sites only -/

theorem mem_sites_left {j : HashJoinExec S} {l r : ExecutionPlan S} {s : Site S}
    (h : s ∈ sites l) : s.under 0 ∈ sites (.hashJoin j l r) := by
  rw [sites]
  exact List.mem_append_left _ (List.mem_append_left _ (List.mem_map_of_mem h))

theorem mem_sites_right {j : HashJoinExec S} {l r : ExecutionPlan S} {s : Site S}
    (h : s ∈ sites r) : s.under 1 ∈ sites (.hashJoin j l r) := by
  rw [sites]
  exact List.mem_append_left _ (List.mem_append_right _ (List.mem_map_of_mem h))

theorem mem_sites_own {j : HashJoinExec S} {l r : ExecutionPlan S} {s : Site S}
    (h : s ∈ j.sites l.schema r.schema) : s ∈ sites (.hashJoin j l r) := by
  rw [sites]
  exact List.mem_append_right _ h

/-- A plan without join edges has no resolved keys. -/
theorem sites_eq_nil {p : ExecutionPlan S} (h : collectJoinEdges p = []) : sites p = [] := by
  induction p with
  | hashJoin j l r ihl ihr =>
    rw [collectJoinEdges, List.append_eq_nil_iff, List.append_eq_nil_iff] at h
    obtain ⟨⟨hj, hl⟩, hr⟩ := h
    have hown : j.sites l.schema r.schema = [] := by
      unfold HashJoinExec.sites
      split_ifs with hinner
      · rw [if_pos hinner, List.map_eq_nil_iff] at hj
        rw [hj]
        rfl
      · rfl
    rw [sites, ihl hl, ihr hr, hown]
    rfl
  | bloomBuild k c i ih =>
    rw [collectJoinEdges] at h
    rw [sites, ih h]
    rfl
  | bloomProbe k c i ih =>
    rw [collectJoinEdges] at h
    rw [sites, ih h]
    rfl
  | other op cs ih =>
    rw [collectJoinEdges] at h
    rw [sites]
    generalize 0 = i
    induction cs generalizing i with
    | nil => rfl
    | cons c cs ihcs =>
      rw [collectJoinEdgesAll, List.append_eq_nil_iff] at h
      rw [sitesAll, ih c List.mem_cons_self h.1]
      exact ihcs (fun c hc => ih c (List.mem_cons_of_mem _ hc)) h.2 (i + 1)

theorem joinPairs_congr {keep keep' : Keep} {j : HashJoinExec S} {l r : ExecutionPlan S}
    (h : ∀ s ∈ j.sites l.schema r.schema, keep.passes s = keep'.passes s) (next : Nat) :
    joinPairs keep j l r next = joinPairs keep' j l r next := by
  rw [joinPairs, joinPairs, List.filter_congr h]

/-- Two tests that agree at the sites of a plan give the same rewrite of it, errors included. -/
theorem insertWith_congr (H : Host S) {keep keep' : Keep} {p : ExecutionPlan S}
    (h : ∀ s ∈ sites p, keep.passes s = keep'.passes s) (next : Nat) :
    insertWith H false keep p next = insertWith H false keep' p next := by
  induction p generalizing keep keep' next with
  | hashJoin j l r ihl ihr =>
    have hl : ∀ n, insertWith H false (keep.under 0) l n = insertWith H false (keep'.under 0) l n :=
      ihl fun s hs => h _ (mem_sites_left hs)
    have hr : ∀ n, insertWith H false (keep.under 1) r n = insertWith H false (keep'.under 1) r n :=
      ihr fun s hs => h _ (mem_sites_right hs)
    rw [insertWith, insertWith, hl]
    cases hL : insertWith H false (keep'.under 0) l next with
    | error e => rfl
    | ok a =>
      obtain ⟨l', n₁⟩ := a
      simp only [bind, Except.bind, hr n₁]
      cases hR : insertWith H false (keep'.under 1) r n₁ with
      | error e => rfl
      | ok b =>
        obtain ⟨r', n₂⟩ := b
        -- The rewritten children have the schemas the sites were found with.
        have hpairs : joinPairs keep j l' r' n₂ = joinPairs keep' j l' r' n₂ := by
          refine joinPairs_congr (fun s hs => h s (mem_sites_own ?_)) n₂
          rwa [← insertWith_schema hL, ← insertWith_schema hR]
        simp only [wrap_eq, hpairs]
  | bloomBuild k c i ih =>
    have hi : insertWith H false (keep.under 0) i next =
        insertWith H false (keep'.under 0) i next :=
      ih (fun s hs => h (s.under 0) (by rw [sites]; exact List.mem_map_of_mem hs)) next
    rw [insertWith, insertWith, hi]
  | bloomProbe k c i ih =>
    have hi : insertWith H false (keep.under 0) i next =
        insertWith H false (keep'.under 0) i next :=
      ih (fun s hs => h (s.under 0) (by rw [sites]; exact List.mem_map_of_mem hs)) next
    rw [insertWith, insertWith, hi]
  | other op cs ih =>
    rw [sites] at h
    suffices hall : insertAll H false keep 0 cs next = insertAll H false keep' 0 cs next by
      rw [insertWith, insertWith, hall]
    generalize 0 = i at h
    induction cs generalizing next i with
    | nil => rw [insertAll, insertAll]
    | cons c cs ihcs =>
      rw [sitesAll] at h
      have hc : insertWith H false (keep.under i) c next =
          insertWith H false (keep'.under i) c next :=
        ih c List.mem_cons_self
          (fun s hs => h (s.under i) (List.mem_append_left _ (List.mem_map_of_mem hs))) next
      have hcs := fun n => ihcs (fun d hd => ih d (List.mem_cons_of_mem _ hd)) n (i + 1)
        fun s hs => h s (List.mem_append_right _ hs)
      rw [insertAll, insertAll, hc]
      cases insertWith H false (keep'.under i) c next with
      | error e => rfl
      | ok a => simp only [bind, Except.bind, hcs]

/-! ## Where the pairs are -/

mutual

/-- `q` is `p` with one pair for each site that passes the test, and no other. -/
def Placed (keep : Keep) : ExecutionPlan S → ExecutionPlan S → Prop
  | .hashJoin j l r, q => ∃ l' r' prs, Placed (keep.under 0) l l' ∧ Placed (keep.under 1) r r' ∧
      prs.map (fun pr => (pr.key, pr.buildCol, pr.probeCol)) =
        ((j.sites l.schema r.schema).filter keep.passes).map
          (fun s => (s.key, s.buildCol, s.probeCol)) ∧
      q = .hashJoin j (stackBuild l' prs) (stackProbe r' prs)
  | .bloomBuild k c i, q => ∃ i', Placed (keep.under 0) i i' ∧ q = .bloomBuild k c i'
  | .bloomProbe k c i, q => ∃ i', Placed (keep.under 0) i i' ∧ q = .bloomProbe k c i'
  | .other op cs, q => ∃ cs', PlacedAll keep 0 cs cs' ∧ q = .other op cs'

def PlacedAll (keep : Keep) : Nat → List (ExecutionPlan S) → List (ExecutionPlan S) → Prop
  | _, [], qs => qs = []
  | i, c :: cs, qs => ∃ c' cs', Placed (keep.under i) c c' ∧ PlacedAll keep (i + 1) cs cs' ∧
      qs = c' :: cs'

end

theorem map_entry_numbered (next : Nat) (ss : List (Site S)) :
    (numbered next ss).map (fun pr => (pr.key, pr.buildCol, pr.probeCol)) =
      ss.map fun s => (s.key, s.buildCol, s.probeCol) := by
  induction ss generalizing next with
  | nil => rfl
  | cons s ss ih => rw [numbered, List.map_cons, List.map_cons, ih]

/-- **A rewrite places a pair at every site that passes its test, and nowhere else.** -/
theorem insertWith_placed {H : Host S} {keep : Keep} {p q : ExecutionPlan S} {next next' : Nat}
    (h : insertWith H false keep p next = .ok (q, next')) : Placed keep p q := by
  induction p generalizing keep q next next' with
  | hashJoin j l r ihl ihr =>
    obtain ⟨l', n₁, r', n₂, hl, hr, rfl, -⟩ := insertWith_hashJoin h
    rw [Placed]
    refine ⟨l', r', _, ihl hl, ihr hr, ?_, rfl⟩
    rw [joinPairs, map_entry_numbered, insertWith_schema hl, insertWith_schema hr]
  | bloomBuild k c i ih =>
    obtain ⟨i', hi, rfl⟩ := insertWith_bloomBuild h
    rw [Placed]
    exact ⟨i', ih hi, rfl⟩
  | bloomProbe k c i ih =>
    obtain ⟨i', hi, rfl⟩ := insertWith_bloomProbe h
    rw [Placed]
    exact ⟨i', ih hi, rfl⟩
  | other op cs ih =>
    obtain ⟨cs', hcs, rfl⟩ := insertWith_other h
    rw [Placed]
    refine ⟨cs', ?_, rfl⟩
    clear h
    generalize 0 = i at hcs ⊢
    induction cs generalizing cs' next i with
    | nil => rw [PlacedAll]; exact (insertAll_nil hcs).1
    | cons c cs ihcs =>
      obtain ⟨c', n₁, ds, hc, hds, rfl⟩ := insertAll_cons hcs
      rw [PlacedAll]
      exact ⟨c', ds, ih c List.mem_cons_self hc,
        ihcs (fun d hd => ih d (List.mem_cons_of_mem _ hd)) ds (i + 1) hds, rfl⟩

theorem Placed.congr {keep keep' : Keep} {p q : ExecutionPlan S} (h : Placed keep p q)
    (heq : ∀ s ∈ sites p, keep.passes s = keep'.passes s) : Placed keep' p q := by
  induction p generalizing keep keep' q with
  | hashJoin j l r ihl ihr =>
    rw [Placed] at h ⊢
    obtain ⟨l', r', prs, hl, hr, hprs, rfl⟩ := h
    refine ⟨l', r', prs, ihl hl fun s hs => heq _ (mem_sites_left hs),
      ihr hr fun s hs => heq _ (mem_sites_right hs), ?_, rfl⟩
    rw [hprs, List.filter_congr fun s hs => heq s (mem_sites_own hs)]
  | bloomBuild k c i ih =>
    rw [Placed] at h ⊢
    obtain ⟨i', hi, rfl⟩ := h
    exact ⟨i', ih hi fun s hs => heq (s.under 0) (by rw [sites]; exact List.mem_map_of_mem hs), rfl⟩
  | bloomProbe k c i ih =>
    rw [Placed] at h ⊢
    obtain ⟨i', hi, rfl⟩ := h
    exact ⟨i', ih hi fun s hs => heq (s.under 0) (by rw [sites]; exact List.mem_map_of_mem hs), rfl⟩
  | other op cs ih =>
    rw [Placed] at h ⊢
    obtain ⟨cs', hcs, rfl⟩ := h
    refine ⟨cs', ?_, rfl⟩
    rw [sites] at heq
    generalize 0 = i at hcs heq ⊢
    induction cs generalizing cs' i with
    | nil => exact hcs
    | cons c cs ihcs =>
      rw [PlacedAll] at hcs ⊢
      obtain ⟨c', ds, hc, hds, rfl⟩ := hcs
      rw [sitesAll] at heq
      exact ⟨c', ds, ih c List.mem_cons_self hc fun s hs =>
          heq (s.under i) (List.mem_append_left _ (List.mem_map_of_mem hs)),
        ihcs (fun d hd => ih d (List.mem_cons_of_mem _ hd)) ds (i + 1) hds
          (fun s hs => heq s (List.mem_append_right _ hs)), rfl⟩

/-- No pair is placed in a plan that is left as it is. -/
theorem placed_self (p : ExecutionPlan S) : Placed (fun _ _ _ => false) p p := by
  induction p with
  | hashJoin j l r ihl ihr =>
    rw [Placed]
    exact ⟨l, r, [], ihl, ihr, by simp [Keep.passes], rfl⟩
  | bloomBuild k c i ih =>
    rw [Placed]
    exact ⟨i, ih, rfl⟩
  | bloomProbe k c i ih =>
    rw [Placed]
    exact ⟨i, ih, rfl⟩
  | other op cs ih =>
    rw [Placed]
    refine ⟨cs, ?_, rfl⟩
    generalize 0 = i
    induction cs generalizing i with
    | nil => rw [PlacedAll]
    | cons c cs ihcs =>
      rw [PlacedAll]
      exact ⟨c, cs, ih c List.mem_cons_self,
        ihcs (fun d hd => ih d (List.mem_cons_of_mem _ hd)) (i + 1), rfl⟩

/-! ## How many pairs are inserted -/

theorem length_filter_under (keep : Keep) (i : Nat) (ss : List (Site S)) :
    ((ss.map (Site.under i)).filter keep.passes).length =
      (ss.filter (keep.under i).passes).length := by
  rw [List.filter_map, List.length_map]
  rfl

/-- The rewrite of `p`, under any test, allocates one channel for each site that passes it. -/
def CountsSites (H : Host S) (p : ExecutionPlan S) : Prop :=
  ∀ {keep : Keep} {q : ExecutionPlan S} {next next' : Nat},
    insertWith H false keep p next = .ok (q, next') →
      next' = next + ((sites p).filter keep.passes).length

theorem insertAll_next_of {H : Host S} {keep : Keep} {i : Nat} {cs qs : List (ExecutionPlan S)}
    {next next' : Nat} (hcs : ∀ c ∈ cs, CountsSites H c)
    (h : insertAll H false keep i cs next = .ok (qs, next')) :
    next' = next + ((sitesAll i cs).filter keep.passes).length := by
  induction cs generalizing qs next i with
  | nil => rw [(insertAll_nil h).2]; rfl
  | cons c cs ih =>
    obtain ⟨c', n₁, ds, hc, hds, -⟩ := insertAll_cons h
    rw [sitesAll, List.filter_append, List.length_append, length_filter_under,
      ih (fun d hd => hcs d (List.mem_cons_of_mem _ hd)) hds, hcs c List.mem_cons_self hc,
      Nat.add_assoc]

/-- A rewrite allocates one channel for each site that passes the test. -/
theorem insertWith_next {H : Host S} {keep : Keep} {p q : ExecutionPlan S} {next next' : Nat}
    (h : insertWith H false keep p next = .ok (q, next')) :
    next' = next + ((sites p).filter keep.passes).length := by
  suffices hp : CountsSites H p from hp h
  clear h
  induction p with
  | hashJoin j l r ihl ihr =>
    intro keep q next next' h
    obtain ⟨l', n₁, r', n₂, hl, hr, -, rfl⟩ := insertWith_hashJoin h
    rw [sites, joinPairs, length_numbered, insertWith_schema hl, insertWith_schema hr, ihr hr,
      ihl hl]
    simp only [List.filter_append, List.length_append, length_filter_under]
    omega
  | bloomBuild k c i ih =>
    intro keep q next next' h
    obtain ⟨i', hi, -⟩ := insertWith_bloomBuild h
    rw [sites, length_filter_under]
    exact ih hi
  | bloomProbe k c i ih =>
    intro keep q next next' h
    obtain ⟨i', hi, -⟩ := insertWith_bloomProbe h
    rw [sites, length_filter_under]
    exact ih hi
  | other op cs ih =>
    intro keep q next next' h
    obtain ⟨cs', hcs, -⟩ := insertWith_other h
    rw [sites]
    exact insertAll_next_of ih hcs

theorem insertAll_next {H : Host S} {keep : Keep} {i : Nat} {cs qs : List (ExecutionPlan S)}
    {next next' : Nat} (h : insertAll H false keep i cs next = .ok (qs, next')) :
    next' = next + ((sitesAll i cs).filter keep.passes).length :=
  insertAll_next_of (fun _ _ => insertWith_next) h

/-! ## The columns the inserted operators read -/

/-- Keys that are columns of their side's schema are all resolved. -/
theorem joinSites_of_columns {k : Nat} {on : List (PhysicalExpr S × PhysicalExpr S)}
    {left right : Schema}
    (h : ∀ key ∈ on, ∃ ln li rn ri, key = (.column ln li, .column rn ri) ∧
      IsColumnOf left ln li ∧ IsColumnOf right rn ri) :
    (joinSites k on left right).map (·.key) = on := by
  induction on generalizing k with
  | nil => rfl
  | cons key on ih =>
    obtain ⟨ln, li, rn, ri, rfl, hl, hr⟩ := h key List.mem_cons_self
    obtain ⟨b, hb⟩ := Option.isSome_iff_exists.1 (lookupField_isSome (S := S) hl)
    obtain ⟨q, hq⟩ := Option.isSome_iff_exists.1 (lookupField_isSome (S := S) hr)
    rw [joinSites, hb, hq]
    simp only [List.map_cons]
    rw [ih fun key' hkey' => h key' (List.mem_cons_of_mem _ hkey')]

/-- The build and the probe operator of a pair read the indices of the pair's two key columns. -/
def BloomPair.ReadsOwn (pr : BloomPair S) (left right : Schema) : Prop :=
  ∃ ln li rn ri, pr.key = (.column ln li, .column rn ri) ∧
    keyColumn "BloomFilterBuildExec" left pr.buildCol = .ok li ∧
    keyColumn "BloomFilterProbeExec" right pr.probeCol = .ok ri

theorem BloomPair.readsOwn_iff {pr : BloomPair S} {left right : Schema}
    (hb : lookupField left pr.key.1.fmt = some pr.buildCol)
    (hp : lookupField right pr.key.2.fmt = some pr.probeCol) :
    pr.ReadsOwn left right ↔
      PredicateTransfer.ReadsOwn left pr.key.1 ∧ PredicateTransfer.ReadsOwn right pr.key.2 := by
  unfold BloomPair.ReadsOwn PredicateTransfer.ReadsOwn
  simp only [keyColumn_eq_ok, readColumn, hb, hp, Option.bind_some]
  constructor
  · rintro ⟨ln, li, rn, ri, hkey, hl, hr⟩
    rw [hkey]
    exact ⟨⟨ln, li, rfl, hl⟩, ⟨rn, ri, rfl, hr⟩⟩
  · rintro ⟨⟨ln, li, hln, hl⟩, ⟨rn, ri, hrn, hr⟩⟩
    exact ⟨ln, li, rn, ri, Prod.ext hln hrn, hl, hr⟩

/-- **When the lookup is right.** An inner join on columns of its children gets one pair for each
of its keys. All of these read the keys' own columns exactly when, on both sides of every key, no
earlier field has a name that occurs in the printed key. -/
theorem inserted_reads_own_iff {H : Host S} {j : HashJoinExec S} {l r q : ExecutionPlan S}
    {edges : List JoinEdge} {next next' : Nat} (hinner : j.joinType = .inner)
    (hcols : j.KeysAreColumns l.schema r.schema) (hedges : edges ≠ [])
    (h : insertBloomFilters H (.hashJoin j l r) edges next = .ok (q, next')) :
    ∃ l' r' prs, q = .hashJoin j (stackBuild l' prs) (stackProbe r' prs) ∧
      l'.schema = l.schema ∧ r'.schema = r.schema ∧ prs.map (·.key) = j.on ∧
      ((∀ pr ∈ prs, pr.ReadsOwn l'.schema r'.schema) ↔
        j.NoEarlierMatches l.schema r.schema) := by
  rw [insertBloomFilters, List.isEmpty_eq_false_iff.2 hedges] at h
  obtain ⟨l', n₁, r', n₂, hl, hr, rfl, -⟩ := insertWith_hashJoin h
  have hls := insertWith_schema hl
  have hrs := insertWith_schema hr
  have hpairs := joinPairs_pairsFor (fun _ _ _ => true) j l' r' n₂
  rw [← hls, ← hrs] at hcols
  have hkeys : (joinPairs (fun _ _ _ => true) j l' r' n₂).map (·.key) = j.on := by
    have hall (ss : List (Site S)) : ss.filter (Keep.passes fun _ _ _ => true) = ss :=
      List.filter_eq_self.2 fun _ _ => rfl
    rw [joinPairs, map_key_numbered, HashJoinExec.sites, if_pos hinner, hall,
      joinSites_of_columns hcols]
  refine ⟨l', r', _, rfl, hls, hrs, hkeys, ?_⟩
  rw [← hls, ← hrs, ← keysReadOwn_iff hcols, HashJoinExec.KeysReadOwn]
  constructor
  · intro hall key hkey
    rw [← hkeys] at hkey
    obtain ⟨pr, hpr, rfl⟩ := List.mem_map.1 hkey
    exact (BloomPair.readsOwn_iff (hpairs.buildCol pr hpr) (hpairs.probeCol pr hpr)).1 (hall pr hpr)
  · intro hall pr hpr
    exact (BloomPair.readsOwn_iff (hpairs.buildCol pr hpr) (hpairs.probeCol pr hpr)).2
      (hall pr.key (hpairs.entries.subset (List.mem_map_of_mem hpr)))

/-- A scan with the given field names. -/
def namedScan (table : String) (names : List String) : ExecutionPlan scanSig :=
  .other (table, names.map (⟨·, .int64, true⟩)) []

/-- An inner join of two scans on one key. -/
def keyJoin (left right : PhysicalExpr scanSig) : HashJoinExec scanSig where
  on := [(left, right)]
  filter := none
  joinType := .inner
  mode := .partitioned
  projection := none
  nullEquality := .nullEqualsNothing
  nullAware := false
  fetch := none

theorem keyJoin_reads_own :
    ∃ l' r' prs,
      (ExecutionPlan.hashJoin (keyJoin (.column "a" 1) (.column "b" 0))
          (.bloomBuild "a" 0 (namedScan "l" ["ab", "a"]))
          (.bloomProbe "b" 0 (namedScan "r" ["b"])) :
        ExecutionPlan scanSig) =
        .hashJoin (keyJoin (.column "a" 1) (.column "b" 0)) (stackBuild l' prs)
          (stackProbe r' prs) ∧
      l'.schema = (namedScan "l" ["ab", "a"]).schema ∧
      r'.schema = (namedScan "r" ["b"]).schema ∧
      prs.map (·.key) = [(.column "a" 1, .column "b" 0)] ∧
      ((∀ pr ∈ prs, pr.ReadsOwn l'.schema r'.schema) ↔
        (keyJoin (.column "a" 1) (.column "b" 0)).NoEarlierMatches
          (namedScan "l" ["ab", "a"]).schema (namedScan "r" ["b"]).schema) := by
  have hcols : (keyJoin (.column "a" 1) (.column "b" 0)).KeysAreColumns
      (namedScan "l" ["ab", "a"]).schema (namedScan "r" ["b"]).schema := by
    intro key hkey
    cases List.mem_singleton.1 hkey
    exact ⟨_, _, _, _, rfl, by decide, by decide⟩
  have h : insertBloomFilters acceptAll
      (.hashJoin (keyJoin (.column "a" 1) (.column "b" 0)) (namedScan "l" ["ab", "a"])
        (namedScan "r" ["b"])) [⟨"a@1", "b@0"⟩] 0 = .ok (_, 1) := rfl
  exact inserted_reads_own_iff rfl hcols (by simp) h

/-- The name `a` of the first field occurs in `ab@1`, so the build operator inserted for the key
`ab@1` is told to read `a` and reads index 0. -/
theorem keyJoin_reads_other :
    (keyJoin (.column "ab" 1) (.column "b" 0)).KeysAreColumns
      (namedScan "l" ["a", "ab"]).schema (namedScan "r" ["b"]).schema ∧
    insertBloomFilters acceptAll
        (.hashJoin (keyJoin (.column "ab" 1) (.column "b" 0)) (namedScan "l" ["a", "ab"])
          (namedScan "r" ["b"])) [⟨"ab@1", "b@0"⟩] 0 =
      .ok (.hashJoin (keyJoin (.column "ab" 1) (.column "b" 0))
        (.bloomBuild "a" 0 (namedScan "l" ["a", "ab"])) (.bloomProbe "b" 0 (namedScan "r" ["b"])),
        1) ∧
    keyColumn "BloomFilterBuildExec" (namedScan "l" ["a", "ab"]).schema "a" = .ok 0 ∧
    ¬ BloomPair.ReadsOwn ⟨(.column (S := scanSig) "ab" 1, .column "b" 0), "a", "b", 0⟩
      (namedScan "l" ["a", "ab"]).schema (namedScan "r" ["b"]).schema := by
  refine ⟨fun key hkey => ?_, rfl, rfl, ?_⟩
  · cases List.mem_singleton.1 hkey
    exact ⟨_, _, _, _, rfl, by decide, by decide⟩
  · rintro ⟨ln, li, rn, ri, hkey, hl, -⟩
    cases hkey
    have : (Except.ok 0 : Except DataFusionError Nat) = .ok 1 := hl
    cases this

end PredicateTransfer
