import PredicateTransfer.BfModel
import PredicateTransfer.InsertProof
import PredicateTransfer.KnapsackSelect

/-!
# The candidates of the ML policy

`collect_ml_candidates` walks a plan, left child first, and pushes one candidate for each resolved
key of an inner join; a candidate's key ends in the number of candidates pushed before it.

`scored` is the same collection without the accumulator, each site with the weight and the
predicted probability of its join's build side. The list `collect_ml_candidates` returns is that
of the scored sites, numbered (`collectMlCandidates_eq`), and these are the `sites` of the plan in
the order in which the rewrites reach them (`scored_sites`). Their positions are pairwise
different, and so are the keys (`nodup_key_candidatesFrom`).
-/

namespace PredicateTransfer

variable {S : Sig} {K : Type}

/-! ## Features -/

/-- `extract_features`: build cardinality, distinct estimate, filter size in bytes, build time in
ms, and distinctness ratio. -/
def extractFeatures [DivisionRing K] [LinearOrder K] (H : Host S) (buildSide : ExecutionPlan S) :
    Vector K 5 :=
  let buildCardinality : K := match H.partitionStatistics buildSide with
    | .ok numRows => ((numRows.getD 10000 : Nat) : K)
    | .error _ => 10000
  -- 80 % distinct values are assumed, 2 bytes and 0.0017 ms for each row.
  let distinctEstimate := buildCardinality * (8 / 10)
  let filterSizeBytes := buildCardinality * 2
  let buildTimeMs := buildCardinality * (17 / 10000)
  let distinctnessRatio := distinctEstimate / max buildCardinality 1
  #v[buildCardinality, distinctEstimate, filterSizeBytes, buildTimeMs, distinctnessRatio]

/-- `x as usize` for an `f64`: the fraction is dropped and the value is kept in range. -/
def floatAsUsize [DivisionRing K] [LinearOrder K] [FloorSemiring K] (x : K) : Nat :=
  min ⌊x⌋₊ (2 ^ 64 - 1)

/-! ## Collecting -/

/-- The loop over `hash_join.on()`. -/
def pushCandidates (weightBytes : Nat) (predProb : K) (left right : Schema) :
    List (PhysicalExpr S × PhysicalExpr S) → List (MlCandidate K) → List (MlCandidate K)
  | [], candidates => candidates
  | key :: on, candidates =>
    match lookupField left key.1.fmt, lookupField right key.2.fmt with
    | some buildCol, some probeCol =>
      pushCandidates weightBytes predProb left right on
        (candidates ++ [⟨s!"{buildCol}_{candidates.length}", buildCol, probeCol, weightBytes,
          predProb⟩])
    | _, _ => pushCandidates weightBytes predProb left right on candidates

section
variable [DivisionRing K] [LinearOrder K] [FloorSemiring K]
variable (H : Host S) (exp : K → K) (model : GbtModel K)

mutual

/-- `collect_ml_candidates`. It fails where the inference does. -/
def collectMlCandidates :
    ExecutionPlan S → List (MlCandidate K) → Option (List (MlCandidate K))
  | .hashJoin j l r, candidates =>
    if j.joinType = .inner then do
      let candidates ← collectMlCandidates l candidates
      let candidates ← collectMlCandidates r candidates
      let features : Vector K 5 := extractFeatures H l
      let weightBytes := floatAsUsize features[2]
      let predProb ← predictProba exp features.toList model
      return pushCandidates weightBytes predProb l.schema r.schema j.on candidates
    else do
      let candidates ← collectMlCandidates l candidates
      collectMlCandidates r candidates
  | .bloomBuild _ _ i, candidates => collectMlCandidates i candidates
  | .bloomProbe _ _ i, candidates => collectMlCandidates i candidates
  | .other _ cs, candidates => collectMlCandidatesAll cs candidates

def collectMlCandidatesAll :
    List (ExecutionPlan S) → List (MlCandidate K) → Option (List (MlCandidate K))
  | [], candidates => some candidates
  | c :: cs, candidates => do
    let candidates ← collectMlCandidates c candidates
    collectMlCandidatesAll cs candidates

end

end

/-! ## Scored sites -/

/-- A site with the weight and the predicted probability of its filter. -/
structure Scored (S : Sig) (K : Type) where
  site : Site S
  weightBytes : Nat
  predProb : K

def Scored.under (i : Nat) (x : Scored S K) : Scored S K := { x with site := x.site.under i }

/-- The candidate pushed for a scored site as number `n`. -/
def Scored.candidate (n : Nat) (x : Scored S K) : MlCandidate K :=
  ⟨s!"{x.site.buildCol}_{n}", x.site.buildCol, x.site.probeCol, x.weightBytes, x.predProb⟩

/-- The candidates pushed for the scored sites, from number `n` on. -/
def candidatesFrom : Nat → List (Scored S K) → List (MlCandidate K)
  | _, [] => []
  | n, x :: xs => x.candidate n :: candidatesFrom (n + 1) xs

section
variable [DivisionRing K] [LinearOrder K] [FloorSemiring K]
variable (H : Host S) (exp : K → K) (model : GbtModel K)

/-- The scored keys of one join with the build side `l`. -/
def scoredKeys (j : HashJoinExec S) (l : ExecutionPlan S) (right : Schema) :
    Option (List (Scored S K)) :=
  if j.joinType = .inner then do
    let features : Vector K 5 := extractFeatures H l
    let predProb ← predictProba exp features.toList model
    return (j.sites l.schema right).map (⟨·, floatAsUsize features[2], predProb⟩)
  else some []

mutual

/-- The scored sites of a plan. -/
def scored : ExecutionPlan S → Option (List (Scored S K))
  | .hashJoin j l r => do
    let left ← scored l
    let right ← scored r
    let own ← scoredKeys H exp model j l r.schema
    return left.map (Scored.under 0) ++ right.map (Scored.under 1) ++ own
  | .bloomBuild _ _ i => (scored i).map (List.map (Scored.under 0))
  | .bloomProbe _ _ i => (scored i).map (List.map (Scored.under 0))
  | .other _ cs => scoredAll 0 cs

def scoredAll : Nat → List (ExecutionPlan S) → Option (List (Scored S K))
  | _, [] => some []
  | i, c :: cs => do
    let first ← scored c
    let rest ← scoredAll (i + 1) cs
    return first.map (Scored.under i) ++ rest

end

end

theorem candidatesFrom_append (n : Nat) (xs ys : List (Scored S K)) :
    candidatesFrom n (xs ++ ys) = candidatesFrom n xs ++ candidatesFrom (n + xs.length) ys := by
  induction xs generalizing n with
  | nil => rfl
  | cons x xs ih =>
    rw [List.cons_append, candidatesFrom, candidatesFrom, ih, List.length_cons, List.cons_append]
    congr 3
    omega

theorem candidatesFrom_under (n i : Nat) (xs : List (Scored S K)) :
    candidatesFrom n (xs.map (Scored.under i)) = candidatesFrom n xs := by
  induction xs generalizing n with
  | nil => rfl
  | cons x xs ih =>
    rw [List.map_cons, candidatesFrom, candidatesFrom, ih]
    rfl

theorem length_candidatesFrom (n : Nat) (xs : List (Scored S K)) :
    (candidatesFrom n xs).length = xs.length := by
  induction xs generalizing n with
  | nil => rfl
  | cons x xs ih => rw [candidatesFrom, List.length_cons, List.length_cons, ih]

/-- The candidates of two lists, pushed one after the other. -/
theorem append_candidatesFrom (acc : List (MlCandidate K)) (xs ys : List (Scored S K)) :
    acc ++ candidatesFrom acc.length xs ++
        candidatesFrom (acc ++ candidatesFrom acc.length xs).length ys =
      acc ++ candidatesFrom acc.length (xs ++ ys) := by
  rw [candidatesFrom_append, List.length_append, length_candidatesFrom, List.append_assoc]

theorem pushCandidates_eq (w : Nat) (pr : K) (left right : Schema) (k : Nat)
    (on : List (PhysicalExpr S × PhysicalExpr S)) (acc : List (MlCandidate K)) :
    pushCandidates w pr left right on acc =
      acc ++ candidatesFrom acc.length ((joinSites k on left right).map (⟨·, w, pr⟩)) := by
  induction on generalizing k acc with
  | nil => simp [pushCandidates, joinSites, candidatesFrom]
  | cons key on ih =>
    unfold pushCandidates joinSites
    cases hl : lookupField left key.1.fmt with
    | none => exact ih (k + 1) acc
    | some b =>
      cases hr : lookupField right key.2.fmt with
      | none => exact ih (k + 1) acc
      | some q =>
        simp only [List.map_cons, candidatesFrom]
        rw [ih (k + 1)]
        simp [Scored.candidate]

section
variable [DivisionRing K] [LinearOrder K] [FloorSemiring K]
variable {H : Host S} {exp : K → K} {model : GbtModel K}

/-- **The candidates are the scored sites, numbered.** -/
theorem collectMlCandidates_eq (p : ExecutionPlan S) (acc : List (MlCandidate K)) :
    collectMlCandidates H exp model p acc =
      (scored H exp model p).map fun xs => acc ++ candidatesFrom acc.length xs := by
  induction p generalizing acc with
  | hashJoin j l r ihl ihr =>
    rw [collectMlCandidates, scored]
    simp only [ihl, ihr]
    cases scored H exp model l with
    | none => split_ifs <;> rfl
    | some xs =>
      cases scored H exp model r with
      | none => split_ifs <;> rfl
      | some ys =>
        by_cases hj : j.joinType = .inner
        · simp only [scoredKeys, if_pos hj, bind, Option.bind, Option.map]
          cases predictProba exp (extractFeatures H l : Vector K 5).toList model with
          | none => rfl
          | some pr =>
            simp only [pure, HashJoinExec.sites, if_pos hj, append_candidatesFrom]
            rw [pushCandidates_eq _ _ _ _ 0, append_candidatesFrom, candidatesFrom_append,
              candidatesFrom_append, candidatesFrom_append, candidatesFrom_append,
              candidatesFrom_under, candidatesFrom_under]
            simp only [List.length_append, List.length_map]
        · simp only [scoredKeys, if_neg hj, bind, Option.bind, Option.map, append_candidatesFrom,
            pure, List.append_nil]
          rw [candidatesFrom_append, candidatesFrom_append, candidatesFrom_under,
            candidatesFrom_under, List.length_map]
  | bloomBuild k c i ih =>
    rw [collectMlCandidates, scored, ih, Option.map_map]
    congr 1
    funext xs
    rw [Function.comp_apply, candidatesFrom_under]
  | bloomProbe k c i ih =>
    rw [collectMlCandidates, scored, ih, Option.map_map]
    congr 1
    funext xs
    rw [Function.comp_apply, candidatesFrom_under]
  | other op cs ih =>
    rw [collectMlCandidates, scored]
    generalize 0 = i
    induction cs generalizing acc i with
    | nil => simp [collectMlCandidatesAll, scoredAll, candidatesFrom]
    | cons c cs ihcs =>
      have hcs := fun acc => ihcs (fun d hd => ih d (List.mem_cons_of_mem _ hd)) acc (i + 1)
      rw [collectMlCandidatesAll, scoredAll, ih c List.mem_cons_self]
      cases scored H exp model c with
      | none => rfl
      | some xs =>
        simp only [bind, Option.bind, Option.map, hcs]
        cases scoredAll H exp model (i + 1) cs with
        | none => rfl
        | some ys =>
          simp only [append_candidatesFrom, pure]
          rw [candidatesFrom_append, candidatesFrom_append, candidatesFrom_under, List.length_map]

omit [DivisionRing K] [LinearOrder K] [FloorSemiring K] in
theorem map_site_under (i : Nat) (xs : List (Scored S K)) :
    (xs.map (Scored.under i)).map (·.site) = (xs.map (·.site)).map (Site.under i) := by
  rw [List.map_map, List.map_map]
  rfl

/-- What is to be shown of the scored sites of every plan is shown node by node. -/
theorem scored_induct (motive : ExecutionPlan S → List (Scored S K) → Prop)
    (motiveAll : Nat → List (ExecutionPlan S) → List (Scored S K) → Prop)
    (hashJoin : ∀ j l r ls rs own, motive l ls → motive r rs →
      scoredKeys H exp model j l r.schema = some own →
      motive (.hashJoin j l r) (ls.map (Scored.under 0) ++ rs.map (Scored.under 1) ++ own))
    (bloomBuild : ∀ k c i xs, motive i xs → motive (.bloomBuild k c i) (xs.map (Scored.under 0)))
    (bloomProbe : ∀ k c i xs, motive i xs → motive (.bloomProbe k c i) (xs.map (Scored.under 0)))
    (other : ∀ op cs xs, motiveAll 0 cs xs → motive (.other op cs) xs)
    (nil : ∀ i, motiveAll i [] [])
    (cons : ∀ i c cs xs ys, motive c xs → motiveAll (i + 1) cs ys →
      motiveAll i (c :: cs) (xs.map (Scored.under i) ++ ys))
    {p : ExecutionPlan S} {xs : List (Scored S K)} (h : scored H exp model p = some xs) :
    motive p xs := by
  induction p generalizing xs with
  | hashJoin j l r ihl ihr =>
    rw [scored] at h
    obtain ⟨ls, hl, h⟩ := Option.bind_eq_some_iff.1 h
    obtain ⟨rs, hr, h⟩ := Option.bind_eq_some_iff.1 h
    obtain ⟨own, hown, h⟩ := Option.bind_eq_some_iff.1 h
    cases h
    exact hashJoin j l r ls rs own (ihl hl) (ihr hr) hown
  | bloomBuild k c i ih =>
    rw [scored] at h
    obtain ⟨ys, hi, rfl⟩ := Option.map_eq_some_iff.1 h
    exact bloomBuild k c i ys (ih hi)
  | bloomProbe k c i ih =>
    rw [scored] at h
    obtain ⟨ys, hi, rfl⟩ := Option.map_eq_some_iff.1 h
    exact bloomProbe k c i ys (ih hi)
  | other op cs ih =>
    rw [scored] at h
    apply other
    generalize 0 = i at h ⊢
    induction cs generalizing xs i with
    | nil =>
      rw [scoredAll] at h
      cases h
      exact nil i
    | cons c cs ihcs =>
      rw [scoredAll] at h
      obtain ⟨ys, hc, h⟩ := Option.bind_eq_some_iff.1 h
      obtain ⟨zs, hcs, h⟩ := Option.bind_eq_some_iff.1 h
      cases h
      exact cons i c cs ys zs (ih c List.mem_cons_self hc)
        (ihcs (fun d hd => ih d (List.mem_cons_of_mem _ hd)) (i + 1) hcs)

theorem scoredKeys_sites {j : HashJoinExec S} {l : ExecutionPlan S} {right : Schema}
    {own : List (Scored S K)} (h : scoredKeys H exp model j l right = some own) :
    own.map (·.site) = j.sites l.schema right := by
  unfold scoredKeys at h
  split_ifs at h with hj
  · obtain ⟨pr, -, h⟩ := Option.bind_eq_some_iff.1 h
    cases h
    rw [List.map_map]
    exact List.map_id _
  · cases h
    rw [HashJoinExec.sites, if_neg hj]
    rfl

/-- **The scored sites are the sites of the plan**, in the same order. -/
theorem scored_sites {p : ExecutionPlan S} {xs : List (Scored S K)}
    (h : scored H exp model p = some xs) : xs.map (·.site) = sites p := by
  refine scored_induct (fun p xs => xs.map (·.site) = sites p)
    (fun i cs xs => xs.map (·.site) = sitesAll i cs) ?_ ?_ ?_ ?_ ?_ ?_ h
  · intro j l r ls rs own hl hr hown
    rw [sites, List.map_append, List.map_append, map_site_under, map_site_under, hl, hr,
      scoredKeys_sites hown]
  · intro k c i xs hi
    rw [sites, map_site_under, hi]
  · intro k c i xs hi
    rw [sites, map_site_under, hi]
  · intro op cs xs hcs
    rw [sites, hcs]
  · intro i
    rfl
  · intro i c cs xs ys hc hcs
    rw [sitesAll, List.map_append, map_site_under, hc, hcs]

end

/-! ## Positions and keys are unique -/

theorem joinSites_pos {k : Nat} {on : List (PhysicalExpr S × PhysicalExpr S)}
    {left right : Schema} {s : Site S} (h : s ∈ joinSites k on left right) :
    s.pos.path = [] ∧ k ≤ s.pos.key := by
  induction on generalizing k with
  | nil => cases h
  | cons key on ih =>
    unfold joinSites at h
    split at h
    · rcases List.mem_cons.1 h with rfl | h
      · exact ⟨rfl, le_rfl⟩
      · obtain ⟨hpath, hle⟩ := ih h
        exact ⟨hpath, by omega⟩
    · obtain ⟨hpath, hle⟩ := ih h
      exact ⟨hpath, by omega⟩

theorem nodup_pos_joinSites (k : Nat) (on : List (PhysicalExpr S × PhysicalExpr S))
    (left right : Schema) : ((joinSites k on left right).map (·.pos)).Nodup := by
  induction on generalizing k with
  | nil => exact List.nodup_nil
  | cons key on ih =>
    unfold joinSites
    split
    · rw [List.map_cons, List.nodup_cons]
      refine ⟨fun hmem => ?_, ih (k + 1)⟩
      obtain ⟨s, hs, heq⟩ := List.mem_map.1 hmem
      have hle := (joinSites_pos hs).2
      rw [heq] at hle
      exact absurd hle (Nat.not_succ_le_self k)
    · exact ih (k + 1)

theorem nodup_pos_under {ss : List (Site S)} (h : (ss.map (·.pos)).Nodup) (i : Nat) :
    ((ss.map (Site.under i)).map (·.pos)).Nodup := by
  have hmap : (ss.map (Site.under i)).map (·.pos) = (ss.map (·.pos)).map (Position.under i) := by
    rw [List.map_map, List.map_map]
    rfl
  rw [hmap]
  exact h.map (Position.under_injective i)

theorem head?_of_mem_under {ss : List (Site S)} {i : Nat} {pos : Position}
    (h : pos ∈ (ss.map (Site.under i)).map (·.pos)) : pos.path.head? = some i := by
  rw [List.map_map] at h
  obtain ⟨s, -, rfl⟩ := List.mem_map.1 h
  rfl

theorem head?_of_mem_sitesAll {i : Nat} {cs : List (ExecutionPlan S)} {pos : Position}
    (h : pos ∈ (sitesAll i cs).map (·.pos)) : ∃ m, i ≤ m ∧ pos.path.head? = some m := by
  induction cs generalizing i with
  | nil => cases h
  | cons c cs ih =>
    rw [sitesAll, List.map_append] at h
    rcases List.mem_append.1 h with h | h
    · exact ⟨i, le_rfl, head?_of_mem_under h⟩
    · obtain ⟨m, hm, hhead⟩ := ih h
      exact ⟨m, by omega, hhead⟩

/-- **No two sites of a plan have the same position.** The sites of a join's left child, of its
right child and of the join itself differ in the first step of their paths. -/
theorem nodup_pos_sites (p : ExecutionPlan S) : ((sites p).map (·.pos)).Nodup := by
  induction p with
  | hashJoin j l r ihl ihr =>
    have hown : ((j.sites l.schema r.schema).map (·.pos)).Nodup := by
      unfold HashJoinExec.sites
      split_ifs
      · exact nodup_pos_joinSites 0 j.on l.schema r.schema
      · exact List.nodup_nil
    have hhead : ∀ pos ∈ (j.sites l.schema r.schema).map (·.pos), pos.path.head? = none := by
      intro pos hpos
      obtain ⟨s, hs, rfl⟩ := List.mem_map.1 hpos
      unfold HashJoinExec.sites at hs
      split_ifs at hs
      · rw [(joinSites_pos hs).1]
        rfl
      · cases hs
    rw [sites, List.map_append, List.map_append]
    refine ((nodup_pos_under ihl 0).append (nodup_pos_under ihr 1) ?_).append hown ?_
    · intro pos hl hr
      have hne := (head?_of_mem_under hl).symm.trans (head?_of_mem_under hr)
      cases hne
    · intro pos hlr ho
      rcases List.mem_append.1 hlr with h | h
      · cases (head?_of_mem_under h).symm.trans (hhead pos ho)
      · cases (head?_of_mem_under h).symm.trans (hhead pos ho)
  | bloomBuild k c i ih =>
    rw [sites]
    exact nodup_pos_under ih 0
  | bloomProbe k c i ih =>
    rw [sites]
    exact nodup_pos_under ih 0
  | other op cs ih =>
    rw [sites]
    generalize 0 = i
    induction cs generalizing i with
    | nil => exact List.nodup_nil
    | cons c cs ihcs =>
      rw [sitesAll, List.map_append]
      refine (nodup_pos_under (ih c List.mem_cons_self) i).append
        (ihcs (fun d hd => ih d (List.mem_cons_of_mem _ hd)) (i + 1)) ?_
      intro pos hc hcs
      obtain ⟨m, hm, hhead⟩ := head?_of_mem_sitesAll hcs
      have heq := Option.some.inj ((head?_of_mem_under hc).symm.trans hhead)
      omega

/-- The number at the end of a candidate's key can be read off: printed numbers have no
underscore. -/
theorem number_eq_of_key_eq {a b : String} {m n : Nat} (h : s!"{a}_{m}" = s!"{b}_{n}") :
    m = n := by
  have hdigits : ∀ (s : String) (k : Nat),
      (s!"{s}_{k}".toList.reverse.takeWhile (· ≠ '_')) = (Nat.toDigits 10 k).reverse := by
    intro s k
    have hnot : ∀ c ∈ (Nat.toDigits 10 k).reverse, decide (c ≠ '_') = true := by
      intro c hc
      have hc' : c ∈ Nat.toDigits 10 k := List.mem_reverse.1 hc
      simp only [decide_eq_true_eq]
      rintro rfl
      exact Nat.underscore_not_in_toDigits hc'
    have hlist : s!"{s}_{k}".toList.reverse =
        (Nat.toDigits 10 k).reverse ++ '_' :: s.toList.reverse := by
      show (s ++ "_" ++ toString k).toList.reverse = _
      simp
    rw [hlist, List.takeWhile_append_of_pos hnot]
    simp
  have hrev := hdigits a m
  rw [h, hdigits b n] at hrev
  have hlist : Nat.toDigits 10 n = Nat.toDigits 10 m := List.reverse_injective hrev
  have hvalue := congrArg (Nat.ofDigitChars 10 · 0) hlist
  simp only [Nat.ofDigitChars_ten_toDigits] at hvalue
  exact hvalue.symm

theorem mem_candidatesFrom {n : Nat} {xs : List (Scored S K)} {c : MlCandidate K}
    (h : c ∈ candidatesFrom n xs) : ∃ m, n ≤ m ∧ ∃ x ∈ xs, c = x.candidate m := by
  induction xs generalizing n with
  | nil => cases h
  | cons x xs ih =>
    rcases List.mem_cons.1 h with rfl | h
    · exact ⟨n, le_rfl, x, List.mem_cons_self, rfl⟩
    · obtain ⟨m, hm, y, hy, heq⟩ := ih h
      exact ⟨m, by omega, y, List.mem_cons_of_mem _ hy, heq⟩

/-- **No two candidates have the same key.** -/
theorem nodup_key_candidatesFrom (n : Nat) (xs : List (Scored S K)) :
    ((candidatesFrom n xs).map (·.key)).Nodup := by
  induction xs generalizing n with
  | nil => exact List.nodup_nil
  | cons x xs ih =>
    rw [candidatesFrom, List.map_cons, List.nodup_cons]
    refine ⟨fun hmem => ?_, ih (n + 1)⟩
    obtain ⟨c, hc, heq⟩ := List.mem_map.1 hmem
    obtain ⟨m, hm, y, -, rfl⟩ := mem_candidatesFrom hc
    have hnum := number_eq_of_key_eq heq
    omega

section
variable [DivisionRing K] [LinearOrder K] [FloorSemiring K]
variable {H : Host S} {exp : K → K} {model : GbtModel K}

/-- **A key identifies a candidate**, whatever the columns are called: all candidates of a plan have
different keys, so each key that is selected is that of one of them. -/
theorem collectMlCandidates_keys_identify {p : ExecutionPlan S} {candidates : List (MlCandidate K)}
    (h : collectMlCandidates H exp model p [] = some candidates) :
    (candidates.map (·.key)).Nodup ∧
    ∀ budgetBytes selected, knapsackSelect candidates budgetBytes = some selected →
      ∀ key ∈ selected, ∃! i : Fin candidates.length, (candidates.get i).key = key := by
  rw [collectMlCandidates_eq] at h
  obtain ⟨xs, -, hxs⟩ := Option.map_eq_some_iff.1 h
  have hnodup : (candidates.map (·.key)).Nodup := hxs ▸ nodup_key_candidatesFrom 0 xs
  refine ⟨hnodup, fun budgetBytes selected hsel key hkey => ?_⟩
  rw [knapsackSelect_eq] at hsel
  obtain rfl := Option.some.inj hsel
  obtain ⟨c, hc, rfl⟩ := List.mem_map.1 (List.mem_toFinset.1 hkey)
  have hmem : c ∈ candidates :=
    (reverse_selectedCandidates_sublist candidates budgetBytes).subset (List.mem_reverse.2 hc)
  obtain ⟨i, rfl⟩ := List.get_of_mem hmem
  refine ⟨i, rfl, fun j hj => ?_⟩
  have hget := List.inj_on_of_nodup_map hnodup (List.get_mem candidates j)
    (List.get_mem candidates i) hj
  exact (hnodup.of_map _).get_inj_iff.1 hget

end

/-- Two joins whose build columns are `a` and `a_1`: the keys are `a_1` and `a_1_0`, in the other
order. -/
theorem collectMlCandidates_keys_identify_underscores :
    let plan : ExecutionPlan scanSig := .hashJoin (keyJoin (.column "a" 0) (.column "a_1" 0))
      (namedScan "t" ["a"]) (.hashJoin (keyJoin (.column "a_1" 0) (.column "b" 0))
        (namedScan "u" ["a_1"]) (namedScan "v" ["b"]))
    let candidates : List (MlCandidate ℚ) :=
      [⟨"a_1_0", "a_1", "b", 20000, 1 / 2⟩, ⟨"a_1", "a", "a_1", 20000, 1 / 2⟩]
    collectMlCandidates acceptAll (fun _ => 1) ⟨[], 0, 1, 0, []⟩ plan [] = some candidates ∧
    (candidates.map (·.key)).Nodup ∧ knapsackSelect candidates 40960 = some {"a_1_0", "a_1"} ∧
    ∃! i : Fin candidates.length, (candidates.get i).key = "a_1" := by
  intro plan candidates
  have hcands : collectMlCandidates acceptAll (fun _ => 1) ⟨[], 0, 1, 0, []⟩ plan [] =
      some candidates := by decide +kernel
  have hsel : knapsackSelect candidates 40960 = some {"a_1_0", "a_1"} := by decide +kernel
  obtain ⟨hnodup, hidentify⟩ := collectMlCandidates_keys_identify hcands
  exact ⟨hcands, hnodup, hsel, hidentify 40960 _ hsel _ (by simp)⟩

end PredicateTransfer
