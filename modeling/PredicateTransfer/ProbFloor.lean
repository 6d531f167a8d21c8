import PredicateTransfer.Rule

/-!
# The probability floor

`optimize` reads `BF_PROB_FLOOR`, prints it, and hands only the model and the budget to the
rewrite. So a filter is inserted whatever its predicted probability, if there is room for it.

**Theorem (`optimize_honours_floor`).** Under the `ml_guided` policy the floor holds if it holds for
every resolved key of the plan, and for all budgets only then.

A budget with room for all filters makes the rewrite insert them all
(`insertBloomFiltersMl_eq_insertBloomFilters`), since predicted probabilities are positive; and how
many pairs a plan was given says which test they passed, if it was all of them
(`Placed.length_senders`).
-/

namespace PredicateTransfer

open ExecutionPlan

variable {S : Sig} {K : Type}

/-! ## How many pairs were placed -/

/-- A plan has one more build operator for each site that passed. -/
theorem Placed.length_senders {keep : Keep} {p q : ExecutionPlan S} (h : Placed keep p q) :
    (q.senders .build).length =
      (p.senders .build).length + ((sites p).filter keep.passes).length := by
  induction p generalizing keep q with
  | hashJoin j l r ihl ihr =>
    rw [Placed] at h
    obtain ⟨l', r', prs, hl, hr, hprs, rfl⟩ := h
    have hlen := congrArg List.length hprs
    rw [List.length_map, List.length_map] at hlen
    rw [senders, senders_stackBuild, senders_stackProbe, senders, sites]
    simp only [List.length_append, List.filter_append, length_filter_under, ihl hl, ihr hr,
      List.length_map, if_true, hlen, reduceCtorEq, if_false, List.length_nil]
    omega
  | bloomBuild k c i ih =>
    rw [Placed] at h
    obtain ⟨i', hi, rfl⟩ := h
    rw [senders, senders, sites, length_filter_under]
    simp only [List.length_append, ih hi]
    omega
  | bloomProbe k c i ih =>
    rw [Placed] at h
    obtain ⟨i', hi, rfl⟩ := h
    rw [senders, senders, sites, length_filter_under]
    simp only [List.length_append, ih hi]
    omega
  | other op cs ih =>
    rw [Placed] at h
    obtain ⟨cs', hcs, rfl⟩ := h
    rw [senders, senders, sites]
    generalize 0 = i at hcs ⊢
    induction cs generalizing cs' i with
    | nil =>
      rw [PlacedAll] at hcs
      subst hcs
      rfl
    | cons c cs ihcs =>
      rw [PlacedAll] at hcs
      obtain ⟨c', ds, hc, hds, rfl⟩ := hcs
      rw [sendersAll, sendersAll, sitesAll]
      simp only [List.length_append, List.filter_append, length_filter_under,
        ih c List.mem_cons_self hc,
        ihcs (fun d hd => ih d (List.mem_cons_of_mem _ hd)) ds (i + 1) hds]
      omega

/-- If every site was given a pair, every test that tells where the pairs are passes them all. -/
theorem Placed.passes_of_all {keep keep' : Keep} {p q : ExecutionPlan S} (h : Placed keep p q)
    (hall : ∀ s ∈ sites p, keep.passes s = true) (h' : Placed keep' p q) :
    ∀ s ∈ sites p, keep'.passes s = true := by
  have hlen : ((sites p).filter keep'.passes).length = (sites p).length := by
    have hcount := h.length_senders.symm.trans h'.length_senders
    rw [List.filter_eq_self.2 hall] at hcount
    omega
  exact List.length_filter_eq_length_iff.1 hlen

/-! ## Predicted probabilities -/

section
variable [DivisionRing K] [LinearOrder K] [FloorSemiring K] {H : Host S} {exp : K → K}
  {model : GbtModel K}

omit [FloorSemiring K] in
/-- The sigmoid of a score is positive. -/
theorem predictProba_pos [IsStrictOrderedRing K] (hexp : ∀ y, 0 < exp y) {features : List K}
    {pr : K} (h : predictProba exp features model = some pr) : 0 < pr := by
  rw [predictProba] at h
  obtain ⟨score, -, h⟩ := Option.bind_eq_some_iff.1 h
  cases h
  have hden : 0 < 1 + exp (-score) := add_pos one_pos (hexp _)
  exact one_div_pos.2 hden

omit [DivisionRing K] [LinearOrder K] in
theorem predProb_under {P : K → Prop} (i : Nat) {ys : List (Scored S K)}
    (h : ∀ y ∈ ys, P y.predProb) : ∀ x ∈ ys.map (Scored.under i), P x.predProb := by
  intro x hx
  obtain ⟨y, hy, rfl⟩ := List.mem_map.1 hx
  exact h y hy

/-- The keys of one join are scored by one prediction. -/
theorem scoredKeys_predProb {P : K → Prop}
    (hP : ∀ features pr, predictProba exp features model = some pr → P pr) {j : HashJoinExec S}
    {l : ExecutionPlan S} {right : Schema} {own : List (Scored S K)}
    (h : scoredKeys H exp model j l right = some own) : ∀ x ∈ own, P x.predProb := by
  unfold scoredKeys at h
  split_ifs at h
  · obtain ⟨pr, hpr, h⟩ := Option.bind_eq_some_iff.1 h
    cases h
    intro x hx
    obtain ⟨s, -, rfl⟩ := List.mem_map.1 hx
    exact hP _ pr hpr
  · cases h
    exact fun x hx => absurd hx List.not_mem_nil

/-- What holds of every prediction holds of the probabilities of the scored sites. -/
theorem scored_predProb {P : K → Prop}
    (hP : ∀ features pr, predictProba exp features model = some pr → P pr) {p : ExecutionPlan S}
    {xs : List (Scored S K)} (h : scored H exp model p = some xs) : ∀ x ∈ xs, P x.predProb := by
  refine scored_induct (fun _ xs => ∀ x ∈ xs, P x.predProb)
    (fun _ _ xs => ∀ x ∈ xs, P x.predProb) ?_ ?_ ?_ ?_ ?_ ?_ h
  · intro j l r ls rs own hl hr hown x hx
    rcases List.mem_append.1 hx with hx | hx
    · rcases List.mem_append.1 hx with hx | hx
      · exact predProb_under 0 hl x hx
      · exact predProb_under 1 hr x hx
    · exact scoredKeys_predProb hP hown x hx
  · intro k c i xs hi
    exact predProb_under 0 hi
  · intro k c i xs hi
    exact predProb_under 0 hi
  · intro op cs xs hcs
    exact hcs
  · intro i x hx
    cases hx
  · intro i c cs xs ys hc hcs x hx
    rcases List.mem_append.1 hx with hx | hx
    · exact predProb_under i hc x hx
    · exact hcs x hx

end

theorem map_weightKb_candidatesFrom (n : Nat) (xs : List (Scored S K)) :
    (candidatesFrom n xs).map MlCandidate.weightKb = xs.map fun x => toKb x.weightBytes := by
  induction xs generalizing n with
  | nil => rfl
  | cons x xs ih =>
    rw [candidatesFrom, List.map_cons, List.map_cons, ih]
    rfl

/-! ## The floor -/

/-- Every filter that was inserted has at least the probability `floor`. -/
def HonoursFloor [LE K] (floor : K) (xs : List (Scored S K)) (p q : ExecutionPlan S) : Prop :=
  ∃ keep, Placed keep p q ∧ ∀ x ∈ xs, keep.passes x.site = true → floor ≤ x.predProb

/-- The rule runs with the `ml_guided` policy, the given floor and the given model. -/
structure Guided [Zero K] (env : Env K) (proc : Process K) (floor : K) (model : GbtModel K) :
    Prop where
  policy : env.var "BF_POLICY" = some "ml_guided"
  probFloor : (mlSettings env).probFloor = floor
  loaded : (loadModelOnce env (mlSettings env).modelPath proc).1 = some model

section
variable [DivisionRing K] [LinearOrder K] [FloorSemiring K] {H : Host S} {exp : K → K}
  {model : GbtModel K} {p : ExecutionPlan S} {floor : K}

/-- A guided run is one run of the ML rewrite, whatever the floor. -/
theorem Guided.optimize_eq {env : Env K} {proc : Process K} (h : Guided env proc floor model) :
    optimize H exp env p proc =
      (insertBloomFiltersMl H exp model p (mlSettings env).budgetBytes proc.nextChannel).map
        (finish (loadModelOnce env (mlSettings env).modelPath proc).2) := by
  have hnext := loadModelOnce_nextChannel env (mlSettings env).modelPath proc
  have hloaded := h.loaded
  unfold optimize
  rw [h.policy]
  simp only [Option.getD_some, if_true]
  rcases hload : loadModelOnce env (mlSettings env).modelPath proc with ⟨m, proc'⟩
  rw [hload] at hnext hloaded
  simp only at hloaded hnext
  subst hloaded
  simp only [hnext]

/-- The settings with the largest budget there is. -/
def largestBudget (floor : K) (model : GbtModel K) : Env K where
  var name :=
    if name = "BF_POLICY" then some "ml_guided"
    else if name = "BF_MEMORY_BUDGET" then some "18446744073709551615"
    else if name = "BF_PROB_FLOOR" then some "floor"
    else none
  parseF64 _ := some floor
  readModel _ := some model

omit [LinearOrder K] [FloorSemiring K] in
theorem guided_largestBudget (floor : K) (model : GbtModel K) (next : Nat) :
    Guided (largestBudget floor model) ⟨none, next⟩ floor model ∧
      (mlSettings (largestBudget floor model)).budgetBytes = 2 ^ 64 - 1 := by
  have hparse : parseUsize "18446744073709551615" = some (2 ^ 64 - 1) := by decide +kernel
  refine ⟨⟨rfl, rfl, rfl⟩, ?_⟩
  show ((some "18446744073709551615").bind parseUsize).getD 25000 = 2 ^ 64 - 1
  rw [Option.bind_some, hparse]
  rfl

/-- A run that ends has scored every resolved key, and what it inserts is placed by some test. So if
all keys have at least the probability `floor`, the filters it inserts have it, whatever the plan
and the budget. -/
theorem Guided.honoursFloor {env : Env K} {proc proc' : Process K} {q : ExecutionPlan S}
    (hguided : Guided env proc floor model)
    (hrun : optimize H exp env p proc = some (.ok q, proc')) :
    ∃ xs, scored H exp model p = some xs ∧
      ((∀ x ∈ xs, floor ≤ x.predProb) → HonoursFloor floor xs p q) := by
  rw [hguided.optimize_eq] at hrun
  cases hscored : scored H exp model p with
  | none =>
    have hcands : collectMlCandidates H exp model p [] = none := by
      rw [collectMlCandidates_eq, hscored]
      rfl
    rw [insertBloomFiltersMl, hcands] at hrun
    cases hrun
  | some xs =>
    have hcands : collectMlCandidates H exp model p [] = some (candidatesFrom 0 xs) := by
      rw [collectMlCandidates_eq, hscored]
      rfl
    rw [insertBloomFiltersMl_eq hcands (knapsackSelect_eq _ _)] at hrun
    have hplaced := (insertBloomFiltersSelected_placed (finish_ok (Option.some.inj hrun))).1
    exact ⟨xs, rfl, fun hall => ⟨_, hplaced, fun x hx _ => hall x hx⟩⟩

/-- If the plan with all its filters can be built, and the largest budget has room for them, some
guided run inserts them all. -/
theorem exists_guided_inserts_all [IsStrictOrderedRing K] {xs : List (Scored S K)}
    (hexp : ∀ y, 0 < exp y) (hscored : scored H exp model p = some xs) (hxs : xs ≠ [])
    (hbuild : ∃ next r, insertBloomFilters H p (collectJoinEdges p) next = .ok r)
    (hroom : (xs.map fun x => toKb x.weightBytes).sum ≤ toKb (2 ^ 64 - 1)) (floor : K) :
    ∃ env proc q proc', Guided env proc floor model ∧
      optimize H exp env p proc = some (.ok q, proc') ∧ Placed (fun _ _ _ => true) p q := by
  have hcands : collectMlCandidates H exp model p [] = some (candidatesFrom 0 xs) := by
    rw [collectMlCandidates_eq, hscored]
    rfl
  have hpos : ∀ c ∈ candidatesFrom 0 xs, 0 < c.predProb := by
    intro c hc
    obtain ⟨m, -, x, hx, rfl⟩ := mem_candidatesFrom hc
    exact scored_predProb (fun _ _ => predictProba_pos hexp) hscored x hx
  have hne : sites p ≠ [] := by
    rw [← scored_sites hscored]
    exact fun hnil => hxs (List.map_eq_nil_iff.1 hnil)
  obtain ⟨next, ⟨q, next'⟩, hbuild⟩ := hbuild
  obtain ⟨hguided, hbudget⟩ := guided_largestBudget floor model next
  have hml := insertBloomFiltersMl_eq_insertBloomFilters hcands hne hpos
    (show 0 < 2 ^ 64 - 1 by decide)
    (by rw [map_weightKb_candidatesFrom]; exact hroom) next
  have hrun : optimize H exp (largestBudget floor model) p ⟨none, next⟩ = _ :=
    hguided.optimize_eq
  rw [hbudget, hml, hbuild] at hrun
  have hedges : (collectJoinEdges p).isEmpty = false := by
    rw [List.isEmpty_eq_false_iff]
    exact fun hnil => hne (sites_eq_nil hnil)
  rw [insertBloomFilters, hedges] at hbuild
  exact ⟨_, _, q, _, hguided, hrun, insertWith_placed hbuild⟩

/-- **When the floor is honoured.** A run with the `ml_guided` policy and the floor, on whatever
plan and with whatever budget, inserts only filters with a probability of at least the floor if
every resolved key has one. This is exact where a budget matters not: if the plan with all filters
can be built and some budget has room for them all, then the floor is honoured for all budgets only
if every resolved key has at least this probability. -/
theorem optimize_honours_floor [IsStrictOrderedRing K] (H : Host S) (exp : K → K)
    (model : GbtModel K) (p : ExecutionPlan S) (floor : K) :
    (∀ env proc q proc', Guided env proc floor model →
      optimize H exp env p proc = some (.ok q, proc') →
        ∃ xs, scored H exp model p = some xs ∧
          ((∀ x ∈ xs, floor ≤ x.predProb) → HonoursFloor floor xs p q)) ∧
    ∀ xs, scored H exp model p = some xs → (∀ y, 0 < exp y) →
      (∃ next r, insertBloomFilters H p (collectJoinEdges p) next = .ok r) →
      (xs.map fun x => toKb x.weightBytes).sum ≤ toKb (2 ^ 64 - 1) →
      (∀ env proc q proc', Guided env proc floor model →
        optimize H exp env p proc = some (.ok q, proc') → HonoursFloor floor xs p q) →
      ∀ x ∈ xs, floor ≤ x.predProb := by
  refine ⟨fun env proc q proc' hguided hrun => hguided.honoursFloor hrun,
    fun xs hscored hexp hbuild hroom h x hx => ?_⟩
  -- With the largest budget the run inserts every filter, the one for `x` among them.
  obtain ⟨env, proc, q, proc', hguided, hrun, hall⟩ :=
    exists_guided_inserts_all hexp hscored (List.ne_nil_of_mem hx) hbuild hroom floor
  obtain ⟨keep, hplaced, hfloor⟩ := h env proc q proc' hguided hrun
  refine hfloor x hx (hall.passes_of_all (fun _ _ => rfl) hplaced x.site ?_)
  rw [← scored_sites hscored]
  exact List.mem_map_of_mem hx

end

/-! ### A floor above every probability -/

/-- What the model says about the one key of `firstHop`. -/
theorem scored_firstHop : ∃ xs, scored acceptAll (fun _ => 1) noTrees firstHop = some xs ∧
    (xs.map fun x => toKb x.weightBytes).sum = 19 ∧ ∀ x ∈ xs, x.predProb = 1 / 2 := by
  have hmap : (scored acceptAll (fun _ => 1) noTrees firstHop).map
      (List.map fun x => (x.weightBytes, x.predProb)) = some [(20000, 1 / 2)] := by
    decide +kernel
  obtain ⟨xs, hxs, hval⟩ := Option.map_eq_some_iff.1 hmap
  refine ⟨xs, hxs, ?_, fun x hx => ?_⟩
  · have hweights := congrArg (List.map fun wp => toKb wp.1) hval
    rw [List.map_map] at hweights
    exact congrArg List.sum hweights
  · have hmem := List.mem_map_of_mem (f := fun x : Scored scanSig ℚ =>
      (x.weightBytes, x.predProb)) hx
    rw [hval, List.mem_singleton] at hmem
    exact congrArg Prod.snd hmem

/-- A floor of one half is honoured by every run on `firstHop`, one of 0.9 is not. -/
theorem optimize_firstHop_honours_floor : ∃ xs,
    scored acceptAll (fun _ => 1) noTrees firstHop = some xs ∧
      (∀ env proc q proc', Guided env proc (1 / 2) noTrees →
        optimize acceptAll (fun _ => 1) env firstHop proc = some (.ok q, proc') →
          HonoursFloor (1 / 2) xs firstHop q) ∧
      ¬ ∀ env proc q proc', Guided env proc (9 / 10) noTrees →
        optimize acceptAll (fun _ => 1) env firstHop proc = some (.ok q, proc') →
          HonoursFloor (9 / 10) xs firstHop q := by
  obtain ⟨xs, hxs, hweight, hprob⟩ := scored_firstHop
  refine ⟨xs, hxs, fun env proc q proc' hguided hrun => ?_, fun h => ?_⟩
  · obtain ⟨ys, hys, hfloor⟩ :=
      (optimize_honours_floor acceptAll (fun _ => 1) noTrees firstHop (1 / 2)).1 env proc q proc'
        hguided hrun
    cases hxs.symm.trans hys
    exact hfloor fun x hx => (hprob x hx).ge
  · have hbuild : ∃ next r, insertBloomFilters acceptAll firstHop (collectJoinEdges firstHop) next =
        .ok r := ⟨0, (firstHopBuilt, 1), rfl⟩
    have hroom : (xs.map fun x => toKb x.weightBytes).sum ≤ toKb (2 ^ 64 - 1) := by
      rw [hweight]
      decide
    have hall := (optimize_honours_floor acceptAll (fun _ => 1) noTrees firstHop (9 / 10)).2 xs hxs
      (fun _ => one_pos) hbuild hroom h
    cases xs with
    | nil => exact absurd hweight (by decide)
    | cons x xs =>
      have hx := hall x List.mem_cons_self
      rw [hprob x List.mem_cons_self] at hx
      norm_num at hx

/-- A process that asks for filters with a probability of at least 0.9. -/
def ninetyPercent : Env ℚ where
  var name :=
    if name = "BF_POLICY" then some "ml_guided"
    else if name = "BF_PROB_FLOOR" then some "0.9"
    else none
  parseF64 text := if text = "0.9" then some (9 / 10) else none
  readModel _ := some noTrees

/-- The run inserts a filter with a predicted probability of 1/2 all the same. -/
theorem optimize_ignores_floor : (mlSettings ninetyPercent).probFloor = 9 / 10 ∧
    optimize acceptAll (fun _ => 1) ninetyPercent firstHop ⟨none, 0⟩ =
      some (.ok firstHopBuilt, ⟨some (some noTrees), 1⟩) ∧
    collectMlCandidates acceptAll (fun _ => 1) noTrees firstHop [] =
      some [⟨"customer_id_0", "customer_id", "customer", 20000, 1 / 2⟩] ∧
    (firstHop.senders .build).length = 0 ∧ (firstHopBuilt.senders .build).length = 1 ∧
    (1 / 2 : ℚ) < 9 / 10 := by
  have hcands : collectMlCandidates acceptAll (fun _ => 1) noTrees firstHop [] =
      some [⟨"customer_id_0", "customer_id", "customer", 20000, 1 / 2⟩] := by decide +kernel
  have hsel : knapsackSelect [(⟨"customer_id_0", "customer_id", "customer", 20000, 1 / 2⟩ :
      MlCandidate ℚ)] 25000 = some {"customer_id_0"} := by decide +kernel
  have hguided : Guided ninetyPercent ⟨none, 0⟩ (9 / 10) noTrees := ⟨rfl, rfl, rfl⟩
  refine ⟨rfl, ?_, hcands, rfl, rfl, by norm_num⟩
  rw [hguided.optimize_eq, show (mlSettings ninetyPercent).budgetBytes = 25000 from rfl,
    insertBloomFiltersMl_eq hcands hsel]
  rfl

end PredicateTransfer
