import PredicateTransfer.MlRewrite

/-!
# The optimizer rule

`MultiHopBloomFilterRule::optimize` reads its policy from the environment, loads the model at most
once in the life of the process, and calls one of the two rewrites. Whatever it reads, what it
does to the plan is one run of `insertWith` (`optimize_insertWith`).

**Theorem (`optimize_matched`).** A plan the rule returns is the input with matched pairs on the
children of inner joins: erasing them gives the input back, and no two pairs share a channel.
-/

namespace PredicateTransfer

open ExecutionPlan

variable {S : Sig} {K : Type}

/-! ## The environment -/

/-- What the rule reads from outside: `std::env::var`, the parser of `f64`, and the model file of
a path, where there is one that `serde_json` accepts. -/
structure Env (K : Type) where
  var : String → Option String
  parseF64 : String → Option K
  readModel : String → Option (GbtModel K)

/-- `s.parse::<usize>()`: decimal digits, after a sign `+` or not, of a number below 2^64. -/
def parseUsize (s : String) : Option Nat :=
  let digits := match s.toList with
    | '+' :: digits => digits
    | digits => digits
  let n : Nat := digits.foldl (fun n c => 10 * n + (c.toNat - '0'.toNat)) 0
  if digits.isEmpty || !digits.all Char.isDigit || decide (2 ^ 64 ≤ n) then none else some n

/-- The settings of the `ml_guided` policy. -/
structure MlSettings (K : Type) where
  modelPath : String
  budgetBytes : Nat
  probFloor : K

/-- The settings, with their defaults where a variable is unset or does not parse. -/
def mlSettings [Zero K] (env : Env K) : MlSettings K where
  modelPath := (env.var "BF_MODEL_PATH").getD "ml/bf_model.json"
  budgetBytes := ((env.var "BF_MEMORY_BUDGET").bind parseUsize).getD 25000
  probFloor := ((env.var "BF_PROB_FLOOR").bind env.parseF64).getD 0

/-! ## The rule -/

/-- The state the rule keeps between its calls: `MODEL_CACHE`, once it is initialised, and the
number of the next channel. -/
structure Process (K : Type) where
  modelCache : Option (Option (GbtModel K))
  nextChannel : Nat

/-- `load_model_once`. Only the first call looks at its path. -/
def loadModelOnce (env : Env K) (path : String) (proc : Process K) :
    Option (GbtModel K) × Process K :=
  match proc.modelCache with
  | some model => (model, proc)
  | none => (env.readModel path, { proc with modelCache := some (env.readModel path) })

/-- The result of a rewrite. The channels of a failed one are dropped with it. -/
def finish (proc : Process K) :
    Except DataFusionError (ExecutionPlan S × Nat) →
      Except DataFusionError (ExecutionPlan S) × Process K
  | .ok (plan, next) => (.ok plan, { proc with nextChannel := next })
  | .error e => (.error e, proc)

/-- The policy `always_build`, which is also the fallback. -/
def alwaysBuild (H : Host S) (plan : ExecutionPlan S) (next : Nat) :
    Except DataFusionError (ExecutionPlan S × Nat) :=
  let edges := collectJoinEdges plan
  if edges.isEmpty then .ok (plan, next) else insertBloomFilters H plan edges next

/-- `MultiHopBloomFilterRule::optimize`. It fails where the inference of the model does. The
probability floor of the settings is only printed. -/
def optimize [DivisionRing K] [LinearOrder K] [FloorSemiring K] (H : Host S) (exp : K → K)
    (env : Env K) (plan : ExecutionPlan S) (proc : Process K) :
    Option (Except DataFusionError (ExecutionPlan S) × Process K) :=
  let policy := (env.var "BF_POLICY").getD "always_build"
  if policy = "ml_guided" then
    let settings := mlSettings env
    match loadModelOnce env settings.modelPath proc with
    | (some model, proc) =>
      (insertBloomFiltersMl H exp model plan settings.budgetBytes proc.nextChannel).map
        (finish proc)
    | (none, proc) => some (finish proc (alwaysBuild H plan proc.nextChannel))
  else some (finish proc (alwaysBuild H plan proc.nextChannel))

/-! ## Every policy is one rewrite -/

theorem loadModelOnce_nextChannel (env : Env K) (path : String) (proc : Process K) :
    (loadModelOnce env path proc).2.nextChannel = proc.nextChannel := by
  unfold loadModelOnce
  split <;> rfl

theorem finish_ok {proc proc' : Process K} {q : ExecutionPlan S}
    {result : Except DataFusionError (ExecutionPlan S × Nat)}
    (h : finish proc result = (.ok q, proc')) : result = .ok (q, proc'.nextChannel) := by
  cases result with
  | error e => cases h
  | ok a =>
    cases h
    rfl

theorem alwaysBuild_insertWith (H : Host S) (p : ExecutionPlan S) (next : Nat) :
    ∃ skip keep, alwaysBuild H p next = insertWith H skip keep p next := by
  refine ⟨(collectJoinEdges p).isEmpty, fun _ _ _ => true, ?_⟩
  by_cases hedges : (collectJoinEdges p).isEmpty
  · simp only [alwaysBuild, hedges, if_true, insertWith_skip]
  · simp only [alwaysBuild, hedges, insertBloomFilters]
    rfl

section
variable [DivisionRing K] [LinearOrder K] [FloorSemiring K] {H : Host S} {exp : K → K}

theorem insertBloomFiltersMl_insertWith {model : GbtModel K} {p : ExecutionPlan S}
    {budgetBytes next : Nat} {result : Except DataFusionError (ExecutionPlan S × Nat)}
    (h : insertBloomFiltersMl H exp model p budgetBytes next = some result) :
    ∃ skip keep, result = insertWith H skip keep p next := by
  cases hcands : collectMlCandidates H exp model p [] with
  | none =>
    rw [insertBloomFiltersMl, hcands] at h
    cases h
  | some candidates =>
    rw [insertBloomFiltersMl_eq hcands (knapsackSelect_eq candidates budgetBytes)] at h
    cases h
    exact ⟨_, _, rfl⟩

/-- **What the rule does to a plan is one run of the rewrite**, from the next free channel on. -/
theorem optimize_insertWith {env : Env K} {p q : ExecutionPlan S} {proc proc' : Process K}
    (h : optimize H exp env p proc = some (.ok q, proc')) :
    ∃ skip keep, insertWith H skip keep p proc.nextChannel = .ok (q, proc'.nextChannel) := by
  have hbuild : ∀ proc₁ : Process K, proc₁.nextChannel = proc.nextChannel →
      finish proc₁ (alwaysBuild H p proc₁.nextChannel) = (.ok q, proc') →
      ∃ skip keep, insertWith H skip keep p proc.nextChannel = .ok (q, proc'.nextChannel) := by
    intro proc₁ hnext h
    obtain ⟨skip, keep, heq⟩ := alwaysBuild_insertWith H p proc₁.nextChannel
    rw [← hnext, ← finish_ok h, heq]
    exact ⟨skip, keep, rfl⟩
  have hload := loadModelOnce_nextChannel env (mlSettings env).modelPath proc
  unfold optimize at h
  by_cases hpolicy : (env.var "BF_POLICY").getD "always_build" = "ml_guided"
  · rw [if_pos hpolicy] at h
    rcases hmodel : loadModelOnce env (mlSettings env).modelPath proc with ⟨_ | model, proc₁⟩
    · simp only [hmodel] at h hload
      exact hbuild proc₁ hload (Option.some.inj h)
    · simp only [hmodel] at h hload
      obtain ⟨result, hresult, hfinish⟩ := Option.map_eq_some_iff.1 h
      obtain ⟨skip, keep, heq⟩ := insertBloomFiltersMl_insertWith hresult
      rw [← hload, ← finish_ok hfinish, heq]
      exact ⟨skip, keep, rfl⟩
  · rw [if_neg hpolicy] at h
    exact hbuild proc rfl (Option.some.inj h)

/-- **The rule only inserts, and inserts matched pairs.** Erasing them gives the plan back; they
stand in matched stacks on the children of inner joins; and a channel held by any Bloom filter
operator is held by one build and by one probe operator. -/
theorem optimize_matched {env : Env K} {p q : ExecutionPlan S} {proc proc' : Process K}
    (hp : p.NoBloom) (h : optimize H exp env p proc = some (.ok q, proc')) :
    q.erase = p ∧ WellPaired q ∧ ∀ side, ∀ c ∈ q.senders side,
      (q.senders .build).count c = 1 ∧ (q.senders .probe).count c = 1 := by
  obtain ⟨skip, keep, hrun⟩ := optimize_insertWith h
  exact insertWith_matched hp hrun

end

/-- A process in which nothing is set: the rule builds every filter. -/
def unset : Env ℚ := ⟨fun _ => none, fun _ => none, fun _ => none⟩

theorem optimize_firstHop_matched :
    firstHop.NoBloom ∧ firstHopBuilt.erase = firstHop ∧ WellPaired firstHopBuilt ∧
      ∀ side, ∀ c ∈ firstHopBuilt.senders side,
        (firstHopBuilt.senders .build).count c = 1 ∧
          (firstHopBuilt.senders .probe).count c = 1 := by
  have hbloom : firstHop.NoBloom := fun side => by cases side <;> rfl
  have hrun : optimize acceptAll (fun _ => 1) unset firstHop ⟨none, 0⟩ =
      some (.ok firstHopBuilt, ⟨none, 1⟩) := rfl
  exact ⟨hbloom, optimize_matched hbloom hrun⟩

end PredicateTransfer
