import PredicateTransfer.Run

/-!
# Inserted filters do not change answers

A pair of matched stacks on the children of a hash join leaves the build rows alone and filters
the probe rows. A probe row with a join partner is dropped exactly when one of its keys is null
and the probe partition received the payload of that key's pair (`keepRow_iff_of_joins`): a
non-null key is equal to the partner's, so the partner put its text into the filter.

**Theorem (`insertWith_transparent`).** Where nulls never match and every key is read from its
own column, a rewritten plan and the original one output the same bags, whatever the batches,
the other operators, the filters' false positives and the partitions that got no filter.

**Theorem (`wrapped_join_eq_iff`).** With either null equality, the two stacks leave the join's
output unchanged exactly when no joining probe row has a null in a key whose payload its
partition received.
-/

namespace PredicateTransfer

open ExecutionPlan

variable {S : Sig} {W : World S}

/-! ## Running a stack -/

/-- A stack of build operators yields what its input yields, and each of them sends a filter
over that. -/
theorem produces_stackBuild {recv : Recv W} {l : ExecutionPlan S} {prs : List (BloomPair S)}
    {t : PlanRun W} (h : Produces W recv (stackBuild l prs) t) :
    ∃ tl, Produces W recv l tl ∧ t.out = tl.out ∧ (∀ x ∈ tl.sent, x ∈ t.sent) ∧
      ∀ pr ∈ prs, ∃ k payload, l.schema.findIdx? (·.name == pr.buildCol) = some k ∧
        (pr.sender, payload) ∈ t.sent ∧ ∀ n, ∃ seed elapsed,
          payload n = .ofValues W.bloom seed elapsed ((tl.out n).flatMap (batchKeys k)) := by
  induction prs generalizing l with
  | nil => exact ⟨t, h, rfl, fun _ hx => hx, fun _ hp => absurd hp List.not_mem_nil⟩
  | cons pr prs ih =>
    obtain ⟨t₁, h₁, hout, hsent, hprs⟩ := ih h
    rw [Produces] at h₁
    obtain ⟨tl, seed, elapsed, payload, hl, hexec, hs⟩ := h₁
    have hrun := fun n => buildExecute_ok (hexec n)
    have hout₁ : t₁.out = tl.out := funext fun n => (hrun n).1
    obtain ⟨k, hk, -⟩ := (hrun 0).2
    refine ⟨tl, hl, hout.trans hout₁, fun x hx => hsent x ?_, fun pr' hpr' => ?_⟩
    · rw [hs]
      exact List.mem_cons_of_mem _ hx
    · rcases List.mem_cons.1 hpr' with rfl | hpr'
      · refine ⟨k, payload, hk, hsent _ (by rw [hs]; exact List.mem_cons_self), fun n => ?_⟩
        obtain ⟨k', hk', hpay⟩ := (hrun n).2
        obtain rfl : k' = k := Option.some.inj (hk'.symm.trans hk)
        exact ⟨seed n, elapsed n, hpay⟩
      · obtain ⟨k', payload', hk', hmem, hpay⟩ := hprs pr' hpr'
        refine ⟨k', payload', hk', hmem, fun n => ?_⟩
        rw [← hout₁]
        exact hpay n

/-- Whether a row gets past a whole stack of probe operators. -/
def keepStack (recv : Recv W) (schema : Schema) (prs : List (BloomPair S)) (n : Nat)
    (r : Row S) : Bool :=
  prs.all fun pr => (schema.findIdx? (·.name == pr.probeCol)).all (keepRow · (recv pr.sender n) r)

/-- A stack of probe operators filters the bags of its input. -/
theorem produces_stackProbe {recv : Recv W} {r : ExecutionPlan S} {prs : List (BloomPair S)}
    {t : PlanRun W} (h : Produces W recv (stackProbe r prs) t) :
    ∃ tr, Produces W recv r tr ∧
      ∀ n, t.bags W n = (tr.bags W n).filter (keepStack recv r.schema prs n ·) := by
  induction prs generalizing r with
  | nil =>
    refine ⟨t, h, fun n => ?_⟩
    rw [eq_comm, Multiset.filter_eq_self]
    exact fun _ _ => rfl
  | cons pr prs ih =>
    obtain ⟨t₁, h₁, hbags⟩ := ih h
    rw [Produces] at h₁
    obtain ⟨tr, hr, hexec, -⟩ := h₁
    refine ⟨tr, hr, fun n => ?_⟩
    obtain ⟨k, hk, hrows⟩ := probeExecute_ok (hexec n)
    have hstack : ∀ row, keepStack recv r.schema (pr :: prs) n row =
        (keepRow k (recv pr.sender n) row && keepStack recv r.schema prs n row) := by
      intro row
      rw [keepStack, List.all_cons, hk]
      rfl
    rw [hbags n]
    simp only [PlanRun.bags, hrows, Multiset.filter_filter, hstack, Bool.and_eq_true, schema]
    exact Multiset.filter_congr fun row _ => and_comm

/-! ## Joining rows and one pair -/

/-- Every key with a column name found on both sides is read from its own column. -/
def HashJoinExec.KeysLookedUp (j : HashJoinExec S) (left right : Schema) : Prop :=
  ∀ key ∈ j.on, ∀ b q, lookupField left key.1.fmt = some b →
    lookupField right key.2.fmt = some q → ReadsOwn left key.1 ∧ ReadsOwn right key.2

theorem HashJoinExec.KeysReadOwn.lookedUp {j : HashJoinExec S} {left right : Schema}
    (h : j.KeysReadOwn left right) : j.KeysLookedUp left right :=
  fun key hkey _ _ _ _ => h key hkey

/-- The operators of a pair evaluate the pair's own `on` entry. -/
theorem pair_reads {j : HashJoinExec S} {left right : Schema} {prs : List (BloomPair S)}
    (hprs : PairsFor j left right prs) (hlook : j.KeysLookedUp left right) {pr : BloomPair S}
    (hpr : pr ∈ prs) :
    pr.key ∈ j.on ∧
      (∃ k, left.findIdx? (·.name == pr.buildCol) = some k ∧
        ∀ row, pr.key.1.evaluate W row = Row.value row k) ∧
      ∃ k, right.findIdx? (·.name == pr.probeCol) = some k ∧
        ∀ row, pr.key.2.evaluate W row = Row.value row k := by
  have hon : pr.key ∈ j.on := hprs.entries.subset (List.mem_map_of_mem hpr)
  have hb := hprs.buildCol pr hpr
  have hp := hprs.probeCol pr hpr
  obtain ⟨⟨ln, li, hle, hl⟩, ⟨rn, ri, hre, hr⟩⟩ := hlook pr.key hon _ _ hb hp
  rw [readColumn, hb, Option.bind_some] at hl
  rw [readColumn, hp, Option.bind_some] at hr
  exact ⟨hon, ⟨li, hl, fun row => by rw [hle]; rfl⟩, ⟨ri, hr, fun row => by rw [hre]; rfl⟩⟩

/-- **A joining probe row and one pair.** If the pair's filter covers the build rows, a probe
row that joins one of them is dropped exactly when a payload was received and the row's key is
null. -/
theorem keepRow_iff_of_joins (hB : W.bloom.NoFalseNegatives) {j : HashJoinExec S}
    {key : PhysicalExpr S × PhysicalExpr S} (hkey : key ∈ j.on) {kl kr : Nat}
    (hl : ∀ row, key.1.evaluate W row = Row.value row kl)
    (hr : ∀ row, key.2.evaluate W row = Row.value row kr)
    {input : List (RecordBatch S)} {received : Option (BloomPayload W.bloom)}
    (hrecv : ∀ pl, received = some pl → ∃ seed elapsed,
      pl = .ofValues W.bloom seed elapsed (input.flatMap (batchKeys kl)))
    {lrow rrow : Row S} (hmem : lrow ∈ rowsOf input) (hjoin : j.joins W lrow rrow = true) :
    keepRow kr received rrow = true ↔ (received.isSome → key.2.evaluate W rrow ≠ .null) := by
  have hkeq := keyEq_of_joins hjoin hkey
  rw [hl, hr] at hkeq
  rw [hr]
  constructor
  · intro hkeep hsome hnull
    obtain ⟨pl, rfl⟩ := Option.isSome_iff_exists.1 hsome
    simp [keepRow, hnull, keepValue] at hkeep
  · intro hnn
    cases hrc : received with
    | none => rfl
    | some pl =>
      have hne := hnn (by simp [hrc])
      obtain ⟨heq, -⟩ := keyString_of_valueEq (valueEq_of_keyEq hkeq hne)
      refine keepRow_of_keyString hne fun payload s hpay hs => ?_
      obtain ⟨seed, elapsed, rfl⟩ := hrecv payload (hrc.trans hpay)
      -- The partner's key has the same text, and the build operator set it.
      exact BloomPayload.check_ofValues hB
        (mem_flatMap_batchKeys.2 ⟨lrow, hmem, heq.trans hs⟩)

/-! ## One join -/

/-- The payloads received on the channels of a build stack are those of the build partition
each probe partition joins with. -/
def Matched (recv : Recv W) (t : PlanRun W) (part : Nat → Nat) : Prop :=
  ∀ c payload, (c, payload) ∈ t.sent → ∀ i pl, recv c i = some pl → pl = payload (part i)

/-- **What two matched stacks do to a join.** -/
theorem innerJoin_stacks_eq_iff (hB : W.bloom.NoFalseNegatives) {j : HashJoinExec S}
    {recv : Recv W} {l r : ExecutionPlan S} {prs : List (BloomPair S)} {left right : Schema}
    (hls : l.schema = left) (hrs : r.schema = right)
    (hprs : PairsFor j left right prs) (hlook : j.KeysLookedUp left right)
    {tl tr : PlanRun W} {part : Nat → Nat}
    (hl : Produces W recv (stackBuild l prs) tl) (hr : Produces W recv (stackProbe r prs) tr)
    (hmatch : Matched recv tl part) :
    ∃ tl' tr', Produces W recv l tl' ∧ Produces W recv r tr' ∧ ∀ i,
      (j.innerJoin W (tl.bags W (part i)) (tr.bags W i) =
          j.innerJoin W (tl'.bags W (part i)) (tr'.bags W i) ↔
        ∀ lrow ∈ tl'.bags W (part i), ∀ rrow ∈ tr'.bags W i, j.joins W lrow rrow = true →
          ∀ pr ∈ prs, (recv pr.sender i).isSome → pr.key.2.evaluate W rrow ≠ .null) := by
  obtain ⟨tl', hl', hout, -, hbuild⟩ := produces_stackBuild hl
  obtain ⟨tr', hr', hbags⟩ := produces_stackProbe hr
  refine ⟨tl', tr', hl', hr', fun i => ?_⟩
  have hbagl : tl.bags W (part i) = tl'.bags W (part i) := by rw [PlanRun.bags, hout]; rfl
  rw [hbagl, hbags i, HashJoinExec.innerJoin, HashJoinExec.innerJoin,
    SemiJoin.map_pairs_filter_right_eq_iff]
  refine forall₄_congr fun lrow hlrow rrow _ => forall_congr' fun hjoin => ?_
  rw [keepStack, List.all_eq_true]
  refine forall₂_congr fun pr hpr => ?_
  obtain ⟨hon, ⟨kl, hkl, hel⟩, ⟨kr, hkr, her⟩⟩ := pair_reads (W := W) hprs hlook hpr
  obtain ⟨k, payload, hk, hmem, hpay⟩ := hbuild pr hpr
  obtain rfl : k = kl := by
    rw [hls, hkl] at hk
    exact (Option.some.inj hk).symm
  rw [hrs, hkr]
  have hcover : ∀ pl, recv pr.sender i = some pl → ∃ seed elapsed,
      pl = .ofValues W.bloom seed elapsed ((tl'.out (part i)).flatMap (batchKeys k)) := by
    intro pl hpl
    obtain ⟨seed, elapsed, hval⟩ := hpay (part i)
    exact ⟨seed, elapsed, (hmatch _ _ hmem i pl hpl).trans hval⟩
  exact keepRow_iff_of_joins hB hon hel her hcover hlrow hjoin

/-! ## Whole plans -/

/-- Nulls never match, and every key is read from its own column. -/
def FilterSafe : JoinCondition S := fun j left right =>
  j.nullEquality = .nullEqualsNothing ∧ j.KeysLookedUp left right

/-- Joins over stacks on children of equal bags have equal bags. -/
theorem hashJoin_bags_eq (hB : W.bloom.NoFalseNegatives) {j : HashJoinExec S}
    {l r l' r' : ExecutionPlan S} {prs : List (BloomPair S)} (hls : l'.schema = l.schema)
    (hrs : r'.schema = r.schema) (hprs : PairsFor j l.schema r.schema prs)
    (hsafe : prs ≠ [] → FilterSafe j l.schema r.schema) {recv recv' : Recv W} {t t' : PlanRun W}
    (ht : Produces W recv (.hashJoin j l r) t)
    (ht' : Produces W recv' (.hashJoin j (stackBuild l' prs) (stackProbe r' prs)) t')
    (ihl : ∀ {t t' : PlanRun W}, Produces W recv l t → Produces W recv' l' t' →
      t.bags W = t'.bags W)
    (ihr : ∀ {t t' : PlanRun W}, Produces W recv r t → Produces W recv' r' t' →
      t.bags W = t'.bags W) : t.bags W = t'.bags W := by
  rw [Produces] at ht ht'
  obtain ⟨tl, tr, hl, hr, -, hjoin⟩ := ht
  obtain ⟨ul, ur, hul, hur, -, hjoin'⟩ := ht'
  funext i
  by_cases hprs' : prs = []
  · -- No stacks on this join: the children's bags are all that counts.
    subst hprs'
    have hbl := ihl hl hul
    have hbr := ihr hr hur
    split_ifs at hjoin hjoin' with hj
    · obtain ⟨part, hpart, -, hbags⟩ := hjoin
      obtain ⟨part', hpart', -, hbags'⟩ := hjoin'
      obtain rfl : part = part' := Option.some.inj (hpart.symm.trans hpart')
      rw [hbags, hbags', hbl, hbr]
    · rw [hjoin, hjoin', hbl, hbr]
  · obtain ⟨hnull, hlook⟩ := hsafe hprs'
    rw [if_pos (hprs.inner hprs')] at hjoin hjoin'
    obtain ⟨part, hpart, -, hbags⟩ := hjoin
    obtain ⟨part', hpart', hmatch, hbags'⟩ := hjoin'
    obtain rfl : part = part' := Option.some.inj (hpart.symm.trans hpart')
    obtain ⟨vl, vr, hvl, hvr, hiff⟩ := innerJoin_stacks_eq_iff hB hls hrs hprs hlook hul hur hmatch
    have hkept : j.innerJoin W (ul.bags W (part i)) (ur.bags W i) =
        j.innerJoin W (vl.bags W (part i)) (vr.bags W i) := by
      refine (hiff i).2 fun lrow _ rrow _ hjoins pr hpr _ => ?_
      have hkeq := keyEq_of_joins hjoins (hprs.entries.subset (List.mem_map_of_mem hpr))
      rw [hnull] at hkeq
      exact ne_null_of_keyEq hkeq
    rw [hbags, hbags', hkept, ihl hl hvl, ihr hr hvr]

theorem map_bags_eq_of_forall₂ {recv recv' : Recv W} {cs cs' : List (ExecutionPlan S)}
    (hcs : List.Forall₂ (fun p q => ∀ {t t' : PlanRun W},
      (∀ c ∈ p.senders .probe, recv c = recv' c) → Produces W recv p t → Produces W recv' q t' →
        t.bags W = t'.bags W) cs cs')
    (hrecv : ∀ c ∈ sendersAll .probe cs, recv c = recv' c) {ts us : List (PlanRun W)}
    (hts : ProducesAll W recv cs ts) (hus : ProducesAll W recv' cs' us) :
    ts.map (PlanRun.bags W) = us.map (PlanRun.bags W) := by
  induction hcs generalizing ts us with
  | nil =>
    rw [ProducesAll] at hts hus
    rw [hts, hus]
  | cons hc _ ih =>
    rw [ProducesAll] at hts hus
    obtain ⟨t₁, ts, ht₁, hts, rfl⟩ := hts
    obtain ⟨u₁, us, hu₁, hus, rfl⟩ := hus
    rw [sendersAll] at hrecv
    rw [List.map_cons, List.map_cons,
      hc (fun d hd => hrecv d (List.mem_append_left _ hd)) ht₁ hu₁,
      ih (fun d hd => hrecv d (List.mem_append_right _ hd)) hts hus]

/-- Two runs of plans that differ by inserted stacks have equal bags, if the channels of the
first plan deliver the same in both. -/
theorem Inserted.bags_eq (hB : W.bloom.NoFalseNegatives) {p q : ExecutionPlan S}
    (h : Inserted FilterSafe p q) {recv recv' : Recv W}
    (hrecv : ∀ c ∈ p.senders .probe, recv c = recv' c) {t t' : PlanRun W}
    (ht : Produces W recv p t) (ht' : Produces W recv' q t') : t.bags W = t'.bags W := by
  refine h.inductOn (motive := fun p q => ∀ {t t' : PlanRun W},
    (∀ c ∈ p.senders .probe, recv c = recv' c) → Produces W recv p t → Produces W recv' q t' →
      t.bags W = t'.bags W) ?_ ?_ ?_ ?_ hrecv ht ht'
  · intro j l r l' r' prs hil hir hprs hsafe ihl ihr t t' hrecv ht ht'
    rw [senders] at hrecv
    exact hashJoin_bags_eq hB hil.schema_eq hir.schema_eq hprs hsafe ht ht'
      (ihl fun c hc => hrecv c (List.mem_append_left _ hc))
      (ihr fun c hc => hrecv c (List.mem_append_right _ hc))
  · intro k c i i' hi ih t t' hrecv ht ht'
    rw [Produces] at ht ht'
    obtain ⟨ti, seed, elapsed, payload, hti, hexec, -⟩ := ht
    obtain ⟨ui, seed', elapsed', payload', hui, hexec', -⟩ := ht'
    rw [senders, if_neg (by simp), List.append_nil] at hrecv
    have hbags := ih hrecv hti hui
    funext n
    rw [PlanRun.bags, PlanRun.bags, (buildExecute_ok (hexec n)).1, (buildExecute_ok (hexec' n)).1]
    exact congrFun hbags n
  · intro k c i i' hi ih t t' hrecv ht ht'
    rw [Produces] at ht ht'
    obtain ⟨ti, hti, hexec, -⟩ := ht
    obtain ⟨ui, hui, hexec', -⟩ := ht'
    rw [senders, if_pos rfl] at hrecv
    have hbags := ih (fun d hd => hrecv d (List.mem_append_left _ hd)) hti hui
    funext n
    obtain ⟨k₁, hk₁, hrows⟩ := probeExecute_ok (hexec n)
    obtain ⟨k₂, hk₂, hrows'⟩ := probeExecute_ok (hexec' n)
    rw [hi.schema_eq, hk₁] at hk₂
    obtain rfl : k₁ = k₂ := Option.some.inj hk₂
    rw [PlanRun.bags, PlanRun.bags, hrows, hrows',
      hrecv c (List.mem_append_right _ List.mem_cons_self)]
    exact congrArg _ (congrFun hbags n)
  · intro op cs cs' hcs t t' hrecv ht ht'
    rw [Produces] at ht ht'
    obtain ⟨ts, hts, hbags, -⟩ := ht
    obtain ⟨us, hus, hbags', -⟩ := ht'
    rw [senders] at hrecv
    have hall := map_bags_eq_of_forall₂ hcs hrecv hts hus
    funext i
    rw [hbags, hbags', hall]

/-- The bags of a plan's output are determined by what its channels deliver. -/
theorem Produces.bags_unique (hB : W.bloom.NoFalseNegatives) {p : ExecutionPlan S}
    {recv recv' : Recv W} (hrecv : ∀ c ∈ p.senders .probe, recv c = recv' c) {t t' : PlanRun W}
    (ht : Produces W recv p t) (ht' : Produces W recv' p t') : t.bags W = t'.bags W :=
  (Inserted.refl FilterSafe p).bags_eq hB hrecv ht ht'

/-- **Any rewrite is transparent**, whichever resolved keys get a pair. -/
theorem insertWith_transparent (hB : W.bloom.NoFalseNegatives) {H : Host S} {skip : Bool}
    {keep : Keep} {p q : ExecutionPlan S} {next next' : Nat}
    (h : insertWith H skip keep p next = .ok (q, next')) (hsafe : AtInnerJoins FilterSafe p)
    {recv recv' : Recv W} (hrecv : ∀ c ∈ p.senders .probe, recv c = recv' c) {t t' : PlanRun W}
    (ht : Produces W recv p t) (ht' : Produces W recv' q t') : t.bags W = t'.bags W := by
  cases skip with
  | true =>
    rw [insertWith_skip] at h
    cases h
    exact ht.bags_unique hB hrecv ht'
  | false => exact (insertWith_inserted h hsafe).bags_eq hB hrecv ht ht'

/-! ## The rewritten plan runs -/

theorem Produces.mem_senders_of_sent {recv : Recv W} {p : ExecutionPlan S} {t : PlanRun W}
    (h : Produces W recv p t) {c : Nat} {payload : Nat → BloomPayload W.bloom}
    (hc : (c, payload) ∈ t.sent) : c ∈ p.senders .build := by
  induction p generalizing t with
  | hashJoin j l r =>
    rw [Produces] at h
    obtain ⟨-, -, -, -, hsent, -⟩ := h
    rw [hsent] at hc
    cases hc
  | bloomBuild k d i ih =>
    rw [Produces] at h
    obtain ⟨ti, -, -, payload', hi, -, hsent⟩ := h
    rw [hsent] at hc
    rw [senders, if_pos rfl]
    rcases List.mem_cons.1 hc with heq | hc
    · cases heq
      exact List.mem_append_right _ List.mem_cons_self
    · exact List.mem_append_left _ (ih hi hc)
  | bloomProbe k d i =>
    rw [Produces] at h
    obtain ⟨-, -, -, hsent⟩ := h
    rw [hsent] at hc
    cases hc
  | other op cs =>
    rw [Produces] at h
    obtain ⟨-, -, -, hsent⟩ := h
    rw [hsent] at hc
    cases hc

theorem ProducesAll.mono {recv recv' : Recv W} {cs : List (ExecutionPlan S)}
    {ts : List (PlanRun W)} (h : ProducesAll W recv cs ts)
    (hcs : ∀ c ∈ cs, ∀ t, Produces W recv c t → Produces W recv' c t) :
    ProducesAll W recv' cs ts := by
  induction cs generalizing ts with
  | nil => exact h
  | cons c cs ih =>
    rw [ProducesAll] at h
    obtain ⟨t, ts, ht, hts, rfl⟩ := h
    rw [ProducesAll]
    exact ⟨t, ts, hcs c List.mem_cons_self t ht,
      ih hts fun d hd => hcs d (List.mem_cons_of_mem _ hd), rfl⟩

/-- A run of a plan depends on what is delivered on the plan's own channels. -/
theorem Produces.congr {recv recv' : Recv W} {p : ExecutionPlan S} {t : PlanRun W}
    (h : Produces W recv p t) (hrecv : ∀ side, ∀ c ∈ p.senders side, recv c = recv' c) :
    Produces W recv' p t := by
  induction p generalizing t with
  | hashJoin j l r ihl ihr =>
    rw [Produces] at h
    obtain ⟨tl, tr, hl, hr, hsent, hjoin⟩ := h
    simp only [senders, List.mem_append] at hrecv
    rw [Produces]
    refine ⟨tl, tr, ihl hl fun side c hc => hrecv side c (.inl hc),
      ihr hr fun side c hc => hrecv side c (.inr hc), hsent, ?_⟩
    split_ifs at hjoin ⊢ with hj
    · obtain ⟨part, hpart, hmatch, hbags⟩ := hjoin
      refine ⟨part, hpart, fun c payload hc i pl hpl => hmatch c payload hc i pl ?_, hbags⟩
      rw [hrecv .build c (.inl (hl.mem_senders_of_sent hc))]
      exact hpl
    · exact hjoin
  | bloomBuild k d i ih =>
    rw [Produces] at h
    obtain ⟨ti, seed, elapsed, payload, hi, hexec, hsent⟩ := h
    simp only [senders, List.mem_append] at hrecv
    rw [Produces]
    exact ⟨ti, seed, elapsed, payload, ih hi fun side c hc => hrecv side c (.inl hc), hexec, hsent⟩
  | bloomProbe k d i ih =>
    rw [Produces] at h
    obtain ⟨ti, hi, hexec, hsent⟩ := h
    simp only [senders, List.mem_append] at hrecv
    rw [Produces]
    refine ⟨ti, ih hi fun side c hc => hrecv side c (.inl hc), fun n => ?_, hsent⟩
    rw [← hrecv .probe d (.inr (by simp))]
    exact hexec n
  | other op cs ih =>
    rw [Produces] at h
    obtain ⟨ts, hts, hbags, hsent⟩ := h
    simp only [senders] at hrecv
    rw [Produces]
    exact ⟨ts, hts.mono fun d hd t ht => ih d hd ht fun side c hc =>
      hrecv side c (mem_sendersAll hd hc), hbags, hsent⟩

/-- The payloads a build operator sends over a run of its input, all filters drawn with one
seed. -/
def stackPayload (seed : W.bloom.Seed) (schema : Schema) (out : Nat → List (RecordBatch S))
    (pr : BloomPair S) : Nat → BloomPayload W.bloom := fun n =>
  .ofValues W.bloom seed 0 ((out n).flatMap (batchKeys (schema.findIdx (·.name == pr.buildCol))))

/-- The run of a stack of build operators over a run of its input. -/
def stackRun (seed : W.bloom.Seed) (schema : Schema) (tl : PlanRun W) (prs : List (BloomPair S)) :
    PlanRun W :=
  ⟨tl.out, (prs.map fun pr => (pr.sender, stackPayload seed schema tl.out pr)).reverse ++ tl.sent⟩

theorem runs_stackBuild {recv : Recv W} {l : ExecutionPlan S} {tl : PlanRun W}
    (hl : Produces W recv l tl) {prs : List (BloomPair S)}
    (hcols : ∀ pr ∈ prs, ∃ f ∈ l.schema, f.name = pr.buildCol) (seed : W.bloom.Seed) :
    Produces W recv (stackBuild l prs) (stackRun seed l.schema tl prs) := by
  induction prs generalizing l tl with
  | nil => exact hl
  | cons pr prs ih =>
    have hcol := keyColumn_of_mem "BloomFilterBuildExec" (hcols pr List.mem_cons_self)
    have htop : Produces W recv (.bloomBuild pr.buildCol pr.sender l)
        ⟨tl.out, (pr.sender, stackPayload seed l.schema tl.out pr) :: tl.sent⟩ := by
      rw [Produces]
      refine ⟨tl, fun _ => seed, fun _ => 0, stackPayload seed l.schema tl.out pr, hl,
        fun n => ?_, rfl⟩
      rw [buildExecute, hcol]
      simp only [bind, Except.bind, buildRun_ok, List.nil_append]
      rfl
    have hrun := ih htop fun pr' hpr' => hcols pr' (List.mem_cons_of_mem _ hpr')
    rw [stackBuild]
    simpa [stackRun, schema] using hrun

theorem runs_stackProbe {recv : Recv W} {r : ExecutionPlan S} {tr : PlanRun W}
    (hr : Produces W recv r tr) {prs : List (BloomPair S)}
    (hcols : ∀ pr ∈ prs, ∃ f ∈ r.schema, f.name = pr.probeCol) :
    ∃ t, Produces W recv (stackProbe r prs) t := by
  induction prs generalizing r tr with
  | nil => exact ⟨tr, hr⟩
  | cons pr prs ih =>
    have hcol := keyColumn_of_mem "BloomFilterProbeExec" (hcols pr List.mem_cons_self)
    have htop : Produces W recv (.bloomProbe pr.probeCol pr.sender r)
        ⟨fun n => (tr.out n).map fun b => b.filter
          (keepRow (r.schema.findIdx (·.name == pr.probeCol)) (recv pr.sender n)), []⟩ := by
      rw [Produces]
      refine ⟨tr, hr, fun n => ?_, rfl⟩
      rw [probeExecute, hcol]
      simp only [bind, Except.bind, probeRun_ok]
      rfl
    exact ih htop fun pr' hpr' => hcols pr' (List.mem_cons_of_mem _ hpr')

/-- A run with the given bags, each in one batch. -/
noncomputable def runOfBags (bags : Nat → Multiset (Row S)) : PlanRun W :=
  ⟨fun i => [(bags i).toList], []⟩

theorem bags_runOfBags (bags : Nat → Multiset (Row S)) (i : Nat) :
    (runOfBags bags : PlanRun W).bags W i = bags i := by
  simp [PlanRun.bags, runOfBags]

/-- What a rewrite from `next` to `next'` can be asked to deliver: on each of its channels, to
the partitions in `got`. -/
def Delivers (got : Nat → Nat → Bool) (next next' : Nat) (recv : Recv W) : Prop :=
  ∀ c i, (recv c i).isSome = (got c i && decide (next ≤ c ∧ c < next'))

/-- Deliver as `recv` below the channel `n`, as `recv'` from there on. -/
def splitRecv (n : Nat) (recv recv' : Recv W) : Recv W := fun c => if c < n then recv c else recv' c

theorem Delivers.split {got : Nat → Nat → Bool} {next n next' : Nat} {recv recv' : Recv W}
    (h : Delivers got next n recv) (h' : Delivers got n next' recv') (hle : next ≤ n)
    (hle' : n ≤ next') : Delivers got next next' (splitRecv n recv recv') := by
  intro c i
  by_cases hc : c < n
  · have hiff : (next ≤ c ∧ c < n) ↔ (next ≤ c ∧ c < next') := by omega
    rw [splitRecv, if_pos hc, h c i, decide_eq_decide.2 hiff]
  · have hiff : (n ≤ c ∧ c < next') ↔ (next ≤ c ∧ c < next') := by omega
    rw [splitRecv, if_neg hc, h' c i, decide_eq_decide.2 hiff]

/-- The channels of a rewritten plan without Bloom filter operators are the allocated ones. -/
theorem mem_senders_of_noBloom {H : Host S} {keep : Keep} {p q : ExecutionPlan S}
    {next next' : Nat} (h : insertWith H false keep p next = .ok (q, next')) (hp : p.NoBloom)
    {side : Side} {c : Nat} (hc : c ∈ q.senders side) : next ≤ c ∧ c < next' := by
  have hcount := (insertWith_senders h).2 side c
  rw [hp side, List.count_nil, Nat.zero_add] at hcount
  by_contra hout
  rw [if_neg hout, List.count_eq_zero] at hcount
  exact hcount hc

/-- What the channels of a stack deliver to the partitions in `got`: to each the payload of the
build partition it joins with. -/
def stackRecv (seed : W.bloom.Seed) (schema : Schema) (out : Nat → List (RecordBatch S))
    (part : Nat → Nat) (got : Nat → Nat → Bool) (n : Nat) (prs : List (BloomPair S)) : Recv W :=
  fun c i =>
    if got c i && decide (n ≤ c) then
      prs[c - n]?.map fun pr => stackPayload seed schema out pr (part i)
    else none

theorem stackRecv_delivers (seed : W.bloom.Seed) (schema : Schema)
    (out : Nat → List (RecordBatch S)) (part : Nat → Nat) (got : Nat → Nat → Bool) (n : Nat)
    (prs : List (BloomPair S)) :
    Delivers got n (n + prs.length) (stackRecv seed schema out part got n prs) := by
  intro c i
  have hsome : prs[c - n]?.isSome = decide (c - n < prs.length) := by
    rw [Bool.eq_iff_iff]
    simp
  by_cases hg : got c i = true
  · by_cases hc : n ≤ c
    · have hlt : c - n < prs.length ↔ c < n + prs.length := by omega
      simp [stackRecv, hg, hc, ← hlt, ← hsome]
    · simp [stackRecv, hc]
  · simp [stackRecv, hg]

/-- A payload found at a channel's offset is the one sent there. -/
theorem matched_stackRecv {seed : W.bloom.Seed} {schema : Schema} {tl : PlanRun W}
    (hsent : tl.sent = []) {part : Nat → Nat} {got : Nat → Nat → Bool} {n : Nat}
    {ss : List (Site S)} {recv : Recv W} :
    Matched (splitRecv n recv (stackRecv seed schema tl.out part got n (numbered n ss)))
      (stackRun seed schema tl (numbered n ss)) part := by
  intro c payload hc i pl hpl
  rw [stackRun, hsent, List.append_nil, List.mem_reverse] at hc
  obtain ⟨pr, hpr, heq⟩ := List.mem_map.1 hc
  cases heq
  obtain ⟨hle, hget⟩ := getElem?_of_mem_numbered hpr
  simp only [splitRecv, Nat.not_lt.2 hle, if_false, stackRecv, hget] at hpl
  split_ifs at hpl
  exact (Option.some.inj hpl).symm

/-- One join of the rewritten plan runs over runs of its rewritten children, whichever partitions
its new channels deliver to. -/
theorem runs_join (seed : W.bloom.Seed) (got : Nat → Nat → Bool) (keep : Keep)
    {j : HashJoinExec S} (hmode : j.joinType = .inner → ∃ part, j.mode.buildPartition = some part)
    {recv : Recv W} {l r : ExecutionPlan S} {tl tr : PlanRun W} (hl : Produces W recv l tl)
    (hr : Produces W recv r tr) (hsent : tl.sent = []) {n : Nat}
    (hfresh : ∀ side, ∀ c, c ∈ l.senders side ∨ c ∈ r.senders side → c < n) :
    ∃ recv' t, Delivers got n (n + (joinPairs keep j l r n).length) recv' ∧ t.sent = [] ∧
      Produces W (splitRecv n recv recv') (.hashJoin j (stackBuild l (joinPairs keep j l r n))
        (stackProbe r (joinPairs keep j l r n))) t := by
  obtain ⟨part, hpart⟩ : ∃ part : Nat → Nat,
      j.joinType = .inner → j.mode.buildPartition = some part := by
    by_cases hj : j.joinType = .inner
    · obtain ⟨part, hpart⟩ := hmode hj
      exact ⟨part, fun _ => hpart⟩
    · exact ⟨id, fun h => absurd h hj⟩
  have hprs := joinPairs_pairsFor keep j l r n
  let recv' : Recv W := stackRecv seed l.schema tl.out part got n (joinPairs keep j l r n)
  have hold : ∀ c, c < n → recv c = splitRecv n recv recv' c := fun c hc => by
    rw [splitRecv, if_pos hc]
  have hl' := runs_stackBuild (hl.congr fun side c hc => hold c (hfresh side c (.inl hc)))
    (fun pr hpr => exists_of_lookupField (hprs.buildCol pr hpr)) seed
  obtain ⟨tr', hr'⟩ := runs_stackProbe
    (hr.congr fun side c hc => hold c (hfresh side c (.inr hc)))
    (fun pr hpr => exists_of_lookupField (hprs.probeCol pr hpr))
  have hdel := stackRecv_delivers seed l.schema tl.out part got n (joinPairs keep j l r n)
  by_cases hj : j.joinType = .inner
  · refine ⟨recv', runOfBags fun i => j.fetchRows W (j.innerJoin W
      ((stackRun seed l.schema tl (joinPairs keep j l r n)).bags W (part i)) (tr'.bags W i)),
      hdel, rfl, ?_⟩
    rw [Produces]
    refine ⟨_, tr', hl', hr', rfl, ?_⟩
    rw [if_pos hj]
    exact ⟨part, hpart hj, matched_stackRecv hsent, fun i => bags_runOfBags _ i⟩
  · refine ⟨recv', runOfBags (W.joinRows j
      ((stackRun seed l.schema tl (joinPairs keep j l r n)).bags W) (tr'.bags W)), hdel, rfl, ?_⟩
    rw [Produces]
    refine ⟨_, tr', hl', hr', rfl, ?_⟩
    rw [if_neg hj]
    exact fun i => bags_runOfBags _ i

/-- The children run on channels of their own, if each of them does. -/
theorem insertAll_runs {got : Nat → Nat → Bool} {H : Host S} {keep : Keep} {recv : Recv W}
    {cs cs' : List (ExecutionPlan S)} {next next' i : Nat} (hp : ∀ d ∈ cs, d.NoBloom)
    (ih : ∀ d ∈ cs, ∀ {keep q next next'}, d.NoBloom →
      insertWith H false keep d next = .ok (q, next') → ∀ {t}, Produces W recv d t →
      ∃ recv' t', Delivers got next next' recv' ∧ t'.sent = [] ∧ Produces W recv' q t')
    (h : insertAll H false keep i cs next = .ok (cs', next')) {ts : List (PlanRun W)}
    (hts : ProducesAll W recv cs ts) :
    next ≤ next' ∧ (∀ side, ∀ c ∈ sendersAll side cs', next ≤ c ∧ c < next') ∧
      ∃ recv' us, Delivers got next next' recv' ∧ ProducesAll W recv' cs' us := by
  induction cs generalizing cs' ts next i with
  | nil =>
    obtain ⟨rfl, rfl⟩ := insertAll_nil h
    refine ⟨le_rfl, fun side c hc => absurd hc List.not_mem_nil, fun _ _ => none, [], ?_, rfl⟩
    intro c i
    simp
  | cons d cs ihcs =>
    obtain ⟨d', n₁, ds, hd, hds, rfl⟩ := insertAll_cons h
    rw [ProducesAll] at hts
    obtain ⟨t₁, ts, ht₁, hts, rfl⟩ := hts
    have hpd := hp d List.mem_cons_self
    obtain ⟨recv₁, u₁, hdel₁, -, hu₁⟩ := ih d List.mem_cons_self hpd hd ht₁
    obtain ⟨hle, hcds, recv₂, us, hdel₂, hus⟩ := ihcs
      (fun e he => hp e (List.mem_cons_of_mem _ he))
      (fun e he => ih e (List.mem_cons_of_mem _ he)) hds hts
    have hn₁ := (insertWith_senders hd).1
    have hcd : ∀ side, ∀ c ∈ d'.senders side, next ≤ c ∧ c < n₁ :=
      fun _ _ hc => mem_senders_of_noBloom hd hpd hc
    refine ⟨hn₁.trans hle, fun side c hc => ?_, splitRecv n₁ recv₁ recv₂, u₁ :: us,
      hdel₁.split hdel₂ hn₁ hle, ?_⟩
    · rw [sendersAll] at hc
      rcases List.mem_append.1 hc with hc | hc
      · exact ⟨(hcd side c hc).1, (hcd side c hc).2.trans_le hle⟩
      · exact ⟨hn₁.trans (hcds side c hc).1, (hcds side c hc).2⟩
    · rw [ProducesAll]
      refine ⟨u₁, us, hu₁.congr fun side c hc => (if_pos (hcd side c hc).2).symm,
        hus.mono fun e he u hu => hu.congr fun side c hc => ?_, rfl⟩
      exact (if_neg (Nat.not_lt.2 (hcds side c (mem_sendersAll he hc)).1)).symm

/-- **A rewritten plan runs wherever the plan runs**, whichever partitions its channels deliver
to: the names handed to the inserted operators are those of fields. -/
theorem insertWith_runs (seed : W.bloom.Seed) (got : Nat → Nat → Bool) {H : Host S} {keep : Keep}
    {p q : ExecutionPlan S} {next next' : Nat} (hp : p.NoBloom)
    (h : insertWith H false keep p next = .ok (q, next')) {recv : Recv W} {t : PlanRun W}
    (ht : Produces W recv p t) :
    ∃ recv' t', Delivers got next next' recv' ∧ t'.sent = [] ∧ Produces W recv' q t' := by
  induction p generalizing keep q next next' t with
  | hashJoin j l r ihl ihr =>
    rw [noBloom_hashJoin] at hp
    obtain ⟨l', n₁, r', n₂, hl, hr, rfl, rfl⟩ := insertWith_hashJoin h
    rw [Produces] at ht
    obtain ⟨tl, tr, htl, htr, -, hjoin⟩ := ht
    obtain ⟨recvl, ul, hdl, hsent, hul⟩ := ihl hp.1 hl htl
    obtain ⟨recvr, ur, hdr, -, hur⟩ := ihr hp.2 hr htr
    have hn₁ := (insertWith_senders hl).1
    have hn₂ := (insertWith_senders hr).1
    have hcl : ∀ side, ∀ c ∈ l'.senders side, next ≤ c ∧ c < n₁ :=
      fun _ _ hc => mem_senders_of_noBloom hl hp.1 hc
    have hcr : ∀ side, ∀ c ∈ r'.senders side, n₁ ≤ c ∧ c < n₂ :=
      fun _ _ hc => mem_senders_of_noBloom hr hp.2 hc
    have hul' : Produces W (splitRecv n₁ recvl recvr) l' ul :=
      hul.congr fun side c hc => (if_pos (hcl side c hc).2).symm
    have hur' : Produces W (splitRecv n₁ recvl recvr) r' ur :=
      hur.congr fun side c hc => (if_neg (Nat.not_lt.2 (hcr side c hc).1)).symm
    have hfresh : ∀ side, ∀ c, c ∈ l'.senders side ∨ c ∈ r'.senders side → c < n₂ := by
      rintro side c (hc | hc)
      · exact (hcl side c hc).2.trans_le hn₂
      · exact (hcr side c hc).2
    have hmode : j.joinType = .inner → ∃ part, j.mode.buildPartition = some part := by
      intro hj
      rw [if_pos hj] at hjoin
      obtain ⟨part, hpart, -⟩ := hjoin
      exact ⟨part, hpart⟩
    obtain ⟨recv', t', hdel, hsent', ht'⟩ := runs_join seed got keep hmode hul' hur' hsent hfresh
    exact ⟨_, t', (hdl.split hdr hn₁ hn₂).split hdel (hn₁.trans hn₂) (Nat.le_add_right _ _),
      hsent', ht'⟩
  | bloomBuild k c i => exact absurd hp not_noBloom_bloomBuild
  | bloomProbe k c i => exact absurd hp not_noBloom_bloomProbe
  | other op cs ih =>
    rw [noBloom_other] at hp
    obtain ⟨cs', hcs, rfl⟩ := insertWith_other h
    rw [Produces] at ht
    obtain ⟨ts, hts, -, -⟩ := ht
    obtain ⟨-, -, recv', us, hdel, hus⟩ := insertAll_runs hp ih hcs hts
    refine ⟨recv', runOfBags (W.opRows op (us.map (PlanRun.bags W))), hdel, rfl, ?_⟩
    rw [Produces]
    exact ⟨us, hus, fun i => bags_runOfBags _ i, rfl⟩

/-! ## Customers and orders -/

/-- Plans over tables that have the given rows in every partition. -/
def scanWorld (rows : String → List (Row scanSig)) : World scanSig where
  bloom := exactBloom
  evalExpr := nofun
  eqDatum := nofun
  opRows op _ _ := rows op.1
  joinRows _ _ _ _ := 0
  limit _ rows := rows

def customers : ExecutionPlan scanSig := .other ("customers", [⟨"customer_id", .int64, true⟩]) []

def orders : ExecutionPlan scanSig := .other ("orders", [⟨"customer", .int64, true⟩]) []

def customerOrders (nullEquality : NullEquality) : HashJoinExec scanSig where
  on := [(.column "customer_id" 0, .column "customer" 0)]
  filter := none
  joinType := .inner
  mode := .partitioned
  projection := none
  nullEquality := nullEquality
  nullAware := false
  fetch := none

def tableRows (table : String) : List (Row scanSig) :=
  if table = "customers" then [[.int64 1], [.int64 2], [.null]]
  else [[.int64 2], [.int64 3], [.null], [.int64 2]]

abbrev tables : World scanSig := scanWorld tableRows

/-- The payload of every partition of the build operator on the customers. -/
def customersPayload : BloomPayload exactBloom := .ofValues exactBloom () 0 ["1", "2"]

/-- Every probe partition receives it. -/
def delivered : Recv tables := fun _ _ => some customersPayload

/-- A run with the same batches in every partition. -/
def runOf (batches : List (RecordBatch scanSig)) : PlanRun tables := ⟨fun _ => batches, []⟩

def builtRun : PlanRun tables :=
  ⟨fun _ => [tableRows "customers"], [(0, fun _ => customersPayload)]⟩

theorem produces_customers (recv : Recv tables) :
    Produces tables recv customers (runOf [tableRows "customers"]) :=
  ⟨[], rfl, fun _ => rfl, rfl⟩

theorem produces_orders (recv : Recv tables) :
    Produces tables recv orders (runOf [tableRows "orders"]) :=
  ⟨[], rfl, fun _ => rfl, rfl⟩

theorem produces_built :
    Produces tables delivered (.bloomBuild "customer_id" 0 customers) builtRun :=
  ⟨runOf [tableRows "customers"], fun _ => (), fun _ => 0, fun _ => customersPayload,
    produces_customers _, fun _ => rfl, rfl⟩

theorem produces_probed :
    Produces tables delivered (.bloomProbe "customer" 0 orders)
      (runOf [[[.int64 2], [.int64 2]]]) :=
  ⟨runOf [tableRows "orders"], produces_orders _, fun _ => rfl, rfl⟩

theorem matched_built : Matched delivered builtRun id := by
  intro c payload hmem i pl hpl
  cases List.mem_singleton.1 hmem
  exact (Option.some.inj hpl).symm

theorem customerOrders_keysReadOwn (ne : NullEquality) :
    (customerOrders ne).KeysReadOwn customers.schema orders.schema := by
  intro key hkey
  cases List.mem_singleton.1 hkey
  exact ⟨⟨_, _, rfl, by decide⟩, ⟨_, _, rfl, by decide⟩⟩

/-! ## The `always_build` rewrite -/

/-- **The `always_build` rewrite is transparent.** Every partition of the rewritten plan outputs
the bag of rows that it outputs in the original plan; and a rewritten plan does run, whichever
partitions its channels deliver to. -/
theorem insertBloomFilters_transparent (hB : W.bloom.NoFalseNegatives) {H : Host S}
    {p q : ExecutionPlan S} {edges : List JoinEdge} {next next' : Nat}
    (h : insertBloomFilters H p edges next = .ok (q, next'))
    (hsafe : AtInnerJoins FilterSafe p) {recv : Recv W} {t : PlanRun W}
    (ht : Produces W recv p t) :
    (∀ recv' t', (∀ c ∈ p.senders .probe, recv c = recv' c) → Produces W recv' q t' →
      ∀ i, rowsOf (t.out i) = rowsOf (t'.out i)) ∧
    (p.NoBloom → W.bloom.Seed → ∀ got, ∃ recv' t', Delivers got next next' recv' ∧
      Produces W recv' q t' ∧ ∀ i, rowsOf (t.out i) = rowsOf (t'.out i)) := by
  have heq : ∀ {recv' t'}, (∀ c ∈ p.senders .probe, recv c = recv' c) → Produces W recv' q t' →
      ∀ i, rowsOf (t.out i) = rowsOf (t'.out i) :=
    fun hrecv ht' => congrFun (insertWith_transparent hB h hsafe hrecv ht ht')
  refine ⟨fun recv' t' => heq, fun hp seed got => ?_⟩
  have hnone : ∀ recv' : Recv W, ∀ c ∈ p.senders .probe, recv c = recv' c := fun recv' c hc => by
    rw [hp .probe] at hc
    cases hc
  rw [insertBloomFilters] at h
  cases hskip : edges.isEmpty with
  | true =>
    rw [hskip, insertWith_skip] at h
    cases h
    have ht' : Produces W (fun _ _ => none) p t := ht.congr fun side c hc => by
      rw [hp side] at hc
      cases hc
    exact ⟨_, t, fun c i => by simp, ht', fun i => rfl⟩
  | false =>
    rw [hskip] at h
    obtain ⟨recv', t', hdel, -, ht'⟩ := insertWith_runs seed got hp h ht
    exact ⟨recv', t', hdel, ht', heq (hnone recv') ht'⟩

/-- The filter drops the order of customer 3 and the one without a customer; the join's two
rows stay, here in other batches. -/
theorem customerOrders_transparent :
    rowsOf ((runOf [[[.int64 2, .int64 2], [.int64 2, .int64 2]]]).out 0) =
      rowsOf ((runOf [[[.int64 2, .int64 2]], [], [[.int64 2, .int64 2]]]).out 0) := by
  have h : insertBloomFilters acceptAll
      (.hashJoin (customerOrders .nullEqualsNothing) customers orders)
      [⟨"customer_id@0", "customer@0"⟩] 0 =
        .ok (.hashJoin (customerOrders .nullEqualsNothing) (.bloomBuild "customer_id" 0 customers)
          (.bloomProbe "customer" 0 orders), 1) := rfl
  have ht : Produces tables delivered
      (.hashJoin (customerOrders .nullEqualsNothing) customers orders)
      (runOf [[[.int64 2, .int64 2], [.int64 2, .int64 2]]]) :=
    ⟨_, _, produces_customers _, produces_orders _, rfl, id, rfl,
      fun _ _ h => absurd h List.not_mem_nil, fun _ => rfl⟩
  have ht' : Produces tables delivered
      (.hashJoin (customerOrders .nullEqualsNothing) (.bloomBuild "customer_id" 0 customers)
        (.bloomProbe "customer" 0 orders))
      (runOf [[[.int64 2, .int64 2]], [], [[.int64 2, .int64 2]]]) :=
    ⟨_, _, produces_built, produces_probed, rfl, id, rfl, matched_built, fun _ => rfl⟩
  have hsafe : AtInnerJoins FilterSafe
      (.hashJoin (customerOrders .nullEqualsNothing) customers orders) :=
    ⟨fun _ => ⟨rfl, (customerOrders_keysReadOwn _).lookedUp⟩, trivial, trivial⟩
  exact (insertBloomFilters_transparent exactBloom_noFalseNegatives h hsafe ht).1 _ _
    (fun _ _ => rfl) ht' 0

/-! ## Null-equal joins -/

/-- **When the filters leave a join's output alone.** Wrap the children of an inner join for all
its keys. The rows that reach the join give the same output as the children's own rows exactly
when no joining probe row has a null in a key whose payload its partition received. -/
theorem wrapped_join_eq_iff (hB : W.bloom.NoFalseNegatives) {j : HashJoinExec S}
    {l r l' r' : ExecutionPlan S} {next next' : Nat} (hinner : j.joinType = .inner)
    (hkeys : j.KeysReadOwn l.schema r.schema)
    (hwrap : wrapKeys (fun _ _ _ => true) 0 j.on l r next = (l', r', next'))
    {recv recv' : Recv W}
    (hrecv : ∀ c ∈ l.senders .probe ++ r.senders .probe, recv c = recv' c)
    {tl tr tl' tr' : PlanRun W} {part : Nat → Nat} (hl : Produces W recv l tl)
    (hr : Produces W recv r tr)
    (hl' : Produces W recv' l' tl') (hr' : Produces W recv' r' tr')
    (hmatch : Matched recv' tl' part) (i : Nat) :
    j.innerJoin W (tl'.bags W (part i)) (tr'.bags W i) =
        j.innerJoin W (tl.bags W (part i)) (tr.bags W i) ↔
      ∀ lrow ∈ tl.bags W (part i), ∀ rrow ∈ tr.bags W i, j.joins W lrow rrow = true →
        ∀ pr ∈ joinPairs (fun _ _ _ => true) j l r next, (recv' pr.sender i).isSome →
          pr.key.2.evaluate W rrow ≠ .null := by
  have hw := wrap_eq (fun _ _ _ => true) j l r next
  rw [if_pos hinner, hwrap] at hw
  cases hw
  obtain ⟨ul, ur, hul, hur, hiff⟩ := innerJoin_stacks_eq_iff hB rfl rfl
    (joinPairs_pairsFor _ j l r next) hkeys.lookedUp hl' hr' hmatch
  rw [hl.bags_unique hB (fun c hc => hrecv c (List.mem_append_left _ hc)) hul,
    hr.bags_unique hB (fun c hc => hrecv c (List.mem_append_right _ hc)) hur]
  exact hiff i

theorem customerOrders_wrapped_iff :
    (customerOrders .nullEqualsNull).innerJoin tables (builtRun.bags tables 0)
        ((runOf [[[.int64 2], [.int64 2]]]).bags tables 0) =
      (customerOrders .nullEqualsNull).innerJoin tables
        ((runOf [tableRows "customers"]).bags tables 0)
        ((runOf [tableRows "orders"]).bags tables 0) ↔
    ∀ lrow ∈ (runOf [tableRows "customers"]).bags tables 0,
      ∀ rrow ∈ (runOf [tableRows "orders"]).bags tables 0,
        (customerOrders .nullEqualsNull).joins tables lrow rrow = true →
          ∀ pr ∈ joinPairs (fun _ _ _ => true) (customerOrders .nullEqualsNull) customers orders 0,
            (delivered pr.sender 0).isSome → pr.key.2.evaluate tables rrow ≠ .null := by
  have hwrap : wrapKeys (fun _ _ _ => true) 0 (customerOrders .nullEqualsNull).on customers orders
      0 = (.bloomBuild "customer_id" 0 customers, .bloomProbe "customer" 0 orders, 1) := rfl
  have hrecv : ∀ c ∈ customers.senders .probe ++ orders.senders .probe,
      delivered c = delivered c := fun _ _ => rfl
  exact wrapped_join_eq_iff exactBloom_noFalseNegatives rfl (customerOrders_keysReadOwn _) hwrap
    hrecv (produces_customers _) (produces_orders _) produces_built produces_probed matched_built 0

/-- `IS NOT DISTINCT FROM` joins lose rows: with the filter delivered, the order without a
customer no longer reaches the join, where the customer without an id is its partner. -/
theorem customerOrders_null_lost :
    (customerOrders .nullEqualsNull).KeysReadOwn customers.schema orders.schema ∧
    wrapKeys (fun _ _ _ => true) 0 (customerOrders .nullEqualsNull).on customers orders 0 =
      (.bloomBuild "customer_id" 0 customers, .bloomProbe "customer" 0 orders, 1) ∧
    Produces tables delivered (.bloomBuild "customer_id" 0 customers) builtRun ∧
    Produces tables delivered (.bloomProbe "customer" 0 orders)
      (runOf [[[.int64 2], [.int64 2]]]) ∧
    Matched delivered builtRun id ∧
    (customerOrders .nullEqualsNull).innerJoin tables (builtRun.bags tables 0)
        ((runOf [[[.int64 2], [.int64 2]]]).bags tables 0) =
      {[.int64 2, .int64 2], [.int64 2, .int64 2]} ∧
    (customerOrders .nullEqualsNull).innerJoin tables
        ((runOf [tableRows "customers"]).bags tables 0)
        ((runOf [tableRows "orders"]).bags tables 0) =
      {[.int64 2, .int64 2], [.int64 2, .int64 2], [.null, .null]} :=
  ⟨customerOrders_keysReadOwn _, rfl, produces_built, produces_probed, matched_built, rfl, rfl⟩

end PredicateTransfer
