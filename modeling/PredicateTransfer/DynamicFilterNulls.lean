import PredicateTransfer.BuildAccumulator
import PredicateTransfer.NullAwareJoin

/-!
# Dynamic filters and `NULL`

`allow_join_dynamic_filter_pushdown` looks at the join type, and not at how the join treats `NULL`.
Two kinds of joins need probe rows that the filter drops.

Where `NULL` is equal to `NULL`, a probe row with a `NULL` key can have a partner. The range checks
and a list of single keys are not true on it. The filter is true on all rows with a partner, and the
join stays the same, exactly if every report that such a row depends on is `NullSafe`
(`dynamicFilter_keeps_null_partners_iff`).

For `NOT IN` a probe row matters without a partner: a `NULL` key keeps everything out, and any row
keeps the build rows with a `NULL` key out. The filter of a join with one key is true on a probe row
exactly if it is between two build keys, where there are bounds, and equal to one, or has the hash
of one if they are in a hash table (`dynamicFilter_eq_true_iff_admits`). So the output under the
filter is the output without it exactly if a `NULL` among the probe keys is let through, or is not
needed, and some probe row is, if a build key is `NULL` (`notIn_dynamicFilter_iff`).
-/

namespace PredicateTransfer

open SemiJoin

variable {S : Sig} {W : World S} {j : HashJoinExec S} {H : KeyHash W} {O : KeyOrder W}
variable {route : KeyHash W} {n : Nat} {report : Fin n → PartitionData W}
variable {keys : Option (IntegerKeys W)}

/-! ## Joins in which `NULL` is equal to `NULL` -/

/-- **The filter is true on all rows with a partner**, and with it the join is the same, exactly if
each partner of a row with a `NULL` key was reported in a form made for `NULL`. -/
theorem dynamicFilter_keeps_null_partners_iff {build : Fin n → List (RecordBatch S)}
    (h : BuildReports W j H O route report keys build) (config : OptimizerConfig)
    (hallow : j.allowJoinDynamicFilterPushdown config = true) {R : Multiset (Row S)}
    (hR : ∀ r ∈ R, RightTyped W j keys r) :
    ((∀ r ∈ R, (∃ i, ∃ l ∈ (build i).flatten, j.joins W l r = true) →
        dynamicFilter W j H O route report r = some true) ∧
      ∀ i cis, j.join W cis (rowsOf (build i))
          (R.filter fun r => dynamicFilter W j H O route report r == some true) =
        j.join W cis (rowsOf (build i)) R) ↔
      ∀ r ∈ R, ∀ i, ∀ l ∈ (build i).flatten, j.joins W l r = true →
        j.hasNullKey W r = true → (report i).NullSafe j := by
  have hrow : ∀ r ∈ R, ∀ i, ∀ l ∈ (build i).flatten, j.joins W l r = true →
      (dynamicFilter W j H O route report r = some true ↔
        (j.hasNullKey W r = true → (report i).NullSafe j)) := by
    intro r hr i l hl hjoins
    rw [HashJoinExec.joins_eq, Bool.and_eq_true] at hjoins
    exact dynamicFilter_eq_true_iff h (hR r hr) hl hjoins.1
  constructor
  · rintro ⟨htrue, -⟩ r hr i l hl hjoins
    exact (hrow r hr i l hl hjoins).1 (htrue r hr ⟨i, l, hl, hjoins⟩)
  · intro hsafe
    have htrue : ∀ r ∈ R, ∀ i, ∀ l ∈ (build i).flatten, j.joins W l r = true →
        dynamicFilter W j H O route report r = some true := fun r hr i l hl hjoins =>
      (hrow r hr i l hl hjoins).2 (hsafe r hr i l hl hjoins)
    refine ⟨fun r hr ⟨i, l, hl, hjoins⟩ => htrue r hr i l hl hjoins, fun i cis => ?_⟩
    refine HashJoinExec.join_filter_right (HashJoinExec.probePreserved_of_allow hallow) ?_
    intro l hl r hr hjoins
    rw [htrue r hr i l (Multiset.mem_coe.1 hl) hjoins]
    rfl

/-- `customers.customer_id IS NOT DISTINCT FROM orders.customer`. -/
def sameCustomer : HashJoinExec rowSig :=
  { onCustomer .inner none false with nullEquality := .nullEqualsNull }

/-- The customers are looked up in the table, after a check of the bounds. -/
def customerReport (j : HashJoinExec rowSig) : Fin 1 → PartitionData rowWorld := fun _ =>
  partitionData rowWorld j int64Order customerTable customerBatches false true

theorem sameCustomer_keeps_null_partners_iff :
    let keep := dynamicFilter rowWorld sameCustomer collidingHash int64Order parityHash
      (customerReport sameCustomer)
    let R : Multiset (Row rowSig) := {[.null], [.int64 2]}
    ((∀ r ∈ R, (∃ _i : Fin 1, ∃ l ∈ customerBatches.flatten,
        sameCustomer.joins rowWorld l r = true) → keep r = some true) ∧
      ∀ (_i : Fin 1) cis, sameCustomer.join rowWorld cis (rowsOf customerBatches)
          (R.filter fun r => keep r == some true) =
        sameCustomer.join rowWorld cis (rowsOf customerBatches) R) ↔
      ∀ r ∈ R, ∀ i : Fin 1, ∀ l ∈ customerBatches.flatten,
        sameCustomer.joins rowWorld l r = true → sameCustomer.hasNullKey rowWorld r = true →
          (customerReport sameCustomer i).NullSafe sameCustomer := by
  have hreports : BuildReports rowWorld sameCustomer collidingHash int64Order parityHash
      (customerReport sameCustomer) none (fun _ => customerBatches) :=
    { on := List.cons_ne_nil _ _
      mode := by decide
      reports := fun i => ⟨⟨noPerfectHash, fun _ => none, customerTable, false, true, rfl, rfl⟩,
        nofun⟩
      shared := fun _ i k => ⟨rfl, rfl⟩
      routed := nofun }
  exact dynamicFilter_keeps_null_partners_iff hreports ⟨true, 0⟩ rfl fun _ _ => nofun

/-- The order without a customer joins with the customer without a number, and the filter drops
it. -/
theorem sameCustomer_loses_null :
    let keep := dynamicFilter rowWorld sameCustomer collidingHash int64Order parityHash
      (customerReport sameCustomer)
    let cis := sameCustomer.columnIndices [⟨"customer_id", .int64, true⟩]
      [⟨"customer", .int64, true⟩]
    let R : Multiset (Row rowSig) := {[.null]}
    sameCustomer.allowJoinDynamicFilterPushdown ⟨true, 0⟩ = true ∧
      collectLeftInput rowWorld sameCustomer collidingHash noPerfectHash none (fun _ => none)
        customerBatches = .ok customerTable ∧
      keep [.null] = none ∧
      sameCustomer.join rowWorld cis (rowsOf customerBatches) R = {[.null, .null]} ∧
      sameCustomer.join rowWorld cis (rowsOf customerBatches)
        (R.filter fun r => keep r == some true) = 0 :=
  ⟨rfl, rfl, rfl, rfl, rfl⟩

/-! ## `NOT IN` -/

/-! ### What the filter of a join with one key lets through -/

/-- The membership part of a report finds a build row with the same key, or with the same hash. -/
def PushdownStrategy.Finds (H : KeyHash W) (j : HashJoinExec S) (rows : List (Row S)) (r : Row S) :
    PushdownStrategy W → Prop
  | .map table => table.Holds H j rows r
  | .inList _ | .empty => ∃ l ∈ rows, W.valueEq (j.leftKey W l) (j.rightKey W r) = true

/-- What a report of the build rows says about a probe row. -/
structure PartitionData.Admits (H : KeyHash W) (O : KeyOrder W) (j : HashJoinExec S)
    (d : PartitionData W) (rows : List (Row S)) (r : Row S) : Prop where
  bounds : d.bounds ≠ [] →
    (∃ l ∈ rows, O.ltEq (j.leftKey W l) (j.rightKey W r) = some true) ∧
      ∃ l ∈ rows, O.ltEq (j.rightKey W r) (j.leftKey W l) = some true
  member : d.pushdown.Finds H j rows r

/-- A `NULL` passes where there are no bounds and the build keys are in a hash table, one of them
with the hash of `NULL`. -/
structure PartitionData.AdmitsNull (H : KeyHash W) (j : HashJoinExec S) (d : PartitionData W)
    (rows : List (Row S)) : Prop where
  bounds : d.bounds = []
  hashMap : ∃ m, d.pushdown = .map (.hashMap m)
  hash : ∃ l ∈ rows, H.hash (j.leftKeys W l) = H.hash [.null]

section
variable {batches : List (RecordBatch S)} {d : PartitionData W} {rows : List (Row S)} {l r : Row S}

theorem isNull_of_valueEq {a b : Value S} (h : W.valueEq a b = true) : b.isNull = false := by
  rw [← keyEq_nullEqualsNothing] at h
  exact Value.isNull_eq_false_iff.2 (ne_null_of_keyEq h)

theorem rightKeys_of_isNull (hone : j.on.length = 1) (hr : (j.rightKey W r).isNull = true) :
    j.rightKeys W r = [.null] := by
  obtain ⟨key, hkey⟩ := List.length_eq_one_iff.1 hone
  have hnull : j.rightKey W r = .null := by
    by_contra hne
    rw [Value.isNull_eq_false_iff.2 hne] at hr
    cases hr
  simpa [HashJoinExec.rightKey, HashJoinExec.rightKeys, hkey] using hnull

/-- **On a `NULL` all parts of a report but a hash table are not true.** -/
theorem PartitionData.admits_iff_of_null (hone : j.on.length = 1)
    (hr : (j.rightKey W r).isNull = true) : d.Admits H O j rows r ↔ d.AdmitsNull H j rows := by
  have hvalue : ¬ ∃ l ∈ rows, W.valueEq (j.leftKey W l) (j.rightKey W r) = true := by
    rintro ⟨l, -, heq⟩
    rw [isNull_of_valueEq heq] at hr
    cases hr
  constructor
  · rintro ⟨hbounds, hmember⟩
    have hnil : d.bounds = [] := by
      by_contra hne
      obtain ⟨⟨l, -, hle⟩, -⟩ := hbounds hne
      rw [(KeyOrder.ltEq_eq_true.1 hle).2.1] at hr
      cases hr
    cases hpush : d.pushdown with
    | inList values =>
      rw [hpush] at hmember
      exact absurd hmember hvalue
    | empty =>
      rw [hpush] at hmember
      exact absurd hmember hvalue
    | map map =>
      rw [hpush] at hmember
      cases map with
      | arrayMap I m => exact absurd hmember hvalue
      | hashMap m =>
        obtain ⟨l, hl, hhash⟩ := hmember
        rw [rightKeys_of_isNull hone hr] at hhash
        exact ⟨hnil, ⟨m, hpush⟩, l, hl, hhash⟩
  · rintro ⟨hnil, ⟨m, hpush⟩, l, hl, hhash⟩
    refine ⟨fun hne => absurd hnil hne, ?_⟩
    rw [hpush]
    refine ⟨l, hl, ?_⟩
    rw [rightKeys_of_isNull hone hr]
    exact hhash

theorem inListValue_eq_true_iff {haystack : List (Value S)} {needle : Value S} :
    inListValue W haystack needle = some true ↔ ∃ v ∈ haystack, W.valueEq v needle = true := by
  rw [← List.any_eq_true]
  unfold inListValue
  split_ifs with hnull hany hnulls
  · simp only [List.any_eq_true, false_iff]
    rintro ⟨v, -, heq⟩
    rw [isNull_of_valueEq heq] at hnull
    cases hnull
  · simp [hany]
  · simp [hany]
  · simp [hany]

/-- The membership part, for one key. -/
theorem membership_eq_true_iff_finds {left : JoinLeftData W} {config : PerfectHashConfig}
    {bounds : (t : IntegerType) → Option (List (ColumnBounds t))} (hone : j.on.length = 1)
    (hleft : collectLeftInput W j H config keys bounds batches = .ok left)
    (htyped : ∀ I, keys = some I → ∀ l ∈ batches.flatten, I.IsValue ((j.leftKeys W l).headD .null))
    (hr : RightTyped W j keys r) (hne : batches.flatten ≠ []) (inList withBounds : Bool) :
    ∃ m, createMembershipPredicate W j H
        (partitionData W j O left batches inList withBounds).pushdown = some m ∧
      (m r = some true ↔ (partitionData W j O left batches inList withBounds).pushdown.Finds H j
        batches.flatten r) := by
  have hempty : batches.flatten.isEmpty = false := List.isEmpty_eq_false_iff.2 hne
  have hon : j.on ≠ [] := List.ne_nil_of_length_eq_add_one hone
  cases inList with
  | true =>
    have hpush : (partitionData W j O left batches true withBounds).pushdown =
        .inList (left.batch.map (j.leftKeys W)) := by
      simp [partitionData, hempty]
    rw [hpush]
    refine ⟨_, rfl, ?_⟩
    have hperm := (collectLeftInput_finds hon hleft htyped).1
    rw [if_pos hone, inListValue_eq_true_iff, List.map_map]
    constructor
    · rintro ⟨v, hv, heq⟩
      obtain ⟨l, hl, rfl⟩ := List.mem_map.1 hv
      exact ⟨l, hperm.mem_iff.1 hl, heq⟩
    · rintro ⟨l, hl, heq⟩
      exact ⟨_, List.mem_map_of_mem (hperm.mem_iff.2 hl), heq⟩
  | false =>
    have hpush : (partitionData W j O left batches false withBounds).pushdown =
        .map left.map := by
      simp [partitionData, hempty]
    rw [hpush]
    refine ⟨_, rfl, ?_⟩
    rw [Option.some_inj]
    exact collectLeftInput_contains_iff hleft htyped hr

/-- **The check of one partition, for one key.** -/
theorem condition_eq_true_iff_admits (hone : j.on.length = 1) (hd : Reports W j H O keys batches d)
    (hr : RightTyped W j keys r) (hne : batches.flatten ≠ []) :
    d.pushdown ≠ .empty ∧ ∃ p, conditionOf W j H O d = some p ∧
      (p r = some true ↔ d.Admits H O j batches.flatten r) := by
  obtain ⟨config, intBounds, left, inList, withBounds, hleft, rfl⟩ := hd.data
  have hempty : batches.flatten.isEmpty = false := List.isEmpty_eq_false_iff.2 hne
  have hon : j.on ≠ [] := List.ne_nil_of_length_eq_add_one hone
  obtain ⟨m, hm, hmr⟩ :=
    membership_eq_true_iff_finds (O := O) hone hleft hd.typed hr hne inList withBounds
  refine ⟨?_, ?_⟩
  · intro hempty
    rw [hempty] at hm
    cases hm
  unfold conditionOf
  rw [hm]
  cases withBounds with
  | true =>
    obtain ⟨p, hp, hpr⟩ : ∃ p,
        createBoundsPredicate W j O (collectBounds W j O batches) = some p ∧ (p r = some true ↔
          ∀ key ∈ j.on, rangeExpr W O (key, keyBounds W O batches key) r = some true) :=
      createBoundsPredicate_collectBounds hon
    have hbounds : (partitionData W j O left batches inList true).bounds =
        collectBounds W j O batches := by
      simp [partitionData, hempty]
    have hnil : collectBounds W j O batches ≠ [] := by
      simpa [collectBounds] using hon
    rw [hbounds, hp]
    refine ⟨_, rfl, ?_⟩
    rw [ThreeValued.and_eq_true, hpr, hmr]
    obtain ⟨key, hkey⟩ := List.length_eq_one_iff.1 hone
    have hrange : (∀ key ∈ j.on, rangeExpr W O (key, keyBounds W O batches key) r = some true) ↔
        (∃ l ∈ batches.flatten, O.ltEq (j.leftKey W l) (j.rightKey W r) = some true) ∧
          ∃ l ∈ batches.flatten, O.ltEq (j.rightKey W r) (j.leftKey W l) = some true := by
      simp only [hkey, List.forall_mem_singleton, rangeExpr_keyBounds_iff, HashJoinExec.leftKey,
        HashJoinExec.rightKey, HashJoinExec.leftKeys, HashJoinExec.rightKeys, List.map_cons,
        List.headD_cons]
    rw [hrange]
    constructor
    · rintro ⟨hbetween, hmember⟩
      exact ⟨fun _ => hbetween, hmember⟩
    · rintro ⟨hbetween, hmember⟩
      exact ⟨hbetween (by rw [hbounds]; exact hnil), hmember⟩
  | false =>
    have hbounds : (partitionData W j O left batches inList false).bounds = [] := rfl
    have hnone : createBoundsPredicate W j O [] = none := by
      simp [createBoundsPredicate]
    rw [hbounds, hnone]
    refine ⟨_, rfl, ?_⟩
    rw [hmr]
    exact ⟨fun hmember => ⟨fun hne => absurd hbounds hne, hmember⟩, fun h => h.member⟩

/-- **The filter over one build side, for one key**, says what any report says. -/
theorem dynamicFilter_eq_true_iff_admits {build : List (RecordBatch S)} (hone : j.on.length = 1)
    (h : BuildReports W j H O route report keys fun _ => build) (hr : RightTyped W j keys r)
    (hne : build.flatten ≠ []) (i : Fin n) :
    dynamicFilter W j H O route report r = some true ↔
      (report i).Admits H O j build.flatten r := by
  obtain ⟨hempty, q, hq, hqr⟩ := condition_eq_true_iff_admits hone (h.reports i) hr hne
  rw [← hqr]
  unfold dynamicFilter AccumulatedBuildData.all
  cases hmode : j.mode with
  | auto => exact absurd hmode h.mode
  | partitioned =>
    -- The build rows are in one partition each, so there is only one.
    obtain ⟨l, hl⟩ := List.exists_mem_of_ne_nil _ hne
    have honly : ∀ k : Fin n, k = i := fun k =>
      Fin.ext ((h.routed hmode k l hl).symm.trans (h.routed hmode i l hl))
    have hlt : (route.hash (j.rightKeys W r)).toNat % n < n :=
      Nat.mod_lt _ (Nat.lt_of_le_of_lt (Nat.zero_le _) i.2)
    have hroute : (route.hash (j.rightKeys W r)).toNat % n = i :=
      congrArg Fin.val (honly ⟨_, hlt⟩)
    obtain ⟨f, hf, hfr⟩ := buildFilter_partitioned hroute hempty hq
    simp only [hf, Option.getD_some, hfr]
  | collectLeft =>
    have hfin : List.finRange n ≠ [] := List.ne_nil_of_mem (List.mem_finRange i)
    have hk := List.head?_eq_some_head hfin
    generalize (List.finRange n).head hfin = k at hk
    simp only [hk, Option.map_some, buildFilter, Option.bind_some]
    rw [← (h.shared hmode i k).2, hq, Option.getD_some]

end

/-! ### What `NOT IN` makes of the rows that are left -/

section
variable {keep : Row S → Bool} {probe : List (Row S)} {l : Row S}

theorem HashJoinExec.nullAwareKeeps_filter (h : j.nullAwareKeeps W probe l = true) :
    j.nullAwareKeeps W (probe.filter keep) l = true := by
  rw [nullAwareKeeps_iff_forall] at h ⊢
  intro r hr
  exact h r (List.mem_of_mem_filter hr)

theorem HashJoinExec.nullAwareKeeps_iff_nil (hl : (j.leftKey W l).isNull = true) :
    j.nullAwareKeeps W probe l = true ↔ probe = [] := by
  rw [nullAwareKeeps_iff_forall, List.eq_nil_iff_forall_not_mem]
  constructor
  · intro h r hr
    rw [(h r hr).2.1] at hl
    cases hl
  · exact fun h r hr => absurd hr (h r)

/-- A build row with a `NULL` key that stays under the filter stays without it exactly if a row is
kept, where there is one. -/
theorem HashJoinExec.nullAwareKeeps_of_filter_iff_of_null (hl : (j.leftKey W l).isNull = true) :
    (j.nullAwareKeeps W (probe.filter keep) l = true → j.nullAwareKeeps W probe l = true) ↔
      (probe ≠ [] → ∃ r ∈ probe, keep r = true) := by
  rw [nullAwareKeeps_iff_nil hl, nullAwareKeeps_iff_nil hl, ← not_imp_not, ← ne_eq, ← ne_eq]
  refine imp_congr_right fun _ => ?_
  simp only [ne_eq, List.filter_eq_nil_iff, not_forall, not_not, exists_prop]

/-- If the filter keeps the partners without a `NULL` key, another build row that stays under the
filter stays without it exactly if a `NULL` or a partner is kept, where there is a `NULL`. -/
theorem HashJoinExec.nullAwareKeeps_of_filter_iff_of_key (hl : (j.leftKey W l).isNull = false)
    (hkeep : ∀ r ∈ probe, (j.rightKey W r).isNull = false → j.joins W l r = true →
      keep r = true) :
    (j.nullAwareKeeps W (probe.filter keep) l = true → j.nullAwareKeeps W probe l = true) ↔
      ((∃ r ∈ probe, (j.rightKey W r).isNull = true) →
        ∃ r ∈ probe, keep r = true ∧
          ((j.rightKey W r).isNull = true ∨ j.joins W l r = true)) := by
  rw [nullAwareKeeps_iff_forall, nullAwareKeeps_iff_forall]
  constructor
  · rintro h ⟨r₀, hr₀, hnull⟩
    by_contra hnone
    have hall := h fun r hr => by
      obtain ⟨hr, hk⟩ := List.mem_filter.1 hr
      refine ⟨?_, hl, ?_⟩
      · rw [← Bool.not_eq_true]
        exact fun hrn => hnone ⟨r, hr, hk, .inl hrn⟩
      · rw [← Bool.not_eq_true]
        exact fun hjoin => hnone ⟨r, hr, hk, .inr hjoin⟩
    rw [(hall r₀ hr₀).1] at hnull
    cases hnull
  · intro hspeaks hkept r hr
    have hrn : (j.rightKey W r).isNull = false := by
      rw [← Bool.not_eq_true]
      intro hrn
      obtain ⟨r', hr', hk, hout⟩ := hspeaks ⟨r, hr, hrn⟩
      simp [hkept r' (List.mem_filter.2 ⟨hr', hk⟩)] at hout
    refine ⟨hrn, hl, ?_⟩
    rw [← Bool.not_eq_true]
    intro hjoins
    rw [(hkept r (List.mem_filter.2 ⟨hr, hkeep r hr hrn hjoins⟩)).2.2] at hjoins
    cases hjoins

end

/-- The probe rows that the report lets through say the same as all of them: if one has a `NULL`
key, `NULL` passes or all build rows have partners, but those with a `NULL` key; for these some
probe row passes, if there is one. -/
structure PartitionData.SpeaksForAll (H : KeyHash W) (O : KeyOrder W) (j : HashJoinExec S)
    (d : PartitionData W) (rows probe : List (Row S)) : Prop where
  null : (∃ r ∈ probe, (j.rightKey W r).isNull = true) →
    d.AdmitsNull H j rows ∨
      ∀ l ∈ rows, (j.leftKey W l).isNull = false → ∃ r ∈ probe, j.joins W l r = true
  nullKey : probe ≠ [] → (∃ l ∈ rows, (j.leftKey W l).isNull = true) →
    ∃ r ∈ probe, d.Admits H O j rows r

/-- A partner of a build row with a key has a key. -/
theorem HashJoinExec.isNull_of_joins {l r : Row S} (hone : j.on.length = 1)
    (hjoins : j.joins W l r = true) : (j.leftKey W l).isNull = (j.rightKey W r).isNull := by
  rw [HashJoinExec.joins_eq, Bool.and_eq_true, keysEqual_of_length_one hone] at hjoins
  exact isNull_of_keyEq hjoins.1

/-- **Row by row and as a whole.** -/
theorem PartitionData.speaksForAll_iff {d : PartitionData W} {keep : Row S → Bool}
    {rows probe : List (Row S)} (hone : j.on.length = 1)
    (hadmits : ∀ r ∈ probe, keep r = true ↔ d.Admits H O j rows r)
    (hkeep : ∀ l ∈ rows, ∀ r ∈ probe, (j.rightKey W r).isNull = false → j.joins W l r = true →
      keep r = true) :
    (∀ l ∈ rows, j.nullAwareKeeps W (probe.filter keep) l = true →
      j.nullAwareKeeps W probe l = true) ↔ d.SpeaksForAll H O j rows probe := by
  constructor
  · intro h
    refine ⟨fun hnull => ?_, fun hne ⟨l, hl, hln⟩ => ?_⟩
    · refine or_iff_not_imp_left.2 fun hnot l hl hln => ?_
      obtain ⟨r, hr, hk, hout⟩ :=
        (HashJoinExec.nullAwareKeeps_of_filter_iff_of_key hln (hkeep l hl)).1 (h l hl) hnull
      refine ⟨r, hr, hout.resolve_left fun hrn => hnot ?_⟩
      exact (admits_iff_of_null hone hrn).1 ((hadmits r hr).1 hk)
    · obtain ⟨r, hr, hk⟩ :=
        (HashJoinExec.nullAwareKeeps_of_filter_iff_of_null hln).1 (h l hl) hne
      exact ⟨r, hr, (hadmits r hr).1 hk⟩
  · intro h l hl
    cases hln : (j.leftKey W l).isNull with
    | true =>
      refine (HashJoinExec.nullAwareKeeps_of_filter_iff_of_null hln).2 fun hne => ?_
      obtain ⟨r, hr, hadmit⟩ := h.nullKey hne ⟨l, hl, hln⟩
      exact ⟨r, hr, (hadmits r hr).2 hadmit⟩
    | false =>
      refine (HashJoinExec.nullAwareKeeps_of_filter_iff_of_key hln (hkeep l hl)).2 ?_
      rintro ⟨r₀, hr₀, hrn⟩
      rcases h.null ⟨r₀, hr₀, hrn⟩ with hadmit | hpartners
      · exact ⟨r₀, hr₀, (hadmits r₀ hr₀).2 ((admits_iff_of_null hone hrn).2 hadmit), .inl hrn⟩
      · obtain ⟨r, hr, hjoins⟩ := hpartners l hl hln
        have hrn := (HashJoinExec.isNull_of_joins hone hjoins).symm.trans hln
        exact ⟨r, hr, hkeep l hl r hr hrn hjoins, .inr hjoins⟩

section
variable {build : List (RecordBatch S)} {left : JoinLeftData W} {batchSize : Nat}
variable {inputs : Fin n → List (RecordBatch S)}

/-- The probe side under a filter. -/
def filterInputs (keep : Row S → Bool) (inputs : Fin n → List (RecordBatch S)) :
    Fin n → List (RecordBatch S) := fun i => (inputs i).map (List.filter keep)

theorem allRows_filterInputs (keep : Row S → Bool) :
    allRows (filterInputs keep inputs) = (allRows inputs).filter keep := by
  simp only [allRows, filterInputs, List.filter_flatMap, List.filter_flatten]

theorem NullAwareRun.filter (h : NullAwareRun W j H build left batchSize inputs)
    (keep : Row S → Bool) : NullAwareRun W j H build left batchSize (filterInputs keep inputs) := by
  obtain ⟨config, keys, bounds, hleft, htyped⟩ := h.left
  refine { h with left := ⟨config, keys, bounds, hleft, fun I hI => ⟨(htyped I hI).1, ?_⟩⟩ }
  intro i b hb r hr
  obtain ⟨b', hb', rfl⟩ := List.mem_map.1 hb
  exact (htyped I hI).2 i b' hb' r (List.mem_of_mem_filter hr)

/-- **`NOT IN` under its own dynamic filter**: whatever the interleavings, the output is the same as
without the filter exactly if the probe rows that the reports let through say the same as all. -/
theorem notIn_dynamicFilter_iff (h : NullAwareRun W j H build left batchSize inputs)
    (hreports : BuildReports W j H O route report keys fun _ => build)
    (hinputs : ∀ r ∈ allRows inputs, RightTyped W j keys r)
    (leftSchema rightSchema : Schema) (rightSideOrdered : Bool) :
    let keep := fun r => dynamicFilter W j H O route report r == some true
    let C : JoinContext W :=
      ⟨j, j.columnIndices leftSchema rightSchema, H, left, rightSideOrdered, batchSize⟩
    C.EndsWith inputs fun out => C.EndsWith (filterInputs keep inputs) fun out' =>
      ∑ i, out' i = ∑ i, out i ↔
        ∀ i, (report i).SpeaksForAll H O j build.flatten (allRows inputs) := by
  intro keep C
  have hkeep : ∀ l ∈ build.flatten, ∀ r ∈ allRows inputs, (j.rightKey W r).isNull = false →
      j.joins W l r = true → keep r = true := by
    intro l hl r hr hrn hjoins
    obtain ⟨i⟩ : Nonempty (Fin n) := ⟨⟨0, h.streams⟩⟩
    rw [HashJoinExec.joins_eq, Bool.and_eq_true] at hjoins
    have hnull : j.hasNullKey W r = false := by
      obtain ⟨key, hkey⟩ := List.length_eq_one_iff.1 h.on
      simpa [HashJoinExec.hasNullKey, HashJoinExec.rightKey, HashJoinExec.rightKeys, hkey]
        using hrn
    have htrue := (dynamicFilter_eq_true_iff (i := i) hreports (hinputs r hr) hl hjoins.1).2
      fun htrue => Bool.noConfusion (hnull.symm.trans htrue)
    exact beq_iff_eq.2 htrue
  have hall : (∀ l ∈ build.flatten,
      j.nullAwareKeeps W ((allRows inputs).filter keep) l = true →
        j.nullAwareKeeps W (allRows inputs) l = true) ↔
      ∀ i, (report i).SpeaksForAll H O j build.flatten (allRows inputs) := by
    by_cases hne : build.flatten = []
    · rw [hne]
      constructor
      · intro _ i
        refine ⟨fun _ => .inr fun l hl => absurd hl List.not_mem_nil, fun _ hnull => ?_⟩
        obtain ⟨l, hl, -⟩ := hnull
        exact absurd hl List.not_mem_nil
      · intro _ l hl
        exact absurd hl List.not_mem_nil
    · have hiff : ∀ i, _ ↔ (report i).SpeaksForAll H O j build.flatten (allRows inputs) :=
        fun i => PartitionData.speaksForAll_iff h.on (fun r hr => beq_iff_eq.trans
          (dynamicFilter_eq_true_iff_admits h.on hreports (hinputs r hr) hne i)) hkeep
      exact ⟨fun hrows i => (hiff i).1 hrows, fun hspeaks => (hiff ⟨0, h.streams⟩).2 (hspeaks _)⟩
  refine (nullAware_streams h leftSchema rightSchema rightSideOrdered).imp fun out hout => ?_
  refine (nullAware_streams (h.filter keep) leftSchema rightSchema rightSideOrdered).imp
    fun out' hout' => ?_
  rw [hout, hout', allRows_filterInputs, eq_comm, keptRows, keptRows, map_filter_eq_map_filter_iff,
    ← hall]
  · rfl
  · exact fun l _ => HashJoinExec.nullAwareKeeps_filter

end

/-- `customer_id NOT IN (SELECT customer FROM orders)`. -/
def customerNotIn : HashJoinExec rowSig := onCustomer .leftAnti none true

def oneCustomer : List (RecordBatch rowSig) := [[[.int64 1]]]

def oneCustomerTable : JoinLeftData rowWorld := ⟨.hashMap (.ofBatches [[7]]), [[.int64 1]]⟩

def oneCustomerReport : Fin 1 → PartitionData rowWorld := fun _ =>
  partitionData rowWorld customerNotIn int64Order oneCustomerTable oneCustomer true true

/-- An order without a customer and one of customer 2. -/
def strayOrders : Fin 1 → List (RecordBatch rowSig) := fun _ => [[[.null], [.int64 2]]]

def decodeInt64 : Value rowSig → Option (IntegerType.Native .int64)
  | .int64 k => some ⟨k.toInt, k.le_toInt, Int.le_sub_one_of_lt k.toInt_lt⟩
  | _ => none

/-- `NULL` or an `int64`. -/
def IsInt64 (v : Value rowSig) : Prop := v = .null ∨ ∃ k, v = .int64 k

theorem keyEq_int64 (nullEquality : NullEquality) {a b : Value rowSig} (ha : IsInt64 a)
    (hb : IsInt64 b) :
    rowWorld.keyEq nullEquality a b = keyEqual nullEquality (decodeInt64 a) (decodeInt64 b) := by
  rcases ha with rfl | ⟨k, rfl⟩
  · rcases hb with rfl | ⟨m, rfl⟩ <;> rfl
  · rcases hb with rfl | ⟨m, rfl⟩
    · rfl
    · show (k == m) = _
      rw [Bool.eq_iff_iff, beq_iff_eq]
      simp [decodeInt64, keyEqual, Int64.toInt_inj]

/-- A column of `int64`s. -/
def int64Keys : IntegerKeys rowWorld := ⟨.int64, decodeInt64, IsInt64, keyEq_int64⟩

/-- The customer in a perfect-hash table. -/
def oneCustomerArray : JoinLeftData rowWorld :=
  ⟨.arrayMap int64Keys ⟨[1], 1, [], 1⟩, [[.int64 1]]⟩

def oneCustomerBounds : (t : IntegerType) → Option (List (ColumnBounds t))
  | .int64 => some [⟨decodeInt64 (.int64 1), decodeInt64 (.int64 1)⟩]
  | _ => none

/-- It is reported by the table and its bounds. -/
def oneCustomerArrayReport : Fin 1 → PartitionData rowWorld := fun _ =>
  partitionData rowWorld customerNotIn int64Order oneCustomerArray oneCustomer false true

theorem strayOrders_speakForAll_iff :
    let keep := fun r => dynamicFilter rowWorld customerNotIn collidingHash int64Order parityHash
      oneCustomerArrayReport r == some true
    let C : JoinContext rowWorld := ⟨customerNotIn, customerNotIn.columnIndices
      [⟨"customer_id", .int64, true⟩] [⟨"customer", .int64, true⟩], collidingHash,
      oneCustomerArray, false, 1⟩
    C.EndsWith strayOrders fun out => C.EndsWith (filterInputs keep strayOrders) fun out' =>
      ∑ i, out' i = ∑ i, out i ↔
        ∀ i, (oneCustomerArrayReport i).SpeaksForAll collidingHash int64Order customerNotIn
          oneCustomer.flatten (allRows strayOrders) := by
  have hleft : collectLeftInput rowWorld customerNotIn collidingHash
      ⟨1024, fun _ _ => false, fun _ => .ok ()⟩ (some int64Keys) oneCustomerBounds oneCustomer =
        .ok oneCustomerArray := rfl
  have hbuild : ∀ l ∈ oneCustomer.flatten, IsInt64 (customerNotIn.leftKey rowWorld l) := by
    intro l hl
    rw [List.mem_singleton.1 hl]
    exact .inr ⟨1, rfl⟩
  have horders : ∀ r ∈ allRows strayOrders, IsInt64 (customerNotIn.rightKey rowWorld r) := by
    intro r hr
    rcases List.mem_pair.1 hr with rfl | rfl
    · exact .inl rfl
    · exact .inr ⟨2, rfl⟩
  have hreports : BuildReports rowWorld customerNotIn collidingHash int64Order parityHash
      oneCustomerArrayReport (some int64Keys) fun _ => oneCustomer :=
    { on := List.cons_ne_nil _ _
      mode := by decide
      reports := fun i => ⟨⟨_, _, oneCustomerArray, false, true, hleft, rfl⟩, fun I hI => by
        cases hI
        exact hbuild⟩
      shared := fun _ i k => ⟨rfl, rfl⟩
      routed := fun h => by cases h }
  refine notIn_dynamicFilter_iff ?_ hreports ?_ _ _ false
  · exact
      { joinType := rfl
        nullAware := rfl
        on := rfl
        fetch := rfl
        batchSize := le_rfl
        streams := le_rfl
        left := ⟨_, some int64Keys, oneCustomerBounds, hleft, fun I hI => by
          cases hI
          exact ⟨hbuild, fun i b hb r hr => horders r (mem_allRows.2
            (JoinContext.mem_probeBag.2 ⟨i, b, hb, hr⟩))⟩⟩ }
  · intro r hr I hI
    cases hI
    exact horders r hr

/-- Over all orders the `NULL` keeps the customer out. Under the filter both orders are gone, and
the customer is output. -/
theorem strayOrders_filtered_away :
    let keep := fun r => dynamicFilter rowWorld customerNotIn collidingHash int64Order parityHash
      oneCustomerReport r == some true
    let C : JoinContext rowWorld := ⟨customerNotIn, customerNotIn.columnIndices
      [⟨"customer_id", .int64, true⟩] [⟨"customer", .int64, true⟩], collidingHash,
      oneCustomerTable, false, 1⟩
    let outputOf (inputs : Fin 1 → List (RecordBatch rowSig)) (steps : Nat) :=
      (Runs.run C.step (fun _ _ => True) (C.init inputs) (List.replicate steps 0)).map
        fun s => ((s.streams 0).state, (s.streams 0).output)
    customerNotIn.allowJoinDynamicFilterPushdown ⟨true, 0⟩ = true ∧
      outputOf strayOrders 7 = some (.completed, []) ∧
      outputOf (filterInputs keep strayOrders) 11 = some (.completed, [[.int64 1]]) :=
  ⟨rfl, rfl, rfl⟩

end PredicateTransfer
