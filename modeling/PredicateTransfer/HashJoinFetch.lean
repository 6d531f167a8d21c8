import PredicateTransfer.HashJoinRun

/-!
# A hash join with a fetch limit

Each stream of a join with a limit stops by itself once it has output `fetch` rows. A stream that
stops in the middle of its input does not report that it is done, so that no stream may be the
last one and the final pass may not happen at all.

A run with a limit is a run without one in which the streams that stopped are not polled any more
(`Cut.step`). That run can be completed, so all rows that were output are rows of the join; and if
rows are missing, a stream stopped and has output as many rows as were asked for
(`hashJoin_fetch`).
-/

namespace PredicateTransfer

open SemiJoin Runs

variable {S : Sig}

/-! ## The output buffer -/

/-- A limited buffer holds the first rows of what an unlimited one holds. -/
theorem pushBatch_take (fetch : Nat) (output rows : RecordBatch S) :
    pushBatch (some fetch) (output.take fetch) rows =
      ((output ++ rows).take fetch, decide (fetch ≤ (output ++ rows).length)) := by
  simp only [pushBatch, List.length_take, List.length_append, List.take_append]
  by_cases hfull : fetch ≤ output.length
  · rw [Nat.min_eq_left hfull, if_pos le_rfl, Nat.sub_eq_zero_of_le hfull, List.take_zero,
      List.append_nil, decide_eq_true (hfull.trans (Nat.le_add_right _ _))]
  · rw [Nat.min_eq_right (Nat.le_of_not_le hfull), if_neg hfull,
      List.take_of_length_le (Nat.le_of_not_le hfull)]
    by_cases hreached : fetch ≤ output.length + rows.length
    · rw [if_pos hreached, decide_eq_true hreached]
    · have hrest : rows.length ≤ fetch - output.length := by omega
      rw [if_neg hreached, decide_eq_false hreached, List.take_of_length_le hrest]

namespace JoinContext

variable {W : World S} {C : JoinContext W} {n : Nat} {shared : SharedState}

/-- The join without its limit. -/
def unlimited (C : JoinContext W) : JoinContext W :=
  { C with join := { C.join with fetch := none } }

/-- `s` is `t` with its output cut. It goes on like `t`, or has stopped with all the rows that it
may output. -/
structure Cut (fetch : Nat) (s t : HashJoinStream S) : Prop where
  output : s.output = t.output.take fetch
  goesOn : s.state = t.state ∧ s.right = t.right ∨
    s.state = .completed ∧ fetch ≤ t.output.length

/-- The pushes of a stream and of the stream that it was cut from. -/
theorem pushBatch_cut {fetch : Nat} (hfetch : C.join.fetch = some fetch) {s t : HashJoinStream S}
    (hout : s.output = t.output.take fetch) (rows : RecordBatch S) :
    pushBatch C.join.fetch s.output rows =
      ((t.output ++ rows).take fetch, decide (fetch ≤ (t.output ++ rows).length)) := by
  rw [hfetch, hout, pushBatch_take]

theorem joinChunk_cut {fetch : Nat} (hfetch : C.join.fetch = some fetch) {s t : HashJoinStream S}
    (hout : s.output = t.output.take fetch) (hright : s.right = t.right) (batch : RecordBatch S)
    (offset : MapOffset) (joined : Option Nat) :
    Option.Rel (fun x y => x.1 = y.1 ∧ Cut fetch x.2 y.2)
      (C.joinChunk shared s batch offset joined)
      (C.unlimited.joinChunk shared t batch offset joined) := by
  by_cases hempty : (C.left.map.isEmpty && C.join.filter.isNone) = true
  · rw [joinChunk, joinChunk, if_pos hempty,
      if_pos (show (C.unlimited.left.map.isEmpty && C.unlimited.join.filter.isNone) = true from
        hempty)]
    exact .some ⟨rfl, congrArg Prod.fst (pushBatch_cut hfetch hout _), .inl ⟨rfl, hright⟩⟩
  · rw [joinChunk, joinChunk, if_neg hempty,
      if_neg (show ¬ (C.unlimited.left.map.isEmpty && C.unlimited.join.filter.isNone) = true from
        hempty), show C.unlimited.probe batch offset = C.probe batch offset from rfl]
    cases C.probe batch offset with
    | none => exact .none
    | some x =>
      obtain ⟨pairs, nextOffset⟩ := x
      simp only [Option.bind_eq_bind, Option.bind_some, pushBatch_cut hfetch hout,
        show C.unlimited.join.fetch = none from rfl, pushBatch_none, Bool.false_eq_true, if_false]
      refine .some ⟨rfl, rfl, ?_⟩
      by_cases hreached : fetch ≤ (t.output ++ chunkRows C.join.joinType C.columnIndices
          C.rightSideOrdered C.left.batch batch pairs (rangeStart joined)
          (if nextOffset.isNone then batch.length else
            rangeStart (pairs.getLast?.map (·.1)))).length
      · exact .inr ⟨if_pos (decide_eq_true hreached), hreached⟩
      · exact .inl ⟨if_neg fun h => hreached (of_decide_eq_true h), hright⟩

/-- **Polling both keeps a stream the cut of the other**, as long as it has not stopped. -/
theorem poll_cut {fetch : Nat} (hfetch : C.join.fetch = some fetch) {s t : HashJoinStream S}
    (hout : s.output = t.output.take fetch) (hstate : s.state = t.state)
    (hright : s.right = t.right) :
    Option.Rel (fun x y => x.1 = y.1 ∧ Cut fetch x.2 y.2) (C.poll shared s)
      (C.unlimited.poll shared t) := by
  obtain ⟨state, right, output⟩ := s
  obtain ⟨state', right', output'⟩ := t
  obtain rfl : state = state' := hstate
  obtain rfl : right = right' := hright
  obtain rfl : output = output'.take fetch := hout
  cases state with
  | waitBuildSide => exact .some ⟨rfl, rfl, .inl ⟨rfl, rfl⟩⟩
  | fetchProbeBatch => cases right <;> exact .some ⟨rfl, rfl, .inl ⟨rfl, rfl⟩⟩
  | processProbeBatch batch offset joined next =>
    cases next with
    | join =>
      exact joinChunk_cut (s := ⟨_, _, _⟩) (t := ⟨_, _, output'⟩) hfetch rfl rfl batch offset joined
    | _ => exact .some ⟨rfl, rfl, .inl ⟨rfl, rfl⟩⟩
  | exhaustedProbeSide next =>
    cases next with
    | loadNonEmpty indices =>
      exact .some ⟨rfl, congrArg Prod.fst (pushBatch_cut (s := ⟨_, right, _⟩)
        (t := ⟨_, right, output'⟩) hfetch rfl _), .inl ⟨rfl, rfl⟩⟩
    | _ => exact .some ⟨rfl, rfl, .inl ⟨rfl, rfl⟩⟩
  | completed => exact .none

/-! ## All streams -/

/-- Every stream is cut, and what they share is the same. -/
structure AllCut (fetch : Nat) (s t : JoinState S n) : Prop where
  shared : s.shared = t.shared
  streams : ∀ i, Cut fetch (s.streams i) (t.streams i)

variable {inputs : Fin n → List (RecordBatch S)} {s t : JoinState S n} {fetch : Nat}

theorem allCut_init : AllCut fetch (C.init inputs) (C.unlimited.init inputs) where
  shared := rfl
  streams _ := ⟨List.take_nil.symm, .inl ⟨rfl, rfl⟩⟩

/-- A stream that is not done is polled with the stream that it was cut from. -/
theorem AllCut.rel (h : AllCut fetch s t) (hfetch : C.join.fetch = some fetch) {i : Fin n}
    (hne : (s.streams i).state ≠ .completed) :
    Option.Rel (AllCut fetch) (C.step s i) (C.unlimited.step t i) := by
  obtain ⟨hout, ⟨hstate, hright⟩ | ⟨hstop, -⟩⟩ := h.streams i
  · have hpoll : Option.Rel _ (C.poll s.shared _) _ := poll_cut hfetch hout hstate hright
    rw [step, step, ← h.shared]
    generalize C.poll s.shared (s.streams i) = x at hpoll ⊢
    generalize C.unlimited.poll s.shared (t.streams i) = y at hpoll ⊢
    cases hpoll with
    | none => exact .none
    | some hxy =>
      obtain ⟨hshared, hcut⟩ := hxy
      refine .some ⟨hshared, fun k => ?_⟩
      by_cases hk : k = i
      · subst hk
        simpa using hcut
      · simpa [Function.update_of_ne hk] using h.streams k
  · exact absurd hstop hne

theorem ne_completed_of_step {s' : JoinState S n} {i : Fin n} (h : C.step s i = some s') :
    (s.streams i).state ≠ .completed := by
  intro hstate
  rw [step, poll_completed hstate] at h
  cases h

/-- **A run with a limit is a run without.** -/
theorem AllCut.run (hfetch : C.join.fetch = some fetch) {schedule : List (Fin n)}
    (h : Runs.run C.step (fun _ _ => True) (C.init inputs) schedule = some s) :
    ∃ t, Runs.run C.unlimited.step (fun _ _ => True) (C.unlimited.init inputs) schedule = some t ∧
      AllCut fetch s t := by
  refine run_simulates (R := AllCut fetch) (fun hcut hstep => ?_) allCut_init h
  have hrel := hcut.rel hfetch (ne_completed_of_step hstep)
  rw [hstep] at hrel
  generalize hy : C.unlimited.step _ _ = y at hrel ⊢
  cases hrel with
  | some hst => exact ⟨_, rfl, hst⟩

/-! ## What is output -/

theorem pushBatch_extends (fetch : Option Nat) (output rows : RecordBatch S) :
    output <+: (pushBatch fetch output rows).1 := by
  cases fetch with
  | none => exact List.prefix_append _ _
  | some fetch =>
    rw [pushBatch]
    split_ifs
    · exact List.prefix_rfl
    · exact List.prefix_append _ _
    · exact List.prefix_append _ _

/-- A stream takes nothing back. -/
theorem poll_extends {t : HashJoinStream S} {x : SharedState × HashJoinStream S}
    (h : C.poll shared t = some x) : t.output <+: x.2.output := by
  obtain ⟨state, right, output⟩ := t
  cases state with
  | fetchProbeBatch =>
    cases right <;> (cases h; exact List.prefix_rfl)
  | processProbeBatch batch offset joined next =>
    cases next with
    | join =>
      change C.joinChunk shared _ batch offset joined = some x at h
      rw [joinChunk] at h
      split_ifs at h
      · cases h
        exact pushBatch_extends _ _ _
      · obtain ⟨y, -, h⟩ := Option.bind_eq_some_iff.1 h
        cases h
        exact pushBatch_extends _ _ _
    | _ => cases h; exact List.prefix_rfl
  | exhaustedProbeSide next =>
    cases next with
    | loadNonEmpty indices => cases h; exact pushBatch_extends _ _ _
    | _ => cases h; exact List.prefix_rfl
  | completed => cases h
  | waitBuildSide => cases h; exact List.prefix_rfl

theorem output_extends (h : Reaches C.step (fun _ _ => True) s t) (i : Fin n) :
    (s.streams i).output <+: (t.streams i).output := by
  refine Reaches.invariant (I := fun t => (s.streams i).output <+: (t.streams i).output) h
    List.prefix_rfl fun {t k u} ht _ hstep => ht.trans ?_
  obtain ⟨x, hx, rfl⟩ := Option.map_eq_some_iff.1 hstep
  by_cases hi : i = k
  · subst hi
    simpa using poll_extends hx
  · simp [Function.update_of_ne hi]

variable {Q : (Fin n → Multiset (Row S)) → Prop}

/-- Every run can be completed. -/
theorem EndsWith.complete (h : C.EndsWith inputs Q) {schedule : List (Fin n)}
    (hrun : Runs.run C.step (fun _ _ => True) (C.init inputs) schedule = some s) :
    ∃ t, Reaches C.step (fun _ _ => True) s t ∧ Q fun i => (t.streams i).output := by
  obtain ⟨bound, hends⟩ := h
  obtain ⟨rest, t, hrest, hstuck⟩ := exists_run_stuck bound fun rest t hrest =>
    (show rest.length ≤ (schedule ++ rest).length by simp).trans
      (hends (schedule ++ rest) t ((run_append hrun rest).trans hrest)).1
  obtain ⟨-, hprogress, hout⟩ := hends _ t ((run_append hrun rest).trans hrest)
  refine ⟨t, reaches_of_run hrest, hout fun i => ?_⟩
  by_contra hne
  have hsome := hprogress i hne
  rw [hstuck i] at hsome
  cases hsome

/-- Rows of the unlimited outputs, no more than `fetch` from a stream, and all of them unless some
stream has output `fetch` rows. -/
structure Limited (fetch : Nat) (out full : Fin n → Multiset (Row S)) : Prop where
  le : ∀ i, out i ≤ full i
  card_le : ∀ i, (out i).card ≤ fetch
  enough : (∀ i, out i = full i) ∨ ∃ i, (out i).card = fetch

/-- **A limit keeps to the outputs without it.** -/
theorem EndsWith.limit (h : C.unlimited.EndsWith inputs Q) (hfetch : C.join.fetch = some fetch) :
    C.EndsWith inputs fun out => ∃ full, Q full ∧ Limited fetch out full := by
  obtain ⟨bound, hends⟩ := id h
  refine ⟨bound, fun schedule s hs => ?_⟩
  obtain ⟨t, ht, hcut⟩ := AllCut.run hfetch hs
  obtain ⟨hlen, hprogress, hout⟩ := hends schedule t ht
  refine ⟨hlen, fun i hne => ?_, fun hdone => ?_⟩
  · have hrel := hcut.rel hfetch hne
    have hgoes := (hcut.streams i).goesOn.resolve_right fun hstop => hne hstop.1
    have hsome := hprogress i (hgoes.1 ▸ hne)
    generalize C.step s i = x at hrel ⊢
    generalize C.unlimited.step t i = y at hrel hsome
    cases hrel with
    | some => rfl
    | none => cases hsome
  · have hcard : ∀ i, ((s.streams i).output : Multiset (Row S)).card =
        min fetch (t.streams i).output.length := by
      intro i
      rw [Multiset.coe_card, (hcut.streams i).output, List.length_take]
    by_cases hfull : ∃ i, fetch ≤ (t.streams i).output.length
    · obtain ⟨u, hu, hQ⟩ := h.complete ht
      refine ⟨_, hQ, fun i => ?_, fun i => (hcard i).trans_le (Nat.min_le_left _ _), .inr ?_⟩
      · rw [(hcut.streams i).output]
        exact Multiset.coe_le.2
          ((List.take_sublist _ _).trans (output_extends hu i).sublist).subperm
      · obtain ⟨i, hi⟩ := hfull
        exact ⟨i, (hcard i).trans (Nat.min_eq_left hi)⟩
    · -- No stream has stopped, so all of them are done without a limit too.
      have hlt : ∀ i, (t.streams i).output.length < fetch := fun i =>
        Nat.lt_of_not_le fun hle => hfull ⟨i, hle⟩
      have heq : ∀ i, (s.streams i).output = (t.streams i).output := fun i => by
        rw [(hcut.streams i).output, List.take_of_length_le (hlt i).le]
      have hQ := hout fun i =>
        ((hcut.streams i).goesOn.resolve_right fun hstop => hfull ⟨i, hstop.2⟩).1 ▸ hdone i
      exact ⟨_, hQ, fun i => by rw [heq], fun i => (hcard i).trans_le (Nat.min_le_left _ _),
        .inl fun i => by rw [heq]⟩

theorem Limited.sum_le {out full : Fin n → Multiset (Row S)} (h : Limited fetch out full) :
    ∑ i, out i ≤ ∑ i, full i := Finset.sum_le_sum fun i _ => h.le i

theorem Limited.min_le_card {out full : Fin n → Multiset (Row S)} (h : Limited fetch out full) :
    min fetch (∑ i, full i).card ≤ (∑ i, out i).card := by
  rcases h.enough with hall | ⟨i, hi⟩
  · rw [Finset.sum_congr rfl fun i _ => hall i]
    exact Nat.min_le_right _ _
  · calc min fetch (∑ i, full i).card ≤ fetch := Nat.min_le_left _ _
      _ = (out i).card := hi.symm
      _ ≤ (∑ i, out i).card :=
        Multiset.card_le_card (Finset.single_le_sum (fun _ _ => Multiset.zero_le _)
          (Finset.mem_univ i))

end JoinContext

/-! ## The join -/

variable {W : World S}

/-- What the streams may output: the rows of the join, shared out in any way; with a limit no more
than `fetch` of a stream's rows, and all rows unless some stream has output that many. -/
def HashJoinExec.MayOutput (W : World S) (j : HashJoinExec S) (cis : List ColumnIndex)
    (L R : Multiset (Row S)) {n : Nat} (out : Fin n → Multiset (Row S)) : Prop :=
  ∃ full : Fin n → Multiset (Row S), ∑ i, full i = j.join W cis L R ∧
    match j.fetch with
    | none => out = full
    | some fetch => JoinContext.Limited fetch out full

theorem endsWith_mayOutput {j : HashJoinExec S} {H : KeyHash W} {config : PerfectHashConfig}
    {keys : Option (IntegerKeys W)} {bounds : (t : IntegerType) → Option (List (ColumnBounds t))}
    {build : List (RecordBatch S)} {left : JoinLeftData W} (leftSchema rightSchema : Schema)
    (rightSideOrdered : Bool) {batchSize n : Nat} {inputs : Fin n → List (RecordBatch S)}
    (hon : j.on ≠ []) (haware : j.nullAware = false) (hsize : 1 ≤ batchSize) (hn : 1 ≤ n)
    (hleft : collectLeftInput W j H config keys bounds build = .ok left)
    (hbuild : ∀ I, keys = some I → ∀ l ∈ build.flatten, I.IsValue ((j.leftKeys W l).headD .null))
    (hprobe : ∀ I, keys = some I → ∀ i, ∀ b ∈ inputs i, ∀ r ∈ b,
      I.IsValue ((j.rightKeys W r).headD .null)) :
    let cis := j.columnIndices leftSchema rightSchema
    JoinContext.EndsWith ⟨j, cis, H, left, rightSideOrdered, batchSize⟩ inputs
      (j.MayOutput W cis (rowsOf build) (∑ i, rowsOf (inputs i))) := by
  intro cis
  unfold HashJoinExec.MayOutput
  cases hfetch : j.fetch with
  | none =>
    refine (endsWith_shares leftSchema rightSchema rightSideOrdered hon hfetch haware hsize hn hleft
      hbuild hprobe).imp fun out hout => ?_
    exact ⟨out, hout.sum_eq_join, rfl⟩
  | some fetch =>
    have hends := endsWith_shares (j := { j with fetch := none }) leftSchema rightSchema
      rightSideOrdered hon rfl haware hsize hn hleft hbuild hprobe
    refine (JoinContext.EndsWith.limit (C := ⟨j, cis, H, left, rightSideOrdered, batchSize⟩) hends
      hfetch).imp fun out hout => ?_
    obtain ⟨full, hfull, hlimited⟩ := hout
    exact ⟨full, hfull.sum_eq_join, hlimited⟩

/-- **A join with a limit outputs enough rows of the join.** However the streams are interleaved,
every run ends with all streams done. No stream outputs more than `fetch` rows, what they output
together are rows of the join, and there are `fetch` of them or all. -/
theorem hashJoin_fetch (j : HashJoinExec S) (H : KeyHash W) (config : PerfectHashConfig)
    (keys : Option (IntegerKeys W)) (bounds : (t : IntegerType) → Option (List (ColumnBounds t)))
    (build : List (RecordBatch S)) (left : JoinLeftData W) (leftSchema rightSchema : Schema)
    (rightSideOrdered : Bool) (batchSize n fetch : Nat) (inputs : Fin n → List (RecordBatch S))
    (hon : j.on ≠ []) (hfetch : j.fetch = some fetch) (haware : j.nullAware = false)
    (hsize : 1 ≤ batchSize) (hn : 1 ≤ n)
    (hleft : collectLeftInput W j H config keys bounds build = .ok left)
    (hbuild : ∀ I, keys = some I →
      ∀ l ∈ build.flatten, I.IsValue ((j.leftKeys W l).headD .null))
    (hprobe : ∀ I, keys = some I → ∀ i, ∀ b ∈ inputs i, ∀ r ∈ b,
      I.IsValue ((j.rightKeys W r).headD .null)) :
    let cis := j.columnIndices leftSchema rightSchema
    let joined := j.join W cis (rowsOf build) (∑ i, rowsOf (inputs i))
    JoinContext.EndsWith ⟨j, cis, H, left, rightSideOrdered, batchSize⟩ inputs fun out =>
      (∀ i, (out i).card ≤ fetch) ∧ ∑ i, out i ≤ joined ∧
        min fetch joined.card ≤ (∑ i, out i).card := by
  intro cis joined
  refine (endsWith_mayOutput leftSchema rightSchema rightSideOrdered hon haware hsize hn hleft
    hbuild hprobe).imp fun out hout => ?_
  rw [HashJoinExec.MayOutput, hfetch] at hout
  obtain ⟨full, hfull, hlimited⟩ := hout
  have hjoined : ∑ i, full i = joined := hfull
  rw [← hjoined]
  exact ⟨hlimited.card_le, hlimited.sum_le, hlimited.min_le_card⟩

def firstOnCustomer : HashJoinExec rowSig := { onCustomer .full none false with fetch := some 2 }

theorem hashJoin_fetch_customers :
    let cis := firstOnCustomer.columnIndices [⟨"customer_id", .int64, true⟩]
      [⟨"customer", .int64, true⟩]
    let joined := firstOnCustomer.join rowWorld cis (rowsOf customerBatches)
      (∑ i, rowsOf (orderBatches i))
    collectLeftInput rowWorld firstOnCustomer collidingHash noPerfectHash none (fun _ => none)
      customerBatches = .ok customerTable ∧
    JoinContext.EndsWith ⟨firstOnCustomer, cis, collidingHash, customerTable, false, 1⟩
      orderBatches fun out => (∀ i, (out i).card ≤ 2) ∧ ∑ i, out i ≤ joined ∧
        min 2 joined.card ≤ (∑ i, out i).card := by
  have hleft : collectLeftInput rowWorld firstOnCustomer collidingHash noPerfectHash none
      (fun _ => none) customerBatches = .ok customerTable := rfl
  exact ⟨hleft, hashJoin_fetch firstOnCustomer collidingHash noPerfectHash none (fun _ => none)
    customerBatches customerTable _ _ false 1 2 2 orderBatches (List.cons_ne_nil _ _) rfl rfl
    le_rfl (by decide) hleft (fun _ h => by cases h) fun _ h => by cases h⟩

end PredicateTransfer
