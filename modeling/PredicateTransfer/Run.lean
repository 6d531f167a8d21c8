import PredicateTransfer.Bloom
import PredicateTransfer.InsertProof
import PredicateTransfer.Pairing
import PredicateTransfer.Lib.SemiJoin

/-!
# Running a plan

`Produces W recv p t` says that one execution of the plan `p` is `t`: the batches of every
partition's output stream, and the payloads sent by the build operators at its top. It is a
relation because a bag of rows can be cut into batches in many ways.

* An inner hash join outputs the matching pairs of the build partition and the probe partition it
  joins, projected and cut off at its `fetch`.
* The Bloom filter operators run `buildExecute` and `probeExecute` on the batches themselves.
* Every other operator, a non-inner join included, is an arbitrary function of the bags of its
  children's partitions (`World`).

`recv c i` is what partition `i` of the probe operator on channel `c` leaves `recv` with: a
payload, or an error (`none`). A join requires of it that a payload received on a channel of its
build stack is the one sent by the build partition it is joined with.
-/

namespace PredicateTransfer

variable {S : Sig}

/-! ## Joins -/

/-- What the operators outside the rule compute. -/
structure World (S : Sig) where
  bloom : BloomCrate
  evalExpr : S.Expr → Row S → Value S
  /-- Equality of two values of a type without a constructor of its own. -/
  eqDatum : S.Datum → S.Datum → Bool
  opRows : S.Op → List (Nat → Multiset (Row S)) → Nat → Multiset (Row S)
  /-- Hash joins that are not inner. -/
  joinRows : HashJoinExec S → (Nat → Multiset (Row S)) → (Nat → Multiset (Row S)) → Nat →
    Multiset (Row S)
  /-- The rows a `fetch` keeps. -/
  limit : Nat → Multiset (Row S) → Multiset (Row S)

section
variable (W : World S)

def PhysicalExpr.evaluate : PhysicalExpr S → Row S → Value S
  | .column _ index, r => Row.value r index
  | .other e, r => W.evalExpr e r

/-- Equality of two non-null values of one type. -/
def World.valueEq : Value S → Value S → Bool
  | .int32 a, .int32 b => a == b
  | .int64 a, .int64 b => a == b
  | .utf8 a, .utf8 b => a == b
  | .boolean a, .boolean b => a == b
  | .other a, .other b => W.eqDatum a b
  | _, _ => false

/-- Equality of two key values; whether nulls are equal is the join's `null_equality`. -/
def World.keyEq (nullEquality : NullEquality) : Value S → Value S → Bool
  | .null, .null => nullEquality == .nullEqualsNull
  | a, b => W.valueEq a b

theorem valueEq_of_keyEq {W : World S} {ne : NullEquality} {a b : Value S}
    (h : W.keyEq ne a b = true) (hb : b ≠ .null) : W.valueEq a b = true := by
  cases b with
  | null => exact absurd rfl hb
  | _ => cases a <;> exact h

/-- Under `NullEqualsNothing` the keys of joining rows are not null. -/
theorem ne_null_of_keyEq {W : World S} {a b : Value S}
    (h : W.keyEq .nullEqualsNothing a b = true) : b ≠ .null := by
  rintro rfl
  cases a <;> simp [World.keyEq, World.valueEq] at h

/-- The residual filter is true on the pair. -/
def JoinFilter.passes (f : JoinFilter S) (l r : Row S) : Bool :=
  let intermediate := f.columnIndices.map fun ci => match ci.side with
    | .left => Row.value l ci.index
    | .right => Row.value r ci.index
    | .none => .null
  match f.expression.evaluate W intermediate with
  | .boolean true => true
  | _ => false

/-- The two rows join: all keys are equal and the residual filter is true. -/
def HashJoinExec.joins (j : HashJoinExec S) (l r : Row S) : Bool :=
  (j.on.all fun key => W.keyEq j.nullEquality (key.1.evaluate W l) (key.2.evaluate W r)) &&
    j.filter.all (JoinFilter.passes W · l r)

theorem keyEq_of_joins {W : World S} {j : HashJoinExec S} {l r : Row S} (h : j.joins W l r = true)
    {key : PhysicalExpr S × PhysicalExpr S} (hkey : key ∈ j.on) :
    W.keyEq j.nullEquality (key.1.evaluate W l) (key.2.evaluate W r) = true := by
  rw [HashJoinExec.joins, Bool.and_eq_true, List.all_eq_true] at h
  exact h.1 key hkey

/-- The output row of a joined pair. -/
def HashJoinExec.outputRow (j : HashJoinExec S) (x : Row S × Row S) : Row S :=
  match j.projection with
  | none => x.1 ++ x.2
  | some indices => indices.map (Row.value (x.1 ++ x.2))

/-- The inner join of two bags, before `fetch`. -/
def HashJoinExec.innerJoin (j : HashJoinExec S) (L R : Multiset (Row S)) : Multiset (Row S) :=
  (SemiJoin.pairs (j.joins W) L R).map j.outputRow

def HashJoinExec.fetchRows (j : HashJoinExec S) (rows : Multiset (Row S)) : Multiset (Row S) :=
  match j.fetch with
  | none => rows
  | some n => W.limit n rows

/-- The build partition that an output partition joins with. `Auto` cannot be executed. -/
def PartitionMode.buildPartition : PartitionMode → Option (Nat → Nat)
  | .partitioned => some id
  | .collectLeft => some fun _ => 0
  | .auto => none

/-! ## Executions -/

/-- What each probe partition receives on each channel. -/
abbrev Recv := Nat → Nat → Option (BloomPayload W.bloom)

/-- One execution of a plan. -/
structure PlanRun where
  /-- The batches of each partition's stream. -/
  out : Nat → List (RecordBatch S)
  /-- The channels of the build operators on top, with the payload of each partition. -/
  sent : List (Nat × (Nat → BloomPayload W.bloom))

/-- The bags of the partitions. -/
def PlanRun.bags (t : PlanRun W) : Nat → Multiset (Row S) := fun i => rowsOf (t.out i)

mutual

/-- `t` is an execution of the plan. -/
def Produces (recv : Recv W) : ExecutionPlan S → PlanRun W → Prop
  | .hashJoin j l r, t => ∃ tl tr, Produces recv l tl ∧ Produces recv r tr ∧ t.sent = [] ∧
      if j.joinType = .inner then
        ∃ part, j.mode.buildPartition = some part ∧
          (∀ c payload, (c, payload) ∈ tl.sent → ∀ i pl, recv c i = some pl →
            pl = payload (part i)) ∧
          ∀ i, t.bags W i = j.fetchRows W (j.innerJoin W (tl.bags W (part i)) (tr.bags W i))
      else ∀ i, t.bags W i = W.joinRows j (tl.bags W) (tr.bags W) i
  | .bloomBuild k c i, t => ∃ (ti : PlanRun W) (seed : Nat → W.bloom.Seed) (elapsed : Nat → ℚ)
      (payload : Nat → BloomPayload W.bloom), Produces recv i ti ∧
      (∀ n, buildExecute W.bloom i.schema k (seed n) (elapsed n) ((ti.out n).map .ok) =
        .ok (some (payload n), (t.out n).map .ok)) ∧
      t.sent = (c, payload) :: ti.sent
  | .bloomProbe k c i, t => ∃ ti, Produces recv i ti ∧
      (∀ n, probeExecute i.schema k (recv c n) ((ti.out n).map .ok) =
        .ok ((t.out n).map .ok)) ∧
      t.sent = []
  | .other op cs, t => ∃ ts, ProducesAll recv cs ts ∧
      (∀ i, t.bags W i = W.opRows op (ts.map (PlanRun.bags W)) i) ∧ t.sent = []

def ProducesAll (recv : Recv W) : List (ExecutionPlan S) → List (PlanRun W) → Prop
  | [], ts => ts = []
  | c :: cs, ts => ∃ t ts', Produces recv c t ∧ ProducesAll recv cs ts' ∧ ts = t :: ts'

end

end

/-! ## The operators on bags -/

variable {W : World S}

theorem map_ok_injective {α ε : Type} :
    Function.Injective (List.map (Except.ok : α → Except ε α)) :=
  List.map_injective_iff.2 fun _ _ h => Except.ok.inj h

/-- A build operator yields its input, having sent a filter over all keys of its column. -/
theorem buildExecute_ok {B : BloomCrate} {schema : Schema} {name : String} {seed : B.Seed}
    {elapsed : ℚ} {input output : List (RecordBatch S)} {payload : BloomPayload B}
    (h : buildExecute B schema name seed elapsed (input.map .ok) =
      .ok (some payload, output.map .ok)) :
    output = input ∧ ∃ k, schema.findIdx? (·.name == name) = some k ∧
      payload = .ofValues B seed elapsed (input.flatMap (batchKeys k)) := by
  obtain ⟨k, hk, h⟩ := bind_eq_ok.1 h
  rw [buildRun_ok] at h
  simp only [pure, Except.pure, Except.ok.injEq, Prod.mk.injEq, Option.some.injEq,
    List.nil_append] at h
  exact ⟨(map_ok_injective h.2).symm, k, keyColumn_eq_ok.1 hk, h.1.symm⟩

/-- A probe operator filters the bag of its input. -/
theorem probeExecute_ok {B : BloomCrate} {schema : Schema} {name : String}
    {received : Option (BloomPayload B)} {input output : List (RecordBatch S)}
    (h : probeExecute schema name received (input.map .ok) = .ok (output.map .ok)) :
    ∃ k, schema.findIdx? (·.name == name) = some k ∧
      rowsOf output = (rowsOf input).filter (keepRow k received ·) := by
  obtain ⟨k, hk, h⟩ := bind_eq_ok.1 h
  rw [probeRun_ok] at h
  simp only [pure, Except.pure, Except.ok.injEq] at h
  rw [← map_ok_injective h]
  exact ⟨k, keyColumn_eq_ok.1 hk, rowsOf_map_filter _ _⟩

/-- The keys of a batch list are those of its rows. -/
theorem mem_flatMap_batchKeys {k : Nat} {bs : List (RecordBatch S)} {s : String} :
    s ∈ bs.flatMap (batchKeys k) ↔ ∃ r ∈ rowsOf bs, (Row.value r k).keyString = some s := by
  simp only [List.mem_flatMap, batchKeys, RecordBatch.column, List.mem_filterMap, List.mem_map,
    rowsOf, Multiset.mem_coe, List.mem_flatten]
  constructor
  · rintro ⟨b, hb, v, ⟨r, hr, rfl⟩, hs⟩
    exact ⟨r, ⟨b, hb, hr⟩, hs⟩
  · rintro ⟨r, ⟨b, hb, hr⟩, hs⟩
    exact ⟨b, hb, _, ⟨r, hr, rfl⟩, hs⟩

/-- Equal non-null values are hashed under the same text. -/
theorem keyString_of_valueEq {a b : Value S} (h : W.valueEq a b = true) :
    a.keyString = b.keyString ∧ b ≠ .null := by
  cases a <;> cases b <;> simp_all [World.valueEq, Value.keyString]

theorem keepRow_of_keyString {B : BloomCrate} {k : Nat} {received : Option (BloomPayload B)}
    {r : Row S} (hnull : Row.value r k ≠ .null)
    (h : ∀ payload s, received = some payload → (Row.value r k).keyString = some s →
      B.check payload.filter s = true) : keepRow k received r = true := by
  cases received with
  | none => rfl
  | some payload =>
    unfold keepRow
    cases hv : Row.value r k with
    | null => exact absurd hv hnull
    | boolean v => rfl
    | other v => rfl
    | int32 v => exact h payload _ rfl (by rw [hv]; rfl)
    | int64 v => exact h payload _ rfl (by rw [hv]; rfl)
    | utf8 v => exact h payload _ rfl (by rw [hv]; rfl)

end PredicateTransfer
