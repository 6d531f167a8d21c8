import PredicateTransfer.Pruning.LiteralGuarantee
import PredicateTransfer.Pruning.PruningPredicate

/-!
# `PruningPredicate::prune`

A pruning predicate is asked about containers (files, row groups) of which only statistics are
known. It first asks whether a container can hold the literals its guarantees name, then evaluates
the rewritten filter on the containers' statistics. Both answers only ever turn an entry of the
result from "may have rows" to "has none", and both do so on `false` alone.

The guarantees are necessary conditions of the filter (`analyze_holds`), so the first part drops a
container only if none of its rows can pass (`pruneGuarantees_keeps`).
-/

namespace PredicateTransfer.Pruning

variable {D F : Type}

/-! ### Statistics of containers -/

/-- The arrays have one entry for each container; `none` where a statistic is not known at all. -/
structure PruningStatistics (D : Type) where
  numContainers : Nat
  minValues : String → Option (List (Scalar D))
  maxValues : String → Option (List (Scalar D))
  nullCounts : String → Option (List (Scalar D))
  rowCounts : String → Option (List (Scalar D))
  contained : String → List (Scalar D) → Option (List (Option Bool))

namespace PruningStatistics

def array (statistics : PruningStatistics D) : StatisticsType → String → Option (List (Scalar D))
  | .min => statistics.minValues
  | .max => statistics.maxValues
  | .nullCount => statistics.nullCounts
  | .rowCount => statistics.rowCounts

/-- What is known of one container, `NULL` if nothing is. -/
def value (statistics : PruningStatistics D) (i : Nat) (t : StatisticsType) (column : String) :
    Scalar D :=
  ((statistics.array t column).bind (·[i]?)).getD .null

end PruningStatistics

/-- One array for each required column, of the length the containers ask for. The arrays of the
statistics are taken to have the type of the required field already: the `arrow::compute::cast` to
that type, which changes and may fail on arrays of another type, is left out. -/
def buildStatisticsRecordBatch (statistics : PruningStatistics D) (required : RequiredColumns) :
    Option (List (List (Scalar D))) :=
  required.mapM fun r =>
    let array := (statistics.array r.statisticsType r.column.name).getD
      (List.replicate statistics.numContainers .null)
    if array.length = statistics.numContainers then some array else none

/-- A row of a batch. -/
def batchRow (arrays : List (List (Scalar D))) (i : Nat) : List (Scalar D) :=
  arrays.map fun array => array[i]?.getD .null

/-! ### The predicate -/

structure PruningPredicate (D F : Type) where
  schema : Schema
  predicateExpr : Expr D F
  requiredColumns : RequiredColumns
  literalGuarantees : List (LiteralGuarantee D)

/-- `simplify` is the simplifier the rewritten filter is passed through. -/
def PruningPredicate.tryNew [DecidableEq D] (simplify : Schema → Expr D F → Option (Expr D F))
    (hashOrder : List Column → List Column) (e : Expr D F) (schema : Schema) :
    Option (PruningPredicate D F) :=
  let (required, predicateExpr) := buildPredicateExpression schema e []
  (simplify (required.map (·.field)) predicateExpr).map fun predicateExpr =>
    ⟨schema, predicateExpr, required, analyze hashOrder e⟩

/-- `BoolVecBuilder::combine_array`, which panics on an array of another length. -/
def combineArray (inner : List Bool) (array : List (Option Bool)) : Option (List Bool) :=
  if array.length = inner.length then
    some (List.zipWith (fun cur new => if new = some false then false else cur) inner array)
  else none

def checkAllPruned (inner : List Bool) : Bool := inner.all (!·)

/-- The part on guarantees. The flag says that nothing is left to decide. -/
def pruneGuarantees (statistics : PruningStatistics D) :
    List (LiteralGuarantee D) → List Bool → Option (List Bool × Bool)
  | [], inner => some (inner, false)
  | g :: gs, inner =>
    match statistics.contained g.column g.literals with
    | none => pruneGuarantees statistics gs inner
    | some results => do
      let inner ← combineArray inner <|
        match g.guarantee with
        | .isIn => results
        | .notIn => results.map (·.map (!·))
      if checkAllPruned inner then some (inner, true) else pruneGuarantees statistics gs inner

/-- A truth value of an array; anything else panics. -/
def asTruth : Scalar D → Option (Option Bool)
  | .null => some none
  | .boolean b => some (some b)
  | _ => none

variable [LinearOrder D]

/-- The part on statistics. -/
def pruneStatistics (K : Kernels D F) (p : PruningPredicate D F)
    (statistics : PruningStatistics D) (inner : List Bool) : Option (List Bool) := do
  let arrays ← buildStatisticsRecordBatch statistics p.requiredColumns
  let array ← (List.range statistics.numContainers).mapM fun i =>
    (p.predicateExpr.eval K (batchRow arrays i)).bind asTruth
  combineArray inner array

def PruningPredicate.prune (K : Kernels D F) (p : PruningPredicate D F)
    (statistics : PruningStatistics D) : Option (List Bool) := do
  let (inner, done) ← pruneGuarantees statistics p.literalGuarantees
    (List.replicate statistics.numContainers true)
  if done then some inner else pruneStatistics K p statistics inner

/-! ### Guarantees are necessary conditions -/

/-- Every column of the expression is where its name is in the schema. -/
def Expr.Over (schema : Schema) (e : Expr D F) : Prop :=
  ∀ c ∈ e.columns, ∃ f, schema.columnWithName c.name = some (c.index, f)

/-- The row satisfies the guarantee: the value of its column is one of the literals, or none. -/
def LiteralGuarantee.Holds (schema : Schema) (row : List (Scalar D)) (g : LiteralGuarantee D) :
    Prop :=
  ∃ i f v, schema.columnWithName g.column = some (i, f) ∧ row[i]? = some v ∧
    match g.guarantee with
    | .isIn => v ∈ g.literals
    | .notIn => v ∉ g.literals

/-- An answer of `contained` is right for the rows of a container: on `true` all values of the
column are among the literals, where `NULL`s may be passed over unless there are no literals; on
`false` none is. -/
def ContainedRight (schema : Schema) (rows : List (List (Scalar D))) (column : String)
    (literals : List (Scalar D)) (answer : Option Bool) : Prop :=
  ∀ row ∈ rows, ∀ i f v, schema.columnWithName column = some (i, f) → row[i]? = some v →
    (answer = some true → v ∈ literals ∨ v = .null ∧ literals ≠ []) ∧
      (answer = some false → v ∉ literals)

/-- The values of a row by name. -/
def namedValue (schema : Schema) (row : List (Scalar D)) (name : String) : Option (Scalar D) :=
  (schema.columnWithName name).bind fun p => row[p.1]?

variable {K : Kernels D F} {schema : Schema} {row : List (Scalar D)}

omit [LinearOrder D] in
theorem Expr.Over.named {e : Expr D F} (h : e.Over schema) :
    Named (namedValue schema row) row e := by
  intro c hc
  obtain ⟨f, hf⟩ := h c hc
  rw [namedValue, hf]
  rfl

/-- What a guarantee says of every row that passes the filter. -/
theorem fact_of_mem_analyze {hashOrder : List Column → List Column}
    (hperm : ∀ cols, (hashOrder cols).Perm cols) {e : Expr D F} (hover : e.Over schema)
    (h : e.eval K row = some (.boolean true)) {g : LiteralGuarantee D}
    (hg : g ∈ analyze hashOrder e) :
    ∃ col, col.name = g.column ∧ Fact (namedValue schema row) col g.guarantee g.literals := by
  obtain ⟨entry, hentry, hbuild⟩ := List.mem_filterMap.mp hg
  obtain ⟨literals, hliterals, rfl⟩ := Option.map_eq_some_iff.mp hbuild
  exact ⟨entry.column, rfl, analyze_entries_hold hperm hover.named h entry hentry _ hliterals⟩

theorem analyze_holds {hashOrder : List Column → List Column}
    (hperm : ∀ cols, (hashOrder cols).Perm cols) {e : Expr D F} (hover : e.Over schema)
    (h : e.eval K row = some (.boolean true)) {g : LiteralGuarantee D}
    (hg : g ∈ analyze hashOrder e) : g.Holds schema row := by
  obtain ⟨col, hcol, v, hv, hfact⟩ := fact_of_mem_analyze hperm hover h hg
  rw [hcol] at hv
  obtain ⟨⟨i, f⟩, hi, hrow⟩ := Option.bind_eq_some_iff.mp hv
  refine ⟨i, f, v, hi, hrow, ?_⟩
  cases hguarantee : g.guarantee with
  | isIn => rwa [hguarantee] at hfact
  | notIn =>
    rw [hguarantee] at hfact
    exact hfact.1

/-! ### The part on guarantees -/

theorem combineArray_length {inner inner' : List Bool} {array : List (Option Bool)}
    (h : combineArray inner array = some inner') : inner'.length = inner.length := by
  unfold combineArray at h
  split at h
  · next hlen =>
    cases h
    rw [List.length_zipWith, hlen, Nat.min_self]
  · cases h

/-- An entry stays as it was unless the array says `false` there. -/
theorem combineArray_keeps {inner inner' : List Bool} {array : List (Option Bool)} {i : Nat}
    (h : combineArray inner array = some inner') (hi : inner[i]? = some true)
    (hne : array[i]? ≠ some (some false)) : inner'[i]? = some true := by
  unfold combineArray at h
  split at h
  · next hlen =>
    cases h
    have hlt : i < inner.length := (List.getElem?_eq_some_iff.mp hi).1
    obtain ⟨a, ha⟩ : ∃ a, array[i]? = some a := ⟨_, List.getElem?_eq_getElem (hlen ▸ hlt)⟩
    have hafalse : a ≠ some false := fun hfalse => hne (hfalse ▸ ha)
    rw [List.getElem?_zipWith, hi, ha]
    simp [hafalse]
  · cases h

omit [LinearOrder D] in
theorem pruneGuarantees_length {statistics : PruningStatistics D}
    {gs : List (LiteralGuarantee D)} {inner inner' : List Bool} {done : Bool}
    (h : pruneGuarantees statistics gs inner = some (inner', done)) :
    inner'.length = inner.length := by
  induction gs generalizing inner with
  | nil =>
    cases h
    rfl
  | cons g gs ih =>
    rw [pruneGuarantees] at h
    split at h
    · exact ih h
    · obtain ⟨combined, hcombined, h⟩ := Option.bind_eq_some_iff.mp h
      split at h
      · cases h
        exact combineArray_length hcombined
      · rw [ih h, combineArray_length hcombined]

omit [LinearOrder D] in
/-- A right answer about a container does not rule it out when a row of it satisfies what the
guarantee asks for. -/
theorem contained_ne_false {rows : List (List (Scalar D))} {g : LiteralGuarantee D}
    {answer : Option Bool} (hright : ContainedRight schema rows g.column g.literals answer)
    (hrow : row ∈ rows) {col : Column} (hcol : col.name = g.column)
    (hfact : Fact (namedValue schema row) col g.guarantee g.literals) :
    (g.guarantee = .isIn → answer ≠ some false) ∧ (g.guarantee = .notIn → answer ≠ some true) := by
  obtain ⟨v, hv, hfact⟩ := hfact
  rw [hcol] at hv
  obtain ⟨⟨i, f⟩, hi, hv⟩ := Option.bind_eq_some_iff.mp hv
  obtain ⟨htrue, hfalse⟩ := hright row hrow i f v hi hv
  refine ⟨fun hg ha => ?_, fun hg ha => ?_⟩
  · rw [hg] at hfact
    exact hfalse ha hfact
  · rw [hg] at hfact
    rcases htrue ha with hmem | ⟨hnull, hne⟩
    · exact hfact.1 hmem
    · exact hfact.2 hne hnull

omit [LinearOrder D] in
theorem pruneGuarantees_keeps {statistics : PruningStatistics D} {rows : List (List (Scalar D))}
    {i : Nat} (hright : ∀ column literals results answer,
      statistics.contained column literals = some results → results[i]? = some answer →
      ContainedRight schema rows column literals answer)
    (hrow : row ∈ rows) {gs : List (LiteralGuarantee D)}
    (hfacts : ∀ g ∈ gs, ∃ col, col.name = g.column ∧
      Fact (namedValue schema row) col g.guarantee g.literals)
    {inner inner' : List Bool} {done : Bool}
    (h : pruneGuarantees statistics gs inner = some (inner', done))
    (hi : inner[i]? = some true) : inner'[i]? = some true := by
  induction gs generalizing inner with
  | nil =>
    cases h
    exact hi
  | cons g gs ih =>
    rw [List.forall_mem_cons] at hfacts
    rw [pruneGuarantees] at h
    split at h
    · exact ih hfacts.2 h hi
    · next results hresults =>
      obtain ⟨combined, hcombined, h⟩ := Option.bind_eq_some_iff.mp h
      have hkept : combined[i]? = some true := by
        refine combineArray_keeps hcombined hi ?_
        obtain ⟨col, hcol, hfact⟩ := hfacts.1
        intro hfalse
        cases hguarantee : g.guarantee with
        | isIn =>
          rw [hguarantee] at hfalse
          have hne := contained_ne_false (hright _ _ _ _ hresults hfalse) hrow hcol hfact
          exact hne.1 hguarantee rfl
        | notIn =>
          rw [hguarantee] at hfalse
          obtain ⟨answer, hanswer, hnot⟩ := Option.map_eq_some_iff.mp
            ((List.getElem?_map ..).symm.trans hfalse)
          have hne := contained_ne_false (hright _ _ _ _ hresults hanswer) hrow hcol hfact
          refine hne.2 hguarantee ?_
          obtain ⟨b, hb, hb'⟩ := Option.map_eq_some_iff.mp hnot
          rw [hb, Bool.not_eq_eq_eq_not.mp hb']
          rfl
      split at h
      · cases h
        exact hkept
      · exact ih hfacts.2 h hkept

/-- The guarantees read off a filter hold on every row that passes it, so asking which containers
hold their literals drops only containers without such a row. -/
theorem literal_guarantees_necessary {hashOrder : List Column → List Column}
    (hperm : ∀ cols, (hashOrder cols).Perm cols) {e : Expr D F} (hover : e.Over schema) :
    (∀ row, e.eval K row = some (.boolean true) →
      ∀ g ∈ analyze hashOrder e, g.Holds schema row) ∧
    ∀ (simplify : Schema → Expr D F → Option (Expr D F)) (p : PruningPredicate D F),
      PruningPredicate.tryNew simplify hashOrder e schema = some p →
      ∀ (statistics : PruningStatistics D) (inner : List Bool) (done : Bool),
        pruneGuarantees statistics p.literalGuarantees
          (List.replicate statistics.numContainers true) = some (inner, done) →
        ∀ (i : Nat) (rows : List (List (Scalar D))),
          (∀ column literals results answer,
            statistics.contained column literals = some results → results[i]? = some answer →
            ContainedRight schema rows column literals answer) →
          inner[i]? = some false → ∀ row ∈ rows, e.eval K row ≠ some (.boolean true) := by
  refine ⟨fun row h g hg => analyze_holds hperm hover h hg, ?_⟩
  intro simplify p hp statistics inner done hprune i rows hright hdropped row hrow h
  obtain ⟨predicateExpr, _, rfl⟩ := Option.map_eq_some_iff.mp hp
  have hlt : i < statistics.numContainers := by
    have := (List.getElem?_eq_some_iff.mp hdropped).1
    rwa [pruneGuarantees_length hprune, List.length_replicate] at this
  have hkept := pruneGuarantees_keeps hright hrow
    (fun g hg => fact_of_mem_analyze hperm hover h hg) hprune
    (List.getElem?_replicate_of_lt hlt)
  rw [hdropped] at hkept
  cases hkept

/-- Kernels for filters that call none. -/
def Kernels.refusing : Kernels D F where
  cast _ _ _ := none
  castColumn _ _ _ := none
  negWrapping _ := none
  arithmeticNegate _ := none
  operator _ _ _ := none
  function _ _ := none

/-- `a = 1 OR a = 2` on a container that is known to hold neither value. -/
theorem literal_guarantees_necessary_oneOf :
    let schema : Schema := [⟨"a", .other "Int64"⟩]
    let a : Expr ℤ Empty := .column ⟨"a", 0⟩
    let e : Expr ℤ Empty := .binary (.binary a .eq (.literal (.datum 1))) .or
      (.binary a .eq (.literal (.datum 2)))
    let statistics : PruningStatistics ℤ := ⟨1, fun _ => none, fun _ => none, fun _ => none,
      fun _ => none, fun _ literals =>
        if literals = [.datum 1, .datum 2] then some [some false] else none⟩
    analyze id e = [⟨"a", .isIn, [.datum 1, .datum 2]⟩] ∧
    (∀ row, e.eval .refusing row = some (.boolean true) →
      ∀ g ∈ analyze id e, g.Holds schema row) ∧
    pruneGuarantees statistics (analyze id e) [true] = some ([false], true) ∧
    ∀ row ∈ [[.datum 3], [.null]], e.eval .refusing row ≠ some (.boolean true) := by
  intro schema a e statistics
  have hover : e.Over schema := by
    intro c hc
    obtain rfl : c = ⟨"a", 0⟩ := by simpa [e, a, Expr.columns] using hc
    exact ⟨_, rfl⟩
  have hanalyze : analyze id e = [⟨"a", .isIn, [.datum 1, .datum 2]⟩] := by decide
  have hprune : pruneGuarantees statistics (analyze id e) [true] = some ([false], true) := by
    rw [hanalyze]
    rfl
  obtain ⟨hholds, hdrops⟩ := literal_guarantees_necessary (K := .refusing)
    (fun cols => List.Perm.refl (id cols)) hover
  refine ⟨hanalyze, hholds, hprune, ?_⟩
  refine hdrops (fun _ e => some e) _ rfl statistics _ _ hprune 0 _ ?_ rfl
  intro column literals results answer hresults hanswer row hrow i f v hi hv
  obtain ⟨rfl, hresults⟩ := Option.ite_none_right_eq_some.mp hresults
  cases hresults
  cases hanswer
  have hv' : v = .datum 3 ∨ v = .null := by
    have hmem := List.mem_of_getElem? hv
    simp only [List.mem_cons, List.not_mem_nil, or_false] at hrow
    rcases hrow with rfl | rfl
    · exact Or.inl (List.mem_singleton.mp hmem)
    · exact Or.inr (List.mem_singleton.mp hmem)
  rcases hv' with rfl | rfl <;> simp

end PredicateTransfer.Pruning
