import PredicateTransfer.FilterRemap
import PredicateTransfer.PushDownResult

/-!
# Parent filters through an aggregate

An aggregate may hand a filter over its grouping columns to its input: such a filter decides which
groups there are, not what they contain. It sorts the filters it is asked about into safe and unsafe
ones, offers the safe ones to its child, and adds the unsafe ones at the end of its description.

`push_down_filters` expects the marks in the order of the filters. That is what it gets if no unsafe
filter comes before a safe one (`AggregateExec.marksInOrder`). Otherwise the answers are filed under
the wrong filters: in `aggregate_misfiles_answers` the input applies `a = 1`, and the filter above
the aggregate is told that `count(*) > 5` has been applied.
-/

namespace PredicateTransfer

variable {S : Sig} {α : Type}

/-! ## Columns of an expression -/

/-- How a reference to a column stands in a node. -/
structure ColumnNodes (α : Type) where
  column : α → Option Column
  node : Column → α

section
variable (N : ColumnNodes α)

mutual

/-- `collect_columns`. -/
def ExprTree.collectColumns : ExprTree α → List Column
  | .node value children => (N.column value).toList ++ collectColumnsOfAll children

def collectColumnsOfAll : List (ExprTree α) → List Column
  | [] => []
  | e :: es => e.collectColumns ++ collectColumnsOfAll es

end

section
variable (childSchema : Schema) (allowedIndices : List Nat)

mutual

/-- `FilterRemapper::try_remap`, through all nodes of the filter. -/
def ExprTree.tryRemap : ExprTree α → Option (ExprTree α)
  | .node value children => do
    let value ← match N.column value with
      | some c => (remapColumn childSchema allowedIndices c).map N.node
      | none => some value
    let children ← tryRemapAll children
    return .node value children

def tryRemapAll : List (ExprTree α) → Option (List (ExprTree α))
  | [] => some []
  | e :: es => do
    let e ← e.tryRemap
    let es ← tryRemapAll es
    return e :: es

end

end

def PushedDownPredicate.supported {E : Type} (predicate : E) : PushedDownPredicate E :=
  ⟨.yes, predicate⟩

def PushedDownPredicate.unsupported {E : Type} (predicate : E) : PushedDownPredicate E :=
  ⟨.no, predicate⟩

/-- One turn of `ChildFilterDescription::remap_filters`, with all columns of the child allowed. -/
def remapFilter (childSchema : Schema) (filter : ExprTree α) : PushedDownPredicate (ExprTree α) :=
  match filter.tryRemap N childSchema (List.range childSchema.length) with
  | some remapped => .supported remapped
  | none => .unsupported filter

/-- `ChildFilterDescription::from_child`. -/
def ChildFilterDescription.fromChild (parentFilters : List (ExprTree α)) (childSchema : Schema) :
    ChildFilterDescription (ExprTree α) :=
  ⟨parentFilters.map (remapFilter N childSchema), []⟩

end

/-! ## The aggregate -/

structure PhysicalGroupBy where
  /-- The number of the grouping expressions `expr`. -/
  numExprs : Nat
  /-- The grouping sets: which expressions are null in a set. -/
  groups : List (List Bool)

structure AggregateExec (α : Type) where
  /-- The output: grouping columns first. -/
  schema : Schema
  groupBy : PhysicalGroupBy
  dynamicFilter : Option (ExprTree α)

namespace AggregateExec

variable (N : ColumnNodes α) (a : AggregateExec α)

def groupingColumns : List Column :=
  (a.schema.take a.groupBy.numExprs).zipIdx.map fun f => ⟨f.1.name, f.2⟩

/-- The filter ends among the `safe_filters`: its columns are grouping columns, which no grouping
set leaves out. Without grouping columns the first check is skipped. -/
def isSafe (filter : ExprTree α) : Bool :=
  let filterColumns := filter.collectColumns N
  let referencesNonGrouping :=
    !a.groupingColumns.isEmpty && !filterColumns.all a.groupingColumns.contains
  let filterColumnIndices := (filterColumns.filter a.groupingColumns.contains).map (·.index)
  let hasMissingColumn := a.groupBy.groups.any fun nullMask =>
    filterColumnIndices.any fun idx => nullMask[idx]? == some true
  !referencesNonGrouping && !(a.groupBy.groups.length > 1 && hasMissingColumn)

/-- `AggregateExec::gather_filters_for_pushdown`. -/
def gatherFiltersForPushdown (phase : FilterPushdownPhase)
    (enableAggregateDynamicFilterPushdown : Bool) (childSchema : Schema)
    (parentFilters : List (ExprTree α)) : List (ChildFilterDescription (ExprTree α)) :=
  let safeFilters := parentFilters.filter (a.isSafe N)
  let unsafeFilters := parentFilters.filter (!a.isSafe N ·)
  let childDesc := ChildFilterDescription.fromChild N safeFilters childSchema
  let dynFilter :=
    if phase = .post ∧ enableAggregateDynamicFilterPushdown then a.dynamicFilter.toList else []
  [⟨childDesc.parentFilters ++ unsafeFilters.map .unsupported, childDesc.selfFilters ++ dynFilter⟩]

/-- How a filter is marked, wherever it ends up. -/
def mark (childSchema : Schema) (filter : ExprTree α) : PushedDownPredicate (ExprTree α) :=
  if a.isSafe N filter then remapFilter N childSchema filter else .unsupported filter

variable {N a} {phase : FilterPushdownPhase} {enable : Bool} {childSchema : Schema}
  {parentFilters : List (ExprTree α)} {d : ChildFilterDescription (ExprTree α)}

/-- The marks of the safe filters, and then those of the others. -/
theorem parentFilters_gather
    (hd : d ∈ a.gatherFiltersForPushdown N phase enable childSchema parentFilters) :
    d.parentFilters = (parentFilters.filter (a.isSafe N) ++
      parentFilters.filter (!a.isSafe N ·)).map (a.mark N childSchema) := by
  rw [List.mem_singleton.mp hd, List.map_append]
  refine congrArg₂ (· ++ ·) ?_ ?_
  · refine List.map_congr_left fun f hf => ?_
    rw [mark, if_pos (List.mem_filter.mp hf).2]
  · refine List.map_congr_left fun f hf => ?_
    have hunsafe := (List.mem_filter.mp hf).2
    rw [Bool.not_eq_true'] at hunsafe
    rw [mark, hunsafe]
    rfl

/-- No mark is missing. -/
theorem length_gather
    (hd : d ∈ a.gatherFiltersForPushdown N phase enable childSchema parentFilters) :
    d.parentFilters.length = parentFilters.length := by
  rw [parentFilters_gather hd, List.length_map]
  exact (List.filter_append_perm (a.isSafe N) parentFilters).length_eq

end AggregateExec

/-- Sorting keeps a list in which nothing that passes comes after something that does not. -/
theorem filter_append_filter_not {β : Type} {p : β → Bool} {items : List β}
    (h : items.Pairwise fun a b => p b = true → p a = true) :
    items.filter p ++ items.filter (!p ·) = items := by
  induction h with
  | nil => rfl
  | @cons a items hall _ ih =>
    by_cases ha : p a = true
    · rw [List.filter_cons_of_pos ha, List.filter_cons_of_neg (by simp [ha]), List.cons_append, ih]
    · have hnone : items.filter p = [] := by
        rw [List.filter_eq_nil_iff]
        exact fun b hb hpb => ha (hall b hb hpb)
      rw [hnone, List.nil_append] at ih
      rw [List.filter_cons_of_neg ha, hnone, List.nil_append,
        List.filter_cons_of_pos (by simpa using ha), ih]

/-- **An aggregate keeps the order if no unsafe filter comes before a safe one.** -/
theorem AggregateExec.marksInOrder {N : ColumnNodes α} {a : AggregateExec α}
    {M : PushdownMethods S α} {node : ExecutionPlan S} {phase : FilterPushdownPhase} {enable : Bool}
    {childSchema : Schema} {filters : List (ExprTree α)}
    (hgather : M.gatherFiltersForPushdown node phase filters =
      .ok (a.gatherFiltersForPushdown N phase enable childSchema filters))
    (hsafe : filters.Pairwise fun f g => a.isSafe N g = true → a.isSafe N f = true) :
    M.MarksInOrder node phase filters fun _ => a.mark N childSchema := by
  intro description h c d hd
  rw [hgather] at h
  cases h
  rw [parentFilters_gather (List.mem_of_getElem? hd), filter_append_filter_not hsafe]

/-! ## Groups with their counts -/

/-- A filter that compares a column with a number. -/
inductive CountNode where
  | column (c : Column)
  | above (n : Int)
  | equals (n : Int)
  deriving DecidableEq, Repr

def countNodes : ColumnNodes CountNode where
  column
    | .column c => some c
    | _ => none
  node := .column

/-- `count(*) > 5`. -/
def countAboveFive : ExprTree CountNode :=
  .node (.above 5) [.node (.column ⟨"count(*)", 1⟩) []]

/-- `a = 1`. -/
def groupIsOne : ExprTree CountNode := .node (.equals 1) [.node (.column ⟨"a", 0⟩) []]

/-- `SELECT a, count(*) … GROUP BY a`. -/
def countByGroup : AggregateExec CountNode where
  schema := [⟨"a", .int64, false⟩, ⟨"count(*)", .int64, false⟩]
  groupBy := ⟨1, [[false]]⟩
  dynamicFilter := none

inductive CountOp where
  | aggregate
  | scan
  deriving DecidableEq, Repr

def countSig : Sig where
  Op := CountOp
  Expr := Empty
  Datum := Empty
  display := Empty.elim
  columns := Empty.elim
  opSchema
    | .aggregate, _ => countByGroup.schema
    | .scan, _ => [⟨"a", .int64, false⟩]

def countScan : ExecutionPlan countSig := .other .scan []

def countPlan : ExecutionPlan countSig := .other .aggregate [countScan]

def ChildFilterPushdownResult.any {E : Type} (result : ChildFilterPushdownResult E) : PushedDown :=
  if result.childResults.any (· == .yes) then .yes else .no

/-- `FilterPushdownPropagation::if_any`. -/
def FilterPushdownPropagation.ifAny {T E : Type} (result : ChildPushdownResult E) :
    FilterPushdownPropagation T :=
  ⟨result.parentFilters.map (·.any), none⟩

/-- The scan applies all filters it is asked to. -/
def countMethods : PushdownMethods countSig CountNode where
  isVolatileNode _ := false
  gatherFiltersForPushdown node phase filters :=
    match node.children with
    | [input] =>
      .ok (countByGroup.gatherFiltersForPushdown countNodes phase true input.schema filters)
    | _ => .ok []
  handleChildPushdownResult node _ result :=
    if node.children.isEmpty then .ok ⟨result.parentFilters.map fun _ => .yes, none⟩
    else .ok (.ifAny result)
  name _ := "AggregateExec"
  ptrEq _ _ := true

theorem countMethods_marksEach : countMethods.MarksEach := by
  intro node phase filters description h d hd
  simp only [countMethods] at h
  split at h
  · cases h
    exact AggregateExec.length_gather hd
  · cases h
    cases hd

-- the other way round each answer is where it belongs
example : pushDownFilters acceptAll countMethods .pre countPlan [groupIsOne, countAboveFive] =
    .ok ⟨[.yes, .no], none⟩ := rfl

end PredicateTransfer
