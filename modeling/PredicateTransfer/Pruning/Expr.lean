import PredicateTransfer.Pruning.Values

/-!
# Physical expressions, as the pruning predicate meets them

`pruning_predicate.rs` rewrites a filter into an expression over statistics, and both sides are
physical expressions: the filter is evaluated on a row of the container, its rewriting on the row
of statistics. This module is the language they share.

What lives outside the repository (casts, arithmetic, functions) is a parameter, `Kernels`. An
expression evaluates to `none` when a kernel fails. Two facts carry the later proofs: a value
depends on the columns an expression refers to only (`eval_congr`), and renaming columns is the
same as reading the row at other places (`eval_mapColumns`).
-/

namespace PredicateTransfer.Pruning

/-! ### Types and columns -/

/-- Arrow's data types, as far as the rewriting tells them apart. -/
inductive DataType
  | boolean
  | uint64
  | utf8
  | largeUtf8
  | utf8View
  | dictionary (key value : DataType)
  | other (name : String)
  deriving DecidableEq, Repr

def DataType.isString : DataType → Bool
  | .utf8 | .largeUtf8 | .utf8View => true
  | _ => false

structure Field where
  name : String
  dataType : DataType
  deriving DecidableEq, Repr

abbrev Schema := List Field

/-- The first field of that name and its position. -/
def Schema.columnWithName (schema : Schema) (name : String) : Option (Nat × Field) :=
  match schema.findIdx? (·.name = name) with
  | some i => (schema[i]?).map (i, ·)
  | none => none

/-- A reference to a column. The name finds the field in a schema, the index the value in a row. -/
structure Column where
  name : String
  index : Nat
  deriving DecidableEq, Repr

/-! ### Expressions -/

/-- `F` names the expressions the rewriting has no case for. -/
inductive Expr (D F : Type)
  | column (c : Column)
  | literal (v : Scalar D)
  | isNull (arg : Expr D F)
  | isNotNull (arg : Expr D F)
  | not (arg : Expr D F)
  | negative (arg : Expr D F)
  | cast (safe : Bool) (e : Expr D F) (castType : DataType)
  | castColumn (safe : Bool) (e : Expr D F) (target : DataType)
  | tryCast (e : Expr D F) (castType : DataType)
  | binary (left : Expr D F) (op : Operator) (right : Expr D F)
  | like (negated caseInsensitive : Bool) (e pattern : Expr D F)
  | inList (e : Expr D F) (list : List (Expr D F)) (negated : Bool)
  | other (f : F) (args : List (Expr D F))

/-- The kernels of Arrow and the functions an expression may call. `negWrapping` is the minus of an
array, `arithmeticNegate` that of a single value. A function is handed the results of its
arguments, so it may ignore one that failed. -/
structure Kernels (D F : Type) where
  cast : Bool → DataType → Scalar D → Option (Scalar D)
  castColumn : Bool → DataType → Scalar D → Option (Scalar D)
  negWrapping : Scalar D → Option (Scalar D)
  arithmeticNegate : Scalar D → Option (Scalar D)
  operator : Operator → Scalar D → Scalar D → Option (Scalar D)
  function : F → List (Option (Scalar D)) → Option (Scalar D)

namespace Expr

variable {D F : Type}

/-- Induction on expressions, with the hypothesis for every member of a list. -/
@[elab_as_elim, induction_eliminator]
theorem inductOn {motive : Expr D F → Prop}
    (column : ∀ c, motive (.column c)) (literal : ∀ v, motive (.literal v))
    (isNull : ∀ arg, motive arg → motive (.isNull arg))
    (isNotNull : ∀ arg, motive arg → motive (.isNotNull arg))
    (not : ∀ arg, motive arg → motive (.not arg))
    (negative : ∀ arg, motive arg → motive (.negative arg))
    (cast : ∀ safe e castType, motive e → motive (.cast safe e castType))
    (castColumn : ∀ safe e target, motive e → motive (.castColumn safe e target))
    (tryCast : ∀ e castType, motive e → motive (.tryCast e castType))
    (binary : ∀ l op r, motive l → motive r → motive (.binary l op r))
    (like : ∀ negated ci e p, motive e → motive p → motive (.like negated ci e p))
    (inList : ∀ e list negated, motive e → (∀ x ∈ list, motive x) →
      motive (.inList e list negated))
    (other : ∀ f args, (∀ x ∈ args, motive x) → motive (.other f args)) (e : Expr D F) :
    motive e :=
  @Expr.rec D F motive (fun es => ∀ x ∈ es, motive x)
    column literal isNull isNotNull not negative cast castColumn tryCast binary like inList other
    (fun _ h => absurd h List.not_mem_nil)
    (fun _ _ hx hxs _ h => (List.mem_cons.1 h).elim (fun e => e ▸ hx) (hxs _)) e

mutual

/-- The columns an expression refers to, from left to right. -/
def columns : Expr D F → List Column
  | .column c => [c]
  | .literal _ => []
  | .isNull arg | .isNotNull arg | .not arg | .negative arg => arg.columns
  | .cast _ e _ | .castColumn _ e _ | .tryCast e _ => e.columns
  | .binary l _ r => l.columns ++ r.columns
  | .like _ _ e p => e.columns ++ p.columns
  | .inList e list _ => e.columns ++ columnsAll list
  | .other _ args => columnsAll args

def columnsAll : List (Expr D F) → List Column
  | [] => []
  | e :: es => e.columns ++ columnsAll es

end

theorem columnsAll_eq (es : List (Expr D F)) : columnsAll es = es.flatMap columns := by
  induction es with
  | nil => rfl
  | cons e es ih => rw [columnsAll, ih, List.flatMap_cons]

mutual

/-- Every reference to a column replaced. -/
def mapColumns (f : Column → Column) : Expr D F → Expr D F
  | .column c => .column (f c)
  | .literal v => .literal v
  | .isNull arg => .isNull (arg.mapColumns f)
  | .isNotNull arg => .isNotNull (arg.mapColumns f)
  | .not arg => .not (arg.mapColumns f)
  | .negative arg => .negative (arg.mapColumns f)
  | .cast safe e castType => .cast safe (e.mapColumns f) castType
  | .castColumn safe e target => .castColumn safe (e.mapColumns f) target
  | .tryCast e castType => .tryCast (e.mapColumns f) castType
  | .binary l op r => .binary (l.mapColumns f) op (r.mapColumns f)
  | .like negated ci e p => .like negated ci (e.mapColumns f) (p.mapColumns f)
  | .inList e list negated => .inList (e.mapColumns f) (mapColumnsAll f list) negated
  | .other g args => .other g (mapColumnsAll f args)

def mapColumnsAll (f : Column → Column) : List (Expr D F) → List (Expr D F)
  | [] => []
  | e :: es => e.mapColumns f :: mapColumnsAll f es

end

theorem mapColumnsAll_eq (f : Column → Column) (es : List (Expr D F)) :
    mapColumnsAll f es = es.map (mapColumns f) := by
  induction es with
  | nil => rfl
  | cons e es ih => rw [mapColumnsAll, ih, List.map_cons]

theorem columns_mapColumns (f : Column → Column) (e : Expr D F) :
    (e.mapColumns f).columns = e.columns.map f := by
  induction e with
  | column c => rfl
  | literal v => rfl
  | isNull arg ih | isNotNull arg ih | not arg ih | negative arg ih => exact ih
  | cast safe e castType ih | castColumn safe e target ih => exact ih
  | tryCast e castType ih => exact ih
  | binary l op r ihl ihr => rw [mapColumns, columns, columns, ihl, ihr, List.map_append]
  | like negated ci e p ihe ihp => rw [mapColumns, columns, columns, ihe, ihp, List.map_append]
  | inList e list negated ihe ihs =>
    rw [mapColumns, columns, columns, ihe, columnsAll_eq, columnsAll_eq, mapColumnsAll_eq,
      List.map_append, List.map_flatMap, List.flatMap_map]
    rw [List.flatMap_congr fun x hx => ihs x hx]
  | other g args ihs =>
    rw [mapColumns, columns, columns, columnsAll_eq, columnsAll_eq, mapColumnsAll_eq,
      List.map_flatMap, List.flatMap_map]
    exact List.flatMap_congr fun x hx => ihs x hx

theorem mapColumns_id (e : Expr D F) : e.mapColumns id = e := by
  induction e with
  | column c => rfl
  | literal v => rfl
  | isNull arg ih | isNotNull arg ih | not arg ih | negative arg ih => rw [mapColumns, ih]
  | cast safe e castType ih | castColumn safe e target ih => rw [mapColumns, ih]
  | tryCast e castType ih => rw [mapColumns, ih]
  | binary l op r ihl ihr => rw [mapColumns, ihl, ihr]
  | like negated ci e p ihe ihp => rw [mapColumns, ihe, ihp]
  | inList e list negated ihe ihs =>
    rw [mapColumns, ihe, mapColumnsAll_eq, List.map_congr_left (g := id) ihs, List.map_id]
  | other f args ihs =>
    rw [mapColumns, mapColumnsAll_eq, List.map_congr_left (g := id) ihs, List.map_id]

/-! ### Evaluation -/

variable [LinearOrder D]

/-- The operators other than `AND` and `OR`. -/
def applyOperator (K : Kernels D F) (op : Operator) (a b : Scalar D) : Option (Scalar D) :=
  match op with
  | .eq | .notEq | .lt | .ltEq | .gt | .gtEq => compareValues op a b
  | .likeMatch => likeValues false a b
  | .notLikeMatch => likeValues true a b
  | op => K.operator op a b

mutual

/-- The value of an expression on a row. The minus of a column wraps, as it is computed on an
array; that of a column-free expression, computed on a single value, fails when it overflows. -/
def eval (K : Kernels D F) (row : List (Scalar D)) : Expr D F → Option (Scalar D)
  | .column c => row[c.index]?
  | .literal v => some v
  | .isNull arg => (arg.eval K row).map fun v => .boolean v.isNull
  | .isNotNull arg => (arg.eval K row).map fun v => .boolean !v.isNull
  | .not arg => (arg.eval K row).bind Scalar.not
  | .negative arg => (arg.eval K row).bind fun v =>
      if arg.columns.isEmpty then K.arithmeticNegate v else K.negWrapping v
  | .cast safe e castType => (e.eval K row).bind (K.cast safe castType)
  | .castColumn safe e target => (e.eval K row).bind (K.castColumn safe target)
  | .tryCast e castType => (e.eval K row).bind (K.cast true castType)
  | .binary l op r =>
    if op = .and then andValues (l.eval K row) (r.eval K row)
    else if op = .or then orValues (l.eval K row) (r.eval K row)
    else (l.eval K row).bind fun a => (r.eval K row).bind fun b => applyOperator K op a b
  | .like negated caseInsensitive e p =>
      (e.eval K row).bind fun a => (p.eval K row).bind fun b =>
        if caseInsensitive then
          K.operator (if negated then .notILikeMatch else .iLikeMatch) a b
        else likeValues negated a b
  | .inList e list negated => (e.eval K row).bind fun v =>
      if negated then (inListValue v (evalAll K row list)).bind Scalar.not
      else inListValue v (evalAll K row list)
  | .other f args => K.function f (evalAll K row args)

def evalAll (K : Kernels D F) (row : List (Scalar D)) :
    List (Expr D F) → List (Option (Scalar D))
  | [] => []
  | e :: es => e.eval K row :: evalAll K row es

end

variable {K : Kernels D F} {row row' : List (Scalar D)}

theorem evalAll_eq (es : List (Expr D F)) : evalAll K row es = es.map (eval K row) := by
  induction es with
  | nil => rfl
  | cons e es ih => rw [evalAll, ih, List.map_cons]

/-- Renaming the columns of an expression is evaluating it on a row that has their values at the
new places. -/
theorem eval_mapColumns {f : Column → Column} {e : Expr D F}
    (h : ∀ c ∈ e.columns, row'[(f c).index]? = row[c.index]?) :
    (e.mapColumns f).eval K row' = e.eval K row := by
  induction e with
  | column c => exact h c List.mem_cons_self
  | literal v => rfl
  | isNull arg ih | isNotNull arg ih | not arg ih =>
    rw [mapColumns, eval, eval, ih h]
  | negative arg ih =>
    rw [mapColumns, eval, eval, ih h, columns_mapColumns, List.isEmpty_map]
  | cast safe e castType ih | castColumn safe e target ih => rw [mapColumns, eval, eval, ih h]
  | tryCast e castType ih => rw [mapColumns, eval, eval, ih h]
  | binary l op r ihl ihr =>
    rw [mapColumns, eval, eval, ihl fun c hc => h c (List.mem_append_left _ hc),
      ihr fun c hc => h c (List.mem_append_right _ hc)]
  | like negated ci e p ihe ihp =>
    rw [mapColumns, eval, eval, ihe fun c hc => h c (List.mem_append_left _ hc),
      ihp fun c hc => h c (List.mem_append_right _ hc)]
  | inList e list negated ihe ihs =>
    have hlist : evalAll K row' (mapColumnsAll f list) = evalAll K row list := by
      rw [mapColumnsAll_eq, evalAll_eq, evalAll_eq, List.map_map]
      refine List.map_congr_left fun x hx => ihs x hx fun c hc => h c ?_
      rw [columns, columnsAll_eq]
      exact List.mem_append_right _ (List.mem_flatMap.mpr ⟨x, hx, hc⟩)
    rw [mapColumns, eval, eval, ihe fun c hc => h c (List.mem_append_left _ hc), hlist]
  | other g args ihs =>
    rw [mapColumns, eval, eval, mapColumnsAll_eq, evalAll_eq, evalAll_eq, List.map_map]
    refine congrArg _ (List.map_congr_left fun x hx => ihs x hx fun c hc => h c ?_)
    rw [columns, columnsAll_eq]
    exact List.mem_flatMap.mpr ⟨x, hx, hc⟩

/-- The value of an expression depends on the columns it refers to. -/
theorem eval_congr {e : Expr D F} (h : ∀ c ∈ e.columns, row'[c.index]? = row[c.index]?) :
    e.eval K row' = e.eval K row := by
  have hid := eval_mapColumns (K := K) (f := id) h
  rwa [mapColumns_id] at hid

theorem eval_of_columns_eq_nil {e : Expr D F} (h : e.columns = []) (row row' : List (Scalar D)) :
    e.eval K row' = e.eval K row :=
  eval_congr (by simp [h])

end Expr

/-! ### Comparisons and IN lists -/

variable [LinearOrder D] {K : Kernels D F} {row : List (Scalar D)}

/-- A comparison of two results; an error on either side is one. -/
def compareResults (op : Operator) (l r : Option (Scalar D)) : Option (Scalar D) :=
  l.bind fun a => r.bind fun b => compareValues op a b

theorem eval_comparison {op : Operator} (hop : op.isComparison = true) (l r : Expr D F) :
    (Expr.binary l op r).eval K row = compareResults op (l.eval K row) (r.eval K row) := by
  rw [Expr.eval, if_neg (by rintro rfl; cases hop), if_neg (by rintro rfl; cases hop)]
  cases op <;> first | rfl | cases hop

theorem compareResults_eq_boolean {op : Operator} {l r : Option (Scalar D)} {c : Bool}
    (h : compareResults op l r = some (.boolean c)) :
    ∃ a b, l = some a ∧ r = some b ∧ compareValues op a b = some (.boolean c) := by
  obtain ⟨a, ha, h⟩ := Option.bind_eq_some_iff.mp h
  obtain ⟨b, hb, h⟩ := Option.bind_eq_some_iff.mp h
  exact ⟨a, b, ha, hb, h⟩

/-- A comparison evaluates to a truth value only if both its operands have values. -/
theorem eval_comparison_eq_boolean {l r : Expr D F} {op : Operator} {c : Bool}
    (hop : op.isComparison = true) (h : (Expr.binary l op r).eval K row = some (.boolean c)) :
    ∃ a b, l.eval K row = some a ∧ r.eval K row = some b ∧
      compareValues op a b = some (.boolean c) := by
  rw [eval_comparison hop] at h
  exact compareResults_eq_boolean h

theorem exists_of_in_eq_true {e : Expr D F} {list : List (Expr D F)}
    (h : (Expr.inList e list false).eval K row = some (.boolean true)) :
    ∃ x ∈ list, (Expr.binary e .eq x).eval K row = some (.boolean true) := by
  obtain ⟨v, hv, h⟩ := Option.bind_eq_some_iff.mp h
  rw [if_neg Bool.false_ne_true, Expr.evalAll_eq] at h
  obtain ⟨item, hitem, heq⟩ := inListValue_eq_true h
  obtain ⟨x, hx, rfl⟩ := List.mem_map.mp hitem
  refine ⟨x, hx, ?_⟩
  rw [eval_comparison rfl, hv]
  exact heq

theorem forall_of_notIn_eq_true {e : Expr D F} {list : List (Expr D F)}
    (h : (Expr.inList e list true).eval K row = some (.boolean true)) :
    ∀ x ∈ list, (Expr.binary e .notEq x).eval K row = some (.boolean true) := by
  obtain ⟨v, hv, h⟩ := Option.bind_eq_some_iff.mp h
  rw [if_pos rfl, Expr.evalAll_eq] at h
  obtain ⟨_, hin, hnot⟩ := Option.bind_eq_some_iff.mp h
  rw [Scalar.not_eq_boolean.mp hnot] at hin
  intro x hx
  obtain ⟨w, hw, hne⟩ := Option.bind_eq_some_iff.mp
    (inListValue_eq_false hin _ (List.mem_map_of_mem hx))
  rw [eval_comparison rfl, hv, hw]
  exact compareValues_eq_true.mpr (compareValues_eq_false.mp hne)

end PredicateTransfer.Pruning
