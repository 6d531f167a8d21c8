import PredicateTransfer.Pruning.Expr

/-!
# Rewriting a filter into a predicate on statistics

`pruning_predicate.rs` turns a filter into an expression over the minimum, maximum, null count and
row count of each container, to be false only where no row of the container can pass. This module
follows its functions one by one. What the rewriting cannot handle becomes the literal `true`.

The statistics an expression needs are collected in a table shared by the whole filter
(`RequiredColumns`), and a statistics column is addressed by its position there. A step that fails
after asking for a statistic leaves the entry behind, so the table is threaded through every step
and the result of a failed one is `none`.
-/

namespace PredicateTransfer.Pruning

variable {D F : Type}

/-! ### The table of statistics columns -/

inductive StatisticsType
  | min
  | max
  | nullCount
  | rowCount
  deriving DecidableEq, Repr

structure RequiredColumn where
  column : Column
  statisticsType : StatisticsType
  field : Field
  deriving DecidableEq, Repr

abbrev RequiredColumns := List RequiredColumn

namespace RequiredColumns

/-- The row count of any column serves for all. -/
def findStatColumn (required : RequiredColumns) (column : Column) :
    StatisticsType → Option Nat
  | .rowCount => required.findIdx? (·.statisticsType = .rowCount)
  | t => required.findIdx? fun r => r.column = column ∧ r.statisticsType = t

def statColumnName (column : Column) : StatisticsType → String
  | .min => column.name ++ "_min"
  | .max => column.name ++ "_max"
  | .nullCount => column.name ++ "_null_count"
  | .rowCount => "row_count"

end RequiredColumns

/-- Replaces a column by another one. -/
def rewriteColumnExpr (e : Expr D F) (columnOld columnNew : Column) : Expr D F :=
  e.mapColumns fun c => if c = columnOld then columnNew else c

namespace RequiredColumns

/-- `columnExpr` over a statistic of its column, and the table with that statistic in it. -/
def statColumnExpr (required : RequiredColumns) (column : Column) (columnExpr : Expr D F)
    (field : Field) (statType : StatisticsType) : RequiredColumns × Expr D F :=
  let name := statColumnName column statType
  match required.findStatColumn column statType with
  | some idx => (required, rewriteColumnExpr columnExpr column ⟨name, idx⟩)
  | none => (required ++ [⟨column, statType, ⟨name, field.dataType⟩⟩],
      rewriteColumnExpr columnExpr column ⟨name, required.length⟩)

def minColumnExpr (required : RequiredColumns) (column : Column) (columnExpr : Expr D F)
    (field : Field) : RequiredColumns × Expr D F :=
  required.statColumnExpr column columnExpr field .min

def maxColumnExpr (required : RequiredColumns) (column : Column) (columnExpr : Expr D F)
    (field : Field) : RequiredColumns × Expr D F :=
  required.statColumnExpr column columnExpr field .max

def nullCountColumnExpr (required : RequiredColumns) (column : Column) (columnExpr : Expr D F)
    (field : Field) : RequiredColumns × Expr D F :=
  required.statColumnExpr column columnExpr field .nullCount

def rowCountColumnExpr (required : RequiredColumns) (column : Column) (columnExpr : Expr D F)
    (field : Field) : RequiredColumns × Expr D F :=
  required.statColumnExpr column columnExpr field .rowCount

end RequiredColumns

/-! ### Bringing the column to one side -/

def isCompareOp : Operator → Bool
  | .eq | .notEq | .lt | .ltEq | .gt | .gtEq | .likeMatch | .notLikeMatch => true
  | _ => false

/-- The second half of `verify_support_type_for_prune`, for a source type that is no dictionary. -/
def verifyToType (fromType : DataType) : DataType → Bool
  | .dictionary _ v => verifyToType fromType v
  | toType => fromType.isString == toType.isString

/-- Casts are followed between two string types and between two other types; a dictionary counts
as its values. -/
def verifySupportTypeForPrune : DataType → DataType → Bool
  | .dictionary _ v, toType => verifySupportTypeForPrune v toType
  | fromType, toType => verifyToType fromType toType

/-- The type of the expressions the rewriting looks through. -/
def Expr.dataType (schema : Schema) : Expr D F → Option DataType
  | .column c => (schema[c.index]?).map (·.dataType)
  | .cast _ _ t | .castColumn _ _ t | .tryCast _ t => some t
  | .negative arg => arg.dataType schema
  | .not _ | .isNull _ | .isNotNull _ | .like .. | .inList .. => some .boolean
  | _ => none

/-- A cast is kept around the rewritten operand if its types are supported. -/
def throughCast (schema : Schema) (e : Expr D F) (castType : DataType)
    (wrap : Expr D F → Expr D F) (rewritten : Option (Expr D F × Operator × Expr D F)) :
    Option (Expr D F × Operator × Expr D F) := do
  let fromType ← e.dataType schema
  guard (verifySupportTypeForPrune fromType castType)
  let (left, op, right) ← rewritten
  some (wrap left, op, right)

/-- Rewrites `columnExpr op scalarExpr` so that only casts are left around the column. -/
def rewriteExprToPrunable (schema : Schema) :
    Expr D F → Operator → Expr D F → Option (Expr D F × Operator × Expr D F)
  | .column c, op, scalar => if isCompareOp op then some (.column c, op, scalar) else none
  | .cast _ e castType, op, scalar =>
    if isCompareOp op then
      throughCast schema e castType (.cast false · castType)
        (rewriteExprToPrunable schema e op scalar)
    else none
  | .castColumn _ e target, op, scalar =>
    if isCompareOp op then
      throughCast schema e target (.cast false · target) (rewriteExprToPrunable schema e op scalar)
    else none
  | .tryCast e castType, op, scalar =>
    if isCompareOp op then
      throughCast schema e castType (.tryCast · castType) (rewriteExprToPrunable schema e op scalar)
    else none
  | .negative arg, op, scalar =>
    if isCompareOp op then do
      let (left, op, right) ← rewriteExprToPrunable schema arg op scalar
      let op ← op.swap
      some (left, op, .negative right)
    else none
  | .not arg, op, scalar =>
    if op = .eq ∨ op = .notEq then
      match arg with
      | .column c => op.swap.map fun op => (.column c, op, .not scalar)
      | _ => none
    else none
  | _, _, _ => none

inductive ColumnReferenceCount
  | zero
  | one (c : Column)
  | many
  deriving DecidableEq, Repr

def ColumnReferenceCount.fromExpression (e : Expr D F) : ColumnReferenceCount :=
  match e.columns.dedup with
  | [] => .zero
  | [c] => .one c
  | _ => .many

structure PruningExpressionBuilder (D F : Type) where
  column : Column
  columnExpr : Expr D F
  op : Operator
  scalarExpr : Expr D F
  field : Field

namespace PruningExpressionBuilder

/-- The side with the one column, the other side, the column, and the operator seen from there. -/
def sides (left : Expr D F) (op : Operator) (right : Expr D F) :
    Option (Expr D F × Expr D F × Column × Operator) :=
  match ColumnReferenceCount.fromExpression left, ColumnReferenceCount.fromExpression right with
  | .one c, .zero => some (left, right, c, op)
  | .zero, .one c => op.swap.map fun op => (right, left, c, op)
  | _, _ => none

def tryNew (schema : Schema) (left : Expr D F) (op : Operator) (right : Expr D F) :
    Option (PruningExpressionBuilder D F) := do
  let (columnExpr, scalarExpr, column, op) ← sides left op right
  let (columnExpr, op, scalarExpr) ← rewriteExprToPrunable schema columnExpr op scalarExpr
  let (_, field) ← schema.columnWithName column.name
  some ⟨column, columnExpr, op, scalarExpr, field⟩

variable (b : PruningExpressionBuilder D F) (required : RequiredColumns)

def minColumnExpr : RequiredColumns × Expr D F :=
  required.minColumnExpr b.column b.columnExpr b.field

def maxColumnExpr : RequiredColumns × Expr D F :=
  required.maxColumnExpr b.column b.columnExpr b.field

def nullCountColumnExpr : RequiredColumns × Expr D F :=
  required.nullCountColumnExpr b.column (.column b.column) ⟨b.field.name, .uint64⟩

def rowCountColumnExpr : RequiredColumns × Expr D F :=
  required.rowCountColumnExpr b.column (.column b.column) ⟨b.field.name, .uint64⟩

end PruningExpressionBuilder

/-! ### LIKE -/

def isWildcard (c : Char) : Bool := c = '%' || c = '_'

/-- The string of a literal. -/
def extractStringLiteral : Expr D F → Option (List Char)
  | .literal (.utf8 s) => some s
  | _ => none

/-- Code points the upper end of a prefix range may end in: neither a non-character nor beyond the
last code point. -/
def isValidUnicode (cp : Nat) : Bool :=
  !(cp = 0xFFFE || cp = 0xFFFF || (0xFDD0 ≤ cp && cp ≤ 0xFDEF)) && cp < 0x110000

/-- The next code point, if it is a character that may be used. -/
def nextChar (c : Char) : Option Char :=
  if (c.toNat + 1).isValidChar ∧ isValidUnicode (c.toNat + 1) then some (Char.ofNat (c.toNat + 1))
  else none

/-- The last character that can be is incremented, and what follows it is cut off. -/
def incrementUtf8 : List Char → Option (List Char)
  | [] => none
  | c :: rest =>
    match incrementUtf8 rest with
    | some rest' => some (c :: rest')
    | none => (nextChar c).map ([·])

/-- The pattern up to its first wildcard that does not follow a backslash, and the rest. `prev` is
the character before. -/
def splitConstantPrefixFrom (prev : Option Char) : List Char → List Char × List Char
  | [] => ([], [])
  | c :: rest =>
    if isWildcard c && prev ≠ some '\\' then ([], c :: rest)
    else
      let (constPrefix, remaining) := splitConstantPrefixFrom (some c) rest
      (c :: constPrefix, remaining)

def splitConstantPrefix (pattern : List Char) : List Char × List Char :=
  splitConstantPrefixFrom none pattern

/-- The two ends of the range a LIKE pattern is turned into: its text up to the first wildcard and
the increment of that, or the whole pattern twice if there is no wildcard. -/
def likeBounds (s : List Char) : Option (List Char × List Char) :=
  match s.findIdx? isWildcard with
  | some 0 => none
  | some i => (incrementUtf8 (s.take i)).map (s.take i, ·)
  | none => some (s, s)

variable (b : PruningExpressionBuilder D F) (required : RequiredColumns)

/-- `min <= upper AND lower <= max`. -/
def buildLikeMatch : RequiredColumns × Option (Expr D F) :=
  let (required, minExpr) := b.minColumnExpr required
  let (required, maxExpr) := b.maxColumnExpr required
  (required, do
    let s ← extractStringLiteral b.scalarExpr
    let (lower, upper) ← likeBounds s
    some (.binary (.binary minExpr .ltEq (.literal (.utf8 upper))) .and
      (.binary (.literal (.utf8 lower)) .ltEq maxExpr)))

/-- `min NOT LIKE pattern OR max NOT LIKE pattern`, for a constant prefix followed by `%`. -/
def buildNotLikeMatch : RequiredColumns × Option (Expr D F) :=
  let (required, minExpr) := b.minColumnExpr required
  let (required, maxExpr) := b.maxColumnExpr required
  (required, do
    let pattern ← extractStringLiteral b.scalarExpr
    let (constPrefix, remaining) := splitConstantPrefix pattern
    guard (constPrefix ≠ [] ∧ remaining = ['%'])
    some (.binary (.like true false minExpr b.scalarExpr) .or
      (.like true false maxExpr b.scalarExpr)))

/-! ### Comparisons -/

/-- `null_count != row_count AND statisticsExpr`. -/
def wrapNullCountCheckExpr (statisticsExpr : Expr D F) : RequiredColumns × Expr D F :=
  let (required, nullCount) := b.nullCountColumnExpr required
  let (required, rowCount) := b.rowCountColumnExpr required
  (required, .binary (.binary nullCount .notEq rowCount) .and statisticsExpr)

/-- The comparison with the bounds of the column, before the null count check. -/
def boundsExpr : RequiredColumns × Option (Expr D F) :=
  match b.op with
  | .notEq =>
    let (required, minExpr) := b.minColumnExpr required
    let (required, maxExpr) := b.maxColumnExpr required
    (required, some (.binary (.binary minExpr .notEq b.scalarExpr) .or
      (.binary b.scalarExpr .notEq maxExpr)))
  | .eq =>
    let (required, minExpr) := b.minColumnExpr required
    let (required, maxExpr) := b.maxColumnExpr required
    (required, some (.binary (.binary minExpr .ltEq b.scalarExpr) .and
      (.binary b.scalarExpr .ltEq maxExpr)))
  | .notLikeMatch => buildNotLikeMatch b required
  | .likeMatch => buildLikeMatch b required
  | .gt =>
    let (required, maxExpr) := b.maxColumnExpr required
    (required, some (.binary maxExpr .gt b.scalarExpr))
  | .gtEq =>
    let (required, maxExpr) := b.maxColumnExpr required
    (required, some (.binary maxExpr .gtEq b.scalarExpr))
  | .lt =>
    let (required, minExpr) := b.minColumnExpr required
    (required, some (.binary minExpr .lt b.scalarExpr))
  | .ltEq =>
    let (required, minExpr) := b.minColumnExpr required
    (required, some (.binary minExpr .ltEq b.scalarExpr))
  | _ => (required, none)

def buildStatisticsExpr : RequiredColumns × Option (Expr D F) :=
  match boundsExpr b required with
  | (required, some statisticsExpr) =>
    let (required, wrapped) := wrapNullCountCheckExpr b required statisticsExpr
    (required, some wrapped)
  | (required, none) => (required, none)

/-! ### The whole filter -/

/-- What the rewriting puts in the place of a filter it cannot handle. -/
def unhandled : Expr D F := .literal (.boolean true)

/-- A comparison, or `true` where it cannot be turned into one over statistics. -/
def buildComparison (schema : Schema) (left : Expr D F) (op : Operator) (right : Expr D F)
    (required : RequiredColumns) : RequiredColumns × Expr D F :=
  match PruningExpressionBuilder.tryNew schema left op right with
  | none => (required, unhandled)
  | some b =>
    match buildStatisticsExpr b required with
    | (required, some e) => (required, e)
    | (required, none) => (required, unhandled)

/-- A boolean column is rewritten to `min OR max`, its negation to `NOT (min AND max)`. -/
def buildSingleColumnExpr (column : Column) (schema : Schema) (required : RequiredColumns)
    (isNot : Bool) : RequiredColumns × Option (Expr D F) :=
  match schema.columnWithName column.name with
  | none => (required, none)
  | some (_, field) =>
    if field.dataType = .boolean then
      let (required, min) := required.minColumnExpr column (.column column) field
      let (required, max) := required.maxColumnExpr column (.column column) field
      if isNot then (required, some (.not (.binary min .and max)))
      else (required, some (.binary min .or max))
    else (required, none)

/-- `IS NULL` is rewritten to `null_count > 0`, `IS NOT NULL` to `null_count != row_count`. -/
def buildIsNullColumnExpr (e : Expr D F) (schema : Schema) (required : RequiredColumns)
    (withNot : Bool) : RequiredColumns × Option (Expr D F) :=
  match e with
  | .column col =>
    match schema.columnWithName col.name with
    | none => (required, none)
    | some (_, field) =>
      let nullCountField : Field := ⟨field.name, .uint64⟩
      if withNot then
        let (required, rowCount) := required.rowCountColumnExpr col e nullCountField
        let (required, nullCount) := required.nullCountColumnExpr col e nullCountField
        (required, some (.binary nullCount .notEq rowCount))
      else
        let (required, nullCount) := required.nullCountColumnExpr col e nullCountField
        (required, some (.binary nullCount .gt (.literal (.uint64 0))))
  | _ => (required, none)

def isAlwaysTrue : Expr D F → Bool
  | .literal (.boolean true) => true
  | _ => false

def isAlwaysFalse : Expr D F → Bool
  | .literal (.boolean false) => true
  | _ => false

/-- `AND` and `OR` of two rewritten filters, simplified where one of them is a truth value. -/
def combine (left : Expr D F) (op : Operator) (right : Expr D F) : Expr D F :=
  if op = .and then
    if isAlwaysFalse left || isAlwaysFalse right then .literal (.boolean false)
    else if isAlwaysTrue left then right
    else if isAlwaysTrue right then left
    else .binary left op right
  else
    if isAlwaysTrue left || isAlwaysTrue right then .literal (.boolean true)
    else if isAlwaysFalse left then right
    else if isAlwaysFalse right then left
    else .binary left op right

def maxListValueSizeRewrite : Nat := 20

/-- The rewriting of `e eqOp x₁ reOp e eqOp x₂ reOp …`. -/
def buildInList (schema : Schema) (e : Expr D F) (eqOp reOp : Operator) :
    List (Expr D F) → RequiredColumns → RequiredColumns × Expr D F
  | [], required => (required, unhandled)
  | x :: xs, required => xs.foldl
      (fun (required, left) y =>
        let (required, right) := buildComparison schema e eqOp y required
        (required, combine left reOp right))
      (buildComparison schema e eqOp x required)

/-- `build_predicate_expression`. -/
def buildPredicateExpression (schema : Schema) :
    Expr D F → RequiredColumns → RequiredColumns × Expr D F
  | .literal v, required =>
    if isAlwaysFalse (.literal v : Expr D F) then (required, .literal v) else (required, unhandled)
  | .isNull arg, required =>
    let (required, built) := buildIsNullColumnExpr arg schema required false
    (required, built.getD unhandled)
  | .isNotNull arg, required =>
    let (required, built) := buildIsNullColumnExpr arg schema required true
    (required, built.getD unhandled)
  | .column c, required =>
    let (required, built) := buildSingleColumnExpr c schema required false
    (required, built.getD unhandled)
  | .not arg, required =>
    match arg with
    | .column c =>
      let (required, built) := buildSingleColumnExpr c schema required true
      (required, built.getD unhandled)
    | _ => (required, unhandled)
  | .inList e list negated, required =>
    if list ≠ [] ∧ list.length ≤ maxListValueSizeRewrite then
      buildInList schema e (if negated then .notEq else .eq) (if negated then .and else .or) list
        required
    else (required, unhandled)
  | .binary left op right, required =>
    if op = .and ∨ op = .or then
      let (required, leftExpr) := buildPredicateExpression schema left required
      let (required, rightExpr) := buildPredicateExpression schema right required
      (required, combine leftExpr op rightExpr)
    else buildComparison schema left op right required
  | .like negated caseInsensitive e pattern, required =>
    if caseInsensitive then (required, unhandled)
    else
      buildComparison schema e (if negated then .notLikeMatch else .likeMatch) pattern required
  | _, required => (required, unhandled)

theorem buildInList_concat {schema : Schema} {e : Expr D F} {eqOp reOp : Operator}
    {list : List (Expr D F)} (hlist : list ≠ []) (y : Expr D F) (required : RequiredColumns) :
    buildInList schema e eqOp reOp (list ++ [y]) required =
      let (required, left) := buildInList schema e eqOp reOp list required
      let (required, right) := buildComparison schema e eqOp y required
      (required, combine left reOp right) := by
  obtain ⟨x, xs, rfl⟩ := List.exists_cons_of_ne_nil hlist
  rw [List.cons_append, buildInList, List.foldl_append]
  rfl

end PredicateTransfer.Pruning
