import Mathlib.Data.List.Infix
import Mathlib.Data.Finset.Card
import Mathlib.Tactic

/-!
# Rows, batches, schemas and key expressions

The data that physical plans move around. A batch is the list of its rows and a row is the list
of its values; an Arrow column is read off a batch with `RecordBatch.column`. A value carries its
Arrow type in its constructor, since the Bloom filter operators branch on the array type
(`Int32Array`, `Int64Array`, `StringArray`, anything else), and a cleared validity bit is `null`
whatever the type.

Everything the rule only passes through is a parameter (`Sig`): the other operators, the other
expressions, and the values of the other Arrow types.
-/

namespace PredicateTransfer

/-! ## Schemas -/

/-- The Arrow types the modelled code tells apart. -/
inductive DataType where
  | int32
  | int64
  | utf8
  | boolean
  | other (name : String)
  deriving DecidableEq, Repr

structure Field where
  name : String
  dataType : DataType
  nullable : Bool
  deriving DecidableEq, Repr

/-- `Schema::fields`, in order. Field names may repeat and may be empty. -/
abbrev Schema := List Field

/-- The errors of the modelled code, with their texts. -/
inductive DataFusionError where
  | plan (msg : String)
  | internal (msg : String)
  | schema (msg : String)
  | external (msg : String)
  deriving DecidableEq, Repr

/-- A fallible computation succeeds when both of its parts do. -/
theorem bind_eq_ok {α β ε : Type} {x : Except ε α} {f : α → Except ε β} {b : β} :
    (x >>= f) = .ok b ↔ ∃ a, x = .ok a ∧ f a = .ok b := by
  cases x with
  | error e => simp [bind, Except.bind]
  | ok a => simp [bind, Except.bind]

/-- What a plan is built from besides hash joins, Bloom filter operators and columns. -/
structure Sig where
  /-- Every other operator, with its own parameters. -/
  Op : Type
  /-- Every `PhysicalExpr` that is not a `Column`. -/
  Expr : Type
  /-- The non-null values of the Arrow types without a constructor of their own. -/
  Datum : Type
  /-- `Display` of the other expressions. -/
  display : Expr → String
  /-- `collect_columns` of the other expressions: names with indices. -/
  columns : Expr → List (String × Nat)
  /-- The output schema of an operator over its children's schemas. -/
  opSchema : Op → List Schema → Schema

/-! ## Values and batches -/

/-- One slot of an Arrow array. -/
inductive Value (S : Sig) where
  | null
  | int32 (v : Int32)
  | int64 (v : Int64)
  | utf8 (v : String)
  | boolean (v : Bool)
  | other (v : S.Datum)

abbrev Row (S : Sig) := List (Value S)

abbrev RecordBatch (S : Sig) := List (Row S)

/-- One item of a `SendableRecordBatchStream`. -/
abbrev Item (S : Sig) := Except DataFusionError (RecordBatch S)

variable {S : Sig}

/-- The value of a row in a column. -/
def Row.value (r : Row S) (k : Nat) : Value S := r.getD k .null

/-- `RecordBatch::column`. -/
def RecordBatch.column (b : RecordBatch S) (k : Nat) : List (Value S) := b.map (Row.value · k)

/-- `arrow::compute::filter_record_batch`: the rows whose mask bit is set, in order. -/
def filterRecordBatch (b : RecordBatch S) (mask : List Bool) : RecordBatch S :=
  (b.zip mask).filterMap fun rm => if rm.2 then some rm.1 else none

theorem filterRecordBatch_map (b : RecordBatch S) (p : Row S → Bool) :
    filterRecordBatch b (b.map p) = b.filter p := by
  induction b with
  | nil => rfl
  | cons r b ih =>
    simp only [filterRecordBatch, List.map_cons, List.zip_cons_cons, List.filterMap_cons,
      List.filter_cons] at ih ⊢
    cases hp : p r <;> simp [ih]

/-! ## Key expressions -/

/-- A `PhysicalExpr`: a column reference, or any other expression. -/
inductive PhysicalExpr (S : Sig) where
  | column (name : String) (index : Nat)
  | other (e : S.Expr)

/-- `format!("{}", expr)`; a column prints as `name@index`. -/
def PhysicalExpr.fmt : PhysicalExpr S → String
  | .column name index => name ++ "@" ++ toString index
  | .other e => S.display e

/-- `collect_columns`. -/
def PhysicalExpr.columns : PhysicalExpr S → List (String × Nat)
  | .column name index => [(name, index)]
  | .other e => S.columns e

/-- `str::contains`: the needle occurs as a contiguous run of characters. -/
def strContains (haystack needle : String) : Bool := decide (needle.toList <:+: haystack.toList)

theorem strContains_iff {haystack needle : String} :
    strContains haystack needle = true ↔ needle.toList <:+: haystack.toList := by
  simp [strContains]

/-- A column's own name occurs in its printed form. -/
theorem strContains_fmt_column (name : String) (index : Nat) :
    strContains (PhysicalExpr.column (S := S) name index).fmt name = true := by
  rw [strContains_iff, PhysicalExpr.fmt, String.toList_append, String.toList_append,
    List.append_assoc]
  exact (List.prefix_append _ _).isInfix

end PredicateTransfer
