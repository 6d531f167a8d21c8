import PredicateTransfer.Arrow

/-!
# Physical plans

`ExecutionPlan` is the tree the rule rewrites: hash joins, the two Bloom filter operators, and
every other operator. `schema` is `ExecutionPlan::schema`, `children` and `withNewChildren` are
the two methods the rewrites are written with.

The contract of `with_new_children` is that an operator comes back with its children replaced, in
order, or with an error. For `HashJoinExec` the errors are those of `HashJoinExecBuilder::build`;
whether an other operator refuses, and whether two plans share one `properties` pointer (in which
case the builder skips its checks), is left to a parameter (`Host`).
-/

namespace PredicateTransfer

/-! ## Hash joins -/

inductive JoinType where
  | inner
  | left
  | right
  | full
  | leftSemi
  | rightSemi
  | leftAnti
  | rightAnti
  | leftMark
  | rightMark
  deriving DecidableEq, Repr

/-- `Display for JoinType`. -/
def JoinType.fmt : JoinType → String
  | .inner => "Inner"
  | .left => "Left"
  | .right => "Right"
  | .full => "Full"
  | .leftSemi => "LeftSemi"
  | .rightSemi => "RightSemi"
  | .leftAnti => "LeftAnti"
  | .rightAnti => "RightAnti"
  | .leftMark => "LeftMark"
  | .rightMark => "RightMark"

inductive NullEquality where
  | nullEqualsNothing
  | nullEqualsNull
  deriving DecidableEq, Repr

inductive PartitionMode where
  | partitioned
  | collectLeft
  | auto
  deriving DecidableEq, Repr

inductive JoinSide where
  | left
  | right
  | none
  deriving DecidableEq, Repr

structure ColumnIndex where
  index : Nat
  side : JoinSide
  deriving DecidableEq, Repr

/-- A residual join filter: an expression over an intermediate row, and where each column of
that row comes from. -/
structure JoinFilter (S : Sig) where
  expression : PhysicalExpr S
  columnIndices : List ColumnIndex

/-- A `HashJoinExec` without its two children. -/
structure HashJoinExec (S : Sig) where
  on : List (PhysicalExpr S × PhysicalExpr S)
  filter : Option (JoinFilter S)
  joinType : JoinType
  mode : PartitionMode
  projection : Option (List Nat)
  nullEquality : NullEquality
  nullAware : Bool
  fetch : Option Nat

/-- Outer joins pad a side with nulls, so its fields become nullable. -/
def outputJoinField (f : Field) (joinType : JoinType) (isLeft : Bool) : Field :=
  let forceNullable := match joinType with
    | .left => !isLeft
    | .right => isLeft
    | .full => true
    | _ => false
  if forceNullable then { f with nullable := true } else f

/-- `build_join_schema`: the fields of a join's output before its embedded projection. -/
def buildJoinSchema (left right : Schema) (joinType : JoinType) : Schema :=
  let leftFields := left.map (outputJoinField · joinType true)
  let rightFields := right.map (outputJoinField · joinType false)
  match joinType with
  | .inner | .left | .full | .right => leftFields ++ rightFields
  | .leftSemi | .leftAnti => leftFields
  | .leftMark => leftFields ++ [⟨"mark", .boolean, false⟩]
  | .rightSemi | .rightAnti => rightFields
  | .rightMark => rightFields ++ [⟨"mark", .boolean, false⟩]

/-- The output schema of a hash join: the join schema, projected. -/
def HashJoinExec.outputSchema {S : Sig} (j : HashJoinExec S) (left right : Schema) : Schema :=
  let joinSchema := buildJoinSchema left right j.joinType
  match j.projection with
  | none => joinSchema
  | some indices => indices.filterMap (joinSchema[·]?)

/-! ## Plans -/

/-- A physical plan. `sender` is the identity of the broadcast channel a Bloom filter operator
holds. -/
inductive ExecutionPlan (S : Sig) where
  | hashJoin (exec : HashJoinExec S) (left right : ExecutionPlan S)
  | bloomBuild (keyColumnName : String) (sender : Nat) (input : ExecutionPlan S)
  | bloomProbe (keyColumnName : String) (sender : Nat) (input : ExecutionPlan S)
  | other (op : S.Op) (children : List (ExecutionPlan S))

variable {S : Sig}

namespace ExecutionPlan

/-- Induction on plans, with the hypothesis for every child of an other operator. -/
@[elab_as_elim, induction_eliminator]
theorem inductOn {motive : ExecutionPlan S → Prop}
    (hashJoin : ∀ j l r, motive l → motive r → motive (.hashJoin j l r))
    (bloomBuild : ∀ k c i, motive i → motive (.bloomBuild k c i))
    (bloomProbe : ∀ k c i, motive i → motive (.bloomProbe k c i))
    (other : ∀ op cs, (∀ c ∈ cs, motive c) → motive (.other op cs)) (p : ExecutionPlan S) :
    motive p :=
  @ExecutionPlan.rec S motive (fun cs => ∀ c ∈ cs, motive c)
    hashJoin bloomBuild bloomProbe other
    (fun _ h => absurd h List.not_mem_nil)
    (fun _ _ hc hcs _ h => (List.mem_cons.1 h).elim (fun e => e ▸ hc) (hcs _)) p

mutual

/-- `ExecutionPlan::schema`. The Bloom filter operators hand out their input's properties. -/
def schema : ExecutionPlan S → Schema
  | .hashJoin j l r => j.outputSchema l.schema r.schema
  | .bloomBuild _ _ i => i.schema
  | .bloomProbe _ _ i => i.schema
  | .other op cs => S.opSchema op (schemas cs)

def schemas : List (ExecutionPlan S) → List Schema
  | [] => []
  | c :: cs => c.schema :: schemas cs

end

end ExecutionPlan

/-- Plans whose only other operators are table scans, whose only expressions are columns and
whose only column types are those with a constructor of their own. -/
def scanSig : Sig where
  Op := String × Schema
  Expr := Empty
  Datum := Empty
  display := nofun
  columns := nofun
  opSchema op _ := op.2

/-! ## Replacing children -/

/-- What the rule calls but does not define: the other operators' own `with_new_children`
checks, pointer equality of `properties`, and `partition_statistics(None)` with its
`num_rows.get_value()`. -/
structure Host (S : Sig) where
  reject : S.Op → List (ExecutionPlan S) → Option DataFusionError
  sameProperties : ExecutionPlan S → ExecutionPlan S → Bool
  partitionStatistics : ExecutionPlan S → Except DataFusionError (Option Nat)

/-- A host whose operators accept all children and know no row counts. -/
def acceptAll : Host S := ⟨fun _ _ => none, fun _ _ => true, fun _ => .ok none⟩

/-- `check_join_is_valid` for one side: every column of the keys is a field of the schema, name
and index. -/
def keysInSchema (schema : Schema) (keys : List (PhysicalExpr S)) : Bool :=
  (keys.flatMap PhysicalExpr.columns).all fun c => (schema[c.2]?).map (·.name) == some c.1

/-- `can_project`. -/
def canProject (schema : Schema) (projection : Option (List Nat)) : Except DataFusionError Unit :=
  match projection.bind List.max? with
  | some i =>
    if schema.length ≤ i then
      .error (.schema s!"project index {i} out of bounds, max field {schema.length}")
    else .ok ()
  | none => .ok ()

/-- `HashJoinExecBuilder::build`, after the children were replaced. -/
def HashJoinExec.build (j : HashJoinExec S) (preserveProperties : Bool)
    (left right : ExecutionPlan S) : Except DataFusionError (ExecutionPlan S) :=
  if j.nullAware && j.joinType != .leftAnti then
    .error (.plan s!"null_aware can only be true for LeftAnti joins, got {j.joinType.fmt}")
  else if j.nullAware && j.on.length != 1 then
    .error (.plan s!"null_aware anti join only supports single column join key, got {j.on.length} columns")
  else if preserveProperties then .ok (.hashJoin j left right)
  else if j.on.isEmpty then
    .error (.plan "On constraints in HashJoinExec should be non-empty")
  else if !(keysInSchema left.schema (j.on.map (·.1)) &&
      keysInSchema right.schema (j.on.map (·.2))) then
    .error (.plan "The left or right side of the join does not have all columns on \"on\"")
  else do
    canProject (buildJoinSchema left.schema right.schema j.joinType) j.projection
    return .hashJoin j left right

/-- `ExecutionPlan::with_new_children`. -/
def withNewChildren (H : Host S) :
    ExecutionPlan S → List (ExecutionPlan S) → Except DataFusionError (ExecutionPlan S)
  | .hashJoin j l r, [left, right] =>
    j.build (H.sameProperties l left && H.sameProperties r right) left right
  | .hashJoin _ _ _, _ =>
    .error (.internal "Assertion failed: children.len() == 2: wrong number of children passed into `HashJoinExecBuilder`")
  | .bloomBuild k c _, i :: _ => .ok (.bloomBuild k c i)
  | .bloomProbe k c _, i :: _ => .ok (.bloomProbe k c i)
  | .bloomBuild _ _ _, [] | .bloomProbe _ _ _, [] =>
    .error (.internal "index out of bounds: the len is 0 but the index is 0")
  | .other op _, cs =>
    match H.reject op cs with
    | some e => .error e
    | none => .ok (.other op cs)

theorem HashJoinExec.build_ok {j : HashJoinExec S} {pp : Bool} {l r q : ExecutionPlan S}
    (h : j.build pp l r = .ok q) : q = .hashJoin j l r := by
  unfold HashJoinExec.build at h
  split_ifs at h
  · exact (Except.ok.inj h).symm
  · cases hc : canProject (buildJoinSchema l.schema r.schema j.joinType) j.projection with
    | error e => simp [hc, bind, Except.bind] at h
    | ok u =>
      simp only [hc, bind, Except.bind, pure, Except.pure] at h
      exact (Except.ok.inj h).symm

/-- A rebuilt hash join is the same join over the new children. -/
theorem withNewChildren_hashJoin {H : Host S} {j : HashJoinExec S} {l r l' r' q : ExecutionPlan S}
    (h : withNewChildren H (.hashJoin j l r) [l', r'] = .ok q) : q = .hashJoin j l' r' :=
  HashJoinExec.build_ok h

theorem withNewChildren_other {H : Host S} {op : S.Op} {cs cs' : List (ExecutionPlan S)}
    {q : ExecutionPlan S} (h : withNewChildren H (.other op cs) cs' = .ok q) :
    q = .other op cs' := by
  simp only [withNewChildren] at h
  split at h
  · cases h
  · exact (Except.ok.inj h).symm

end PredicateTransfer
