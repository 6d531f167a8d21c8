import PredicateTransfer.Pruning.Prune
import PredicateTransfer.Pruning.StatisticsTable

/-!
# Pruning by statistics keeps every container with a matching row

The rewritten filter is false on a container's statistics only if no row of the container passes
the filter. This holds for every filter whose casts, minuses and LIKEs are not applied to a column
(those have modules of their own). What the rewriting does not understand it answers with `true`, so
only the shapes it does understand need an argument.

The table of statistics columns grows while the filter is rewritten, so that the rewritten filter is
not false is stated for all extensions of the table at hand (`Keeps`).

With the guarantees of a filter, which are necessary too, the whole of `prune` keeps every container
with a matching row (`PruningPredicate.prune_keeps`).
-/

namespace PredicateTransfer.Pruning

variable {D F : Type} [LinearOrder D]

variable {K : Kernels D F} {schema : Schema} {rows : List (List (Scalar D))}
  {row : List (Scalar D)} {stat : StatisticsType → String → Scalar D}

/-! ### Which comparisons are rewritten -/

section Sides

omit [LinearOrder D]

theorem fromExpression_eq_one {e : Expr D F} {c : Column}
    (h : ColumnReferenceCount.fromExpression e = .one c) :
    c ∈ e.columns ∧ ∀ c' ∈ e.columns, c' = c := by
  unfold ColumnReferenceCount.fromExpression at h
  split at h
  · cases h
  · next c' hdedup =>
    cases h
    refine ⟨List.mem_dedup.mp (by rw [hdedup]; exact List.mem_cons_self), fun c' hc' => ?_⟩
    have hmem := List.mem_dedup.mpr hc'
    rw [hdedup] at hmem
    exact List.mem_singleton.mp hmem
  · cases h

theorem fromExpression_eq_zero {e : Expr D F}
    (h : ColumnReferenceCount.fromExpression e = .zero) : e.columns = [] := by
  unfold ColumnReferenceCount.fromExpression at h
  split at h
  · next hdedup => exact (List.dedup_eq_nil _).mp hdedup
  · cases h
  · cases h

/-- One side has one column, the other none; if they are exchanged, the operator is swapped. -/
theorem sides_spec {l r ce se : Expr D F} {op op' : Operator} {c : Column}
    (h : PruningExpressionBuilder.sides l op r = some (ce, se, c, op')) :
    (c ∈ ce.columns ∧ ∀ c' ∈ ce.columns, c' = c) ∧ se.columns = [] ∧
      (ce = l ∧ se = r ∧ op' = op ∨ ce = r ∧ se = l ∧ op.swap = some op') := by
  unfold PruningExpressionBuilder.sides at h
  split at h
  · next hl hr =>
    cases h
    exact ⟨fromExpression_eq_one hl, fromExpression_eq_zero hr, Or.inl ⟨rfl, rfl, rfl⟩⟩
  · next hl hr =>
    obtain ⟨o, ho, h⟩ := Option.map_eq_some_iff.mp h
    cases h
    exact ⟨fromExpression_eq_one hr, fromExpression_eq_zero hl, Or.inr ⟨rfl, rfl, ho⟩⟩
  · cases h

theorem throughCast_eq_some {e l r : Expr D F} {castType : DataType}
    {wrap : Expr D F → Expr D F} {rewritten : Option (Expr D F × Operator × Expr D F)}
    {o : Operator} (h : throughCast schema e castType wrap rewritten = some (l, o, r)) :
    ∃ l', rewritten = some (l', o, r) ∧ l = wrap l' := by
  obtain ⟨_, _, h⟩ := Option.bind_eq_some_iff.mp h
  obtain ⟨_, _, h⟩ := Option.bind_eq_some_iff.mp h
  obtain ⟨⟨l', o', r'⟩, hrewritten, h⟩ := Option.bind_eq_some_iff.mp h
  cases h
  exact ⟨l', hrewritten, rfl⟩

theorem negative_eq_some {rewritten : Option (Expr D F × Operator × Expr D F)} {l r : Expr D F}
    {o : Operator}
    (h : (do
      let (left, op, right) ← rewritten
      let op ← op.swap
      some (left, op, Expr.negative right)) = some (l, o, r)) :
    ∃ o' r', rewritten = some (l, o', r') ∧ o'.swap = some o ∧ r = .negative r' := by
  obtain ⟨⟨l', o', r'⟩, hrewritten, h⟩ := Option.bind_eq_some_iff.mp h
  obtain ⟨o'', hswap, h⟩ := Option.bind_eq_some_iff.mp h
  cases h
  exact ⟨o', r', hrewritten, hswap, rfl⟩

theorem rewriteExprToPrunable_not {arg s e' s' : Expr D F} {op op' : Operator}
    (h : rewriteExprToPrunable schema (.not arg) op s = some (e', op', s')) :
    ∃ c, arg = .column c ∧ (op = .eq ∨ op = .notEq) ∧ e' = .column c ∧ op' = op ∧ s' = .not s := by
  cases arg with
  | column c =>
    by_cases hop : op = .eq ∨ op = .notEq
    · rw [rewriteExprToPrunable, if_pos hop] at h
      obtain ⟨o, ho, h⟩ := Option.map_eq_some_iff.mp h
      have hsame : op' = op := by
        cases h
        rcases hop with rfl | rfl <;> cases ho <;> rfl
      cases h
      exact ⟨c, rfl, hop, rfl, hsame, rfl⟩
    · rw [rewriteExprToPrunable, if_neg hop] at h
      cases h
  | _ =>
    simp only [rewriteExprToPrunable, ite_self, reduceCtorEq] at h

/-- The column at the bottom of casts, minuses and `NOT`s. -/
def Expr.chainColumn : Expr D F → Option Column
  | .column c => some c
  | .not e | .negative e | .cast _ e _ | .castColumn _ e _ | .tryCast e _ => e.chainColumn
  | _ => none

/-- Only chains over a column are rewritten, and the rewriting refers to the same columns. -/
theorem rewriteExprToPrunable_spec {e s e' s' : Expr D F} {op op' : Operator}
    (h : rewriteExprToPrunable schema e op s = some (e', op', s')) :
    (∃ c, e.chainColumn = some c) ∧ e'.columns = e.columns ∧ s'.columns = s.columns := by
  induction e generalizing op e' op' s' with
  | column c =>
    rw [rewriteExprToPrunable] at h
    split at h
    · cases h
      exact ⟨⟨c, rfl⟩, rfl, rfl⟩
    · cases h
  | cast safe e t ih | castColumn safe e t ih | tryCast e t ih =>
    rw [rewriteExprToPrunable] at h
    split at h
    · obtain ⟨l', hl', rfl⟩ := throughCast_eq_some h
      obtain ⟨hchain, hleft, hright⟩ := ih hl'
      exact ⟨hchain, hleft, hright⟩
    · cases h
  | negative arg ih =>
    rw [rewriteExprToPrunable] at h
    split at h
    · obtain ⟨o', r', hrec, _, rfl⟩ := negative_eq_some h
      obtain ⟨hchain, hleft, hright⟩ := ih hrec
      exact ⟨hchain, hleft, hright⟩
    · cases h
  | not arg _ =>
    obtain ⟨c, rfl, _, rfl, _, rfl⟩ := rewriteExprToPrunable_not h
    exact ⟨⟨c, rfl⟩, rfl, rfl⟩
  | _ => cases h

theorem isCompareOp_of_rewrite {e s : Expr D F} {op : Operator}
    {rewritten : Expr D F × Operator × Expr D F}
    (h : rewriteExprToPrunable schema e op s = some rewritten) : isCompareOp op = true := by
  cases e with
  | not arg =>
    obtain ⟨c, _, hop, _⟩ := rewriteExprToPrunable_not h
    rcases hop with rfl | rfl <;> rfl
  | column c | cast safe e t | castColumn safe e t | tryCast e t | negative e =>
    rw [rewriteExprToPrunable] at h
    by_contra hop
    rw [if_neg hop] at h
    cases h
  | _ => cases h

theorem tryNew_spec {l r : Expr D F} {op : Operator} {b : PruningExpressionBuilder D F}
    (h : PruningExpressionBuilder.tryNew schema l op r = some b) :
    ∃ ce se op', PruningExpressionBuilder.sides l op r = some (ce, se, b.column, op') ∧
      rewriteExprToPrunable schema ce op' se = some (b.columnExpr, b.op, b.scalarExpr) ∧
      ∃ i, schema.columnWithName b.column.name = some (i, b.field) := by
  obtain ⟨⟨ce, se, c, op'⟩, hsides, h⟩ := Option.bind_eq_some_iff.mp h
  obtain ⟨⟨e', o, s'⟩, hrewrite, h⟩ := Option.bind_eq_some_iff.mp h
  obtain ⟨⟨i, f⟩, hfield, h⟩ := Option.bind_eq_some_iff.mp h
  cases h
  exact ⟨ce, se, op', hsides, hrewrite, i, hfield⟩

/-- Nothing but a comparison is rewritten, apart from a LIKE of a column. -/
theorem tryNew_eq_none {l r : Expr D F} {op : Operator} (hop : op.isComparison = false)
    (hlike : op = .likeMatch ∨ op = .notLikeMatch → l.chainColumn = none) :
    PruningExpressionBuilder.tryNew schema l op r = none := by
  by_contra hsome
  obtain ⟨b, hb⟩ := Option.ne_none_iff_exists'.mp hsome
  obtain ⟨ce, se, op', hsides, hrewrite, _⟩ := tryNew_spec hb
  have hcompare := isCompareOp_of_rewrite hrewrite
  obtain ⟨⟨c, hc⟩, _⟩ := rewriteExprToPrunable_spec hrewrite
  rcases (sides_spec hsides).2.2 with ⟨rfl, rfl, rfl⟩ | ⟨rfl, rfl, hswap⟩
  · have hop' : op' = .likeMatch ∨ op' = .notLikeMatch := by
      cases op' <;> simp [isCompareOp, Operator.isComparison] at hcompare hop ⊢
    rw [hlike hop'] at hc
    cases hc
  · cases op <;> simp [Operator.swap, Operator.isComparison] at hswap hop
    all_goals
      subst hswap
      cases hcompare

end Sides

/-! ### Filters without casts, minuses and LIKEs of a column -/

mutual

/-- No cast, minus or LIKE is applied to a column, be it under further casts, minuses or `NOT`s. -/
def Expr.plain : Expr D F → Bool
  | .column _ | .literal _ => true
  | .isNull e | .isNotNull e | .not e => e.plain
  | .negative e | .cast _ e _ | .castColumn _ e _ | .tryCast e _ =>
    e.chainColumn.isNone && e.plain
  | .binary l op r =>
    !((op = .likeMatch || op = .notLikeMatch) && l.chainColumn.isSome) && l.plain && r.plain
  | .like _ caseInsensitive e p =>
    (caseInsensitive || e.chainColumn.isNone) && e.plain && p.plain
  | .inList e list _ => e.plain && Expr.plainAll list
  | .other _ args => Expr.plainAll args

def Expr.plainAll : List (Expr D F) → Bool
  | [] => true
  | e :: es => e.plain && Expr.plainAll es

end

omit [LinearOrder D] in
/-- In a plain comparison the column side is a column or the negation of one. -/
theorem rewriteExprToPrunable_plain {e s e' s' : Expr D F} {op op' : Operator}
    (hplain : e.plain = true) (h : rewriteExprToPrunable schema e op s = some (e', op', s')) :
    ∃ c, e' = .column c ∧ op' = op ∧
      (e = .column c ∧ s' = s ∨ e = .not (.column c) ∧ (op = .eq ∨ op = .notEq) ∧ s' = .not s) := by
  cases e with
  | column c =>
    rw [rewriteExprToPrunable] at h
    split at h
    · cases h
      exact ⟨c, rfl, rfl, Or.inl ⟨rfl, rfl⟩⟩
    · cases h
  | not arg =>
    obtain ⟨c, rfl, hop, rfl, rfl, rfl⟩ := rewriteExprToPrunable_not h
    exact ⟨c, rfl, rfl, Or.inr ⟨rfl, hop, rfl⟩⟩
  | cast safe e t | castColumn safe e t | tryCast e t | negative e =>
    -- a chain under a cast or minus is what a plain expression does not have
    obtain ⟨c, hc⟩ := (rewriteExprToPrunable_spec h).1
    rw [Expr.chainColumn] at hc
    rw [Expr.plain, hc] at hplain
    cases hplain
  | _ => cases h

/-! ### Matching rows -/

section Matching

variable {b : PruningExpressionBuilder D F} {required required' : RequiredColumns}

/-- A comparison that is true on a row, seen from the column's side. -/
theorem rel_of_eval_eq_true {l r ce se : Expr D F} {op op' : Operator} {c : Column}
    (hop : op.isComparison = true)
    (hsides : PruningExpressionBuilder.sides l op r = some (ce, se, c, op'))
    (h : (Expr.binary l op r).eval K row = some (.boolean true)) :
    op'.isComparison = true ∧
      ∃ u t, ce.eval K row = some u ∧ se.eval K [] = some t ∧ op'.Rel u t := by
  obtain ⟨_, hscalar, hcases⟩ := sides_spec hsides
  obtain ⟨x, y, hx, hy, hxy⟩ := eval_comparison_eq_boolean hop h
  have hrel := compareValues_eq_true.mp hxy
  have hs : se.eval K [] = se.eval K row := Expr.eval_of_columns_eq_nil hscalar _ _
  rcases hcases with ⟨rfl, rfl, rfl⟩ | ⟨rfl, rfl, hswap⟩
  · exact ⟨hop, x, y, hx, hs.trans hy, hrel⟩
  · refine ⟨?_, y, x, hy, hs.trans hx, (Operator.rel_swap hswap).mp hrel⟩
    cases op <;> first | (cases hswap; rfl) | cases hop

/-- The null count differs from the row count where a row has a value. -/
theorem nullCheck_ne_false {c name : String} {i : Nat} {f : Field} {v : Scalar D}
    (hstat : Consistent schema rows stat) (hfield : schema.columnWithName c = some (i, f))
    (hrow : row ∈ rows) (hv : row[i]? = some v) (hnull : v ≠ .null) :
    compareValues .notEq (stat .nullCount c) (stat .rowCount name) ≠ some (.boolean false) := by
  intro hfalse
  obtain ⟨heq, hne⟩ := compareValues_eq_false.mp hfalse
  have hnulls := hstat.nullCount c i f hfield hne
  have hrows := hstat.rowCount name (heq ▸ hne)
  rw [hnulls, hrows] at heq
  -- counts that agree make every row `NULL`
  have hall := List.countP_eq_length.mp (Scalar.uint64.inj heq)
  have hvnull := of_decide_eq_true (hall row hrow)
  rw [hv] at hvnull
  exact hnull (Option.some.inj hvnull)

/-- A comparison is rewritten to one that is not false if the bounds do not exclude the scalar and
some row has a value in the column. -/
theorem buildStatisticsExpr_ne_false (required : RequiredColumns)
    (hop : b.op.isComparison = true)
    (hcols : ∀ c ∈ b.columnExpr.columns, c = b.column) (hscalar : b.scalarExpr.columns = [])
    (hstat : Consistent schema rows stat) {i : Nat} {f : Field}
    (hfield : schema.columnWithName b.column.name = some (i, f)) (hrow : row ∈ rows)
    {v : Scalar D} (hv : row[i]? = some v) (hnull : v ≠ .null)
    (hbounds : ∀ t, b.scalarExpr.eval K [] = some t →
      ¬ BoundsExclude b.op (b.lowEnd K stat) (b.highEnd K stat) t) :
    ∃ e, (buildStatisticsExpr b required).2 = some e ∧
      ∀ required', (buildStatisticsExpr b required).1 <+: required' →
        e.eval K (statisticsRow stat required') ≠ some (.boolean false) := by
  obtain ⟨e, he, heval⟩ := buildStatisticsExpr_spec K stat required hop hcols hscalar
  refine ⟨e, he, fun required' h hfalse => ?_⟩
  obtain ⟨name, hname⟩ := heval required' h
  rw [hname] at hfalse
  rcases andValues_eq_false hfalse with hcheck | hexclude
  · exact nullCheck_ne_false hstat hfield hrow hv hnull hcheck
  · obtain ⟨t, ht, hexclude⟩ := boundsValue_eq_false hexclude
    exact hbounds t ht hexclude

/-- Ends that do not lie beyond a value do not exclude what it compares to. -/
theorem not_boundsExclude {op : Operator} {lo hi : Option (Scalar D)} {v t : Scalar D}
    (hlo : ∀ w, lo = some w → ¬ v < w) (hhi : ∀ w, hi = some w → ¬ w < v) (h : op.Rel v t) :
    ¬ BoundsExclude op lo hi t := by
  intro hexclude
  cases op <;> simp only [BoundsExclude] at hexclude <;> simp only [Operator.Rel] at h
  case eq =>
    obtain ⟨rfl, _⟩ := h
    rcases hexclude with ⟨w, hw, hlt⟩ | ⟨w, hw, hlt⟩
    · exact hlo w hw hlt
    · exact hhi w hw hlt
  case notEq =>
    obtain ⟨hl, hh, _⟩ := hexclude
    rcases h with h | h
    · exact hlo t hl h
    · exact hhi t hh h
  case lt =>
    obtain ⟨w, hw, hle, _⟩ := hexclude
    exact hlo w hw (h.trans_le hle)
  case ltEq =>
    obtain ⟨w, hw, hlt⟩ := hexclude
    exact hlo w hw (h.1.trans_lt hlt)
  case gt =>
    obtain ⟨w, hw, hle, _⟩ := hexclude
    exact hhi w hw (hle.trans_lt h)
  case gtEq =>
    obtain ⟨w, hw, hlt⟩ := hexclude
    exact hhi w hw (hlt.trans_le h.1)

/-- The rewritten filter is not false on the statistics, whatever the table grows to. -/
def Keeps (K : Kernels D F) (stat : StatisticsType → String → Scalar D)
    (built : RequiredColumns × Expr D F) : Prop :=
  ∀ required', built.1 <+: required' →
    built.2.eval K (statisticsRow stat required') ≠ some (.boolean false)

theorem keeps_unhandled (required : RequiredColumns) : Keeps K stat (required, unhandled) := by
  intro required' _ hfalse
  cases hfalse

/-- Every column of the expression that the schema knows is where the schema has it. -/
def Expr.Placed (schema : Schema) (e : Expr D F) : Prop :=
  ∀ c ∈ e.columns, ∀ i f, schema.columnWithName c.name = some (i, f) → c.index = i

omit [LinearOrder D] in
theorem buildComparison_eq {l r : Expr D F} {op : Operator} {e : Expr D F}
    (hb : PruningExpressionBuilder.tryNew schema l op r = some b)
    (he : (buildStatisticsExpr b required).2 = some e) :
    buildComparison schema l op r required = ((buildStatisticsExpr b required).1, e) := by
  cases hbuilt : buildStatisticsExpr b required with
  | mk required₁ built =>
    rw [hbuilt] at he
    subst he
    simp [buildComparison, hb, hbuilt]

/-- `NOT` may be moved to the other side of an equation. -/
theorem rel_of_not {op : Operator} (hop : op = .eq ∨ op = .notEq) {u v t : Scalar D}
    (hu : v.not = some u) (h : op.Rel u t) : ∃ t', t.not = some t' ∧ op.Rel v t' := by
  obtain ⟨t', ht'⟩ : ∃ t', t.not = some t' := by
    have hcompare := compareValues_eq_true.mpr h
    cases t with
    | null | boolean => exact ⟨_, rfl⟩
    | _ => cases v <;> cases hu <;> cases hcompare
  exact ⟨t', ht', Operator.rel_not hop (Scalar.not_not hu) ht' h⟩

/-- If a plain comparison is true on a row, so is the rewritten one, which is about the bare
column. -/
theorem rel_of_plain {ce se e' s' : Expr D F} {op op' : Operator} {u t : Scalar D}
    (hplain : ce.plain = true) (h : rewriteExprToPrunable schema ce op se = some (e', op', s'))
    (hu : ce.eval K row = some u) (ht : se.eval K [] = some t) (hrel : op.Rel u t) :
    ∃ c v t', e' = .column c ∧ row[c.index]? = some v ∧ s'.eval K [] = some t' ∧ op' = op ∧
      op.Rel v t' := by
  obtain ⟨c, rfl, rfl, ⟨rfl, rfl⟩ | ⟨rfl, hop, rfl⟩⟩ := rewriteExprToPrunable_plain hplain h
  · exact ⟨c, u, t, rfl, hu, ht, rfl, hrel⟩
  · obtain ⟨v, hv, hnot⟩ := Option.bind_eq_some_iff.mp hu
    obtain ⟨t', ht', hrel'⟩ := rel_of_not hop hnot hrel
    exact ⟨c, v, t', rfl, hv, Option.bind_eq_some_iff.mpr ⟨t, ht, ht'⟩, rfl, hrel'⟩

/-- A plain comparison that is true on a row of the container is not rewritten to one that is false
on its statistics. -/
theorem buildComparison_keeps {l r : Expr D F} {op : Operator} (hl : l.plain = true)
    (hr : r.plain = true) (hop : op.isComparison = true)
    (hplaced : (Expr.binary l op r).Placed schema) (hstat : Consistent schema rows stat)
    (hrow : row ∈ rows) (h : (Expr.binary l op r).eval K row = some (.boolean true))
    (required : RequiredColumns) : Keeps K stat (buildComparison schema l op r required) := by
  cases hb : PruningExpressionBuilder.tryNew schema l op r with
  | none =>
    rw [buildComparison, hb]
    exact keeps_unhandled required
  | some b =>
    obtain ⟨ce, se, op', hsides, hrewrite, i, hfield⟩ := tryNew_spec hb
    obtain ⟨⟨hmem, hone⟩, hscalar, hcases⟩ := sides_spec hsides
    obtain ⟨hop', u, t, hu, ht, hrel⟩ := rel_of_eval_eq_true hop hsides h
    obtain ⟨_, hcolumns, hscolumns⟩ := rewriteExprToPrunable_spec hrewrite
    have hplain : ce.plain = true := by
      rcases hcases with ⟨rfl, _⟩ | ⟨rfl, _⟩
      · exact hl
      · exact hr
    have hindex : b.column.index = i := by
      refine hplaced b.column ?_ i b.field hfield
      rcases hcases with ⟨rfl, _⟩ | ⟨rfl, _⟩
      · exact List.mem_append_left _ hmem
      · exact List.mem_append_right _ hmem
    obtain ⟨c, v, t', hcolumn, hv, ht', hopeq, hrel'⟩ := rel_of_plain hplain hrewrite hu ht hrel
    have hone' : ∀ c' ∈ b.columnExpr.columns, c' = b.column := hcolumns ▸ hone
    obtain rfl : c = b.column := hone' c (by rw [hcolumn]; exact List.mem_cons_self)
    rw [hindex] at hv
    have hbounds : ∀ t'', b.scalarExpr.eval K [] = some t'' →
        ¬ BoundsExclude b.op (b.lowEnd K stat) (b.highEnd K stat) t'' := by
      intro t'' ht''
      obtain rfl : t' = t'' := Option.some.inj (ht'.symm.trans ht'')
      have hvnull := (Operator.rel_ne_null hrel').1
      rw [PruningExpressionBuilder.lowEnd, PruningExpressionBuilder.highEnd, hcolumn, hopeq,
        Expr.valueAt_column, Expr.valueAt_column]
      refine not_boundsExclude (fun w hw hlt => ?_) (fun w hw hlt => ?_) hrel'
      · cases hw
        have hne := (Scalar.ne_null_of_lt hlt).2
        exact (hstat.min_le _ i _ hfield hne row hrow v hv hvnull).not_gt hlt
      · cases hw
        have hne := (Scalar.ne_null_of_lt hlt).1
        exact (hstat.le_max _ i _ hfield hne row hrow v hv hvnull).not_gt hlt
    obtain ⟨e, he, hkeeps⟩ := buildStatisticsExpr_ne_false required (hopeq ▸ hop') hone'
      (hscolumns.trans hscalar) hstat hfield hrow hv (Operator.rel_ne_null hrel').1 hbounds
    rw [buildComparison_eq hb he]
    exact hkeeps

/-! ### AND, OR and IN lists -/

theorem isAlwaysFalse_eq_true {e : Expr D F} (h : isAlwaysFalse e = true) :
    e.eval K row = some (.boolean false) := by
  unfold isAlwaysFalse at h
  split at h
  · rfl
  · cases h

theorem combine_and_eq_false {l r : Expr D F}
    (h : (combine l .and r).eval K row = some (.boolean false)) :
    l.eval K row = some (.boolean false) ∨ r.eval K row = some (.boolean false) := by
  unfold combine at h
  rw [if_pos rfl] at h
  split_ifs at h with hfalse
  · rcases Bool.or_eq_true_iff.mp hfalse with hl | hr
    · exact Or.inl (isAlwaysFalse_eq_true hl)
    · exact Or.inr (isAlwaysFalse_eq_true hr)
  · exact Or.inr h
  · exact Or.inl h
  · rw [Expr.eval, if_pos rfl] at h
    exact andValues_eq_false h

theorem combine_or_eq_false {l r : Expr D F}
    (h : (combine l .or r).eval K row = some (.boolean false)) :
    l.eval K row = some (.boolean false) ∧ r.eval K row = some (.boolean false) := by
  unfold combine at h
  rw [if_neg (by decide)] at h
  split_ifs at h with htrue hl hr
  · cases h
  · exact ⟨isAlwaysFalse_eq_true hl, h⟩
  · exact ⟨h, isAlwaysFalse_eq_true hr⟩
  · rw [Expr.eval, if_neg (by decide), if_pos rfl] at h
    exact orValues_eq_false.mp h

section Combine

variable {l r : Expr D F} (hgrows : required <+: required')

include hgrows

theorem Keeps.and (hl : Keeps K stat (required, l)) (hr : Keeps K stat (required', r)) :
    Keeps K stat (required', combine l .and r) := by
  intro required'' h hfalse
  rcases combine_and_eq_false hfalse with hfalse | hfalse
  · exact hl _ (hgrows.trans h) hfalse
  · exact hr _ h hfalse

theorem Keeps.or (h : Keeps K stat (required, l) ∨ Keeps K stat (required', r)) :
    Keeps K stat (required', combine l .or r) := by
  intro required'' hp hfalse
  obtain ⟨hl, hr⟩ := combine_or_eq_false hfalse
  rcases h with h | h
  · exact h _ (hgrows.trans hp) hl
  · exact h _ hp hr

end Combine

/-- `IN` keeps a container if one of its comparisons does. -/
theorem buildInList_or_keeps {e x : Expr D F} {list : List (Expr D F)} (hx : x ∈ list)
    (h : ∀ required, Keeps K stat (buildComparison schema e .eq x required)) :
    Keeps K stat (buildInList schema e .eq .or list required) := by
  induction list using List.reverseRecOn with
  | nil => cases hx
  | append_singleton xs y ih =>
    by_cases hxs : xs = []
    · subst hxs
      obtain rfl : x = y := List.mem_singleton.mp hx
      exact h required
    · rw [buildInList_concat hxs]
      refine Keeps.or (buildComparison_grows ..) ?_
      rcases List.mem_append.mp hx with hx | hx
      · exact Or.inl (ih hx)
      · obtain rfl : x = y := List.mem_singleton.mp hx
        exact Or.inr (h _)

/-- `NOT IN` keeps a container if all of its comparisons do. -/
theorem buildInList_and_keeps {e : Expr D F} {list : List (Expr D F)}
    (h : ∀ x ∈ list, ∀ required, Keeps K stat (buildComparison schema e .notEq x required)) :
    Keeps K stat (buildInList schema e .notEq .and list required) := by
  induction list using List.reverseRecOn with
  | nil => exact keeps_unhandled required
  | append_singleton xs y ih =>
    have hy := h y (List.mem_append_right _ List.mem_cons_self)
    by_cases hxs : xs = []
    · subst hxs
      exact hy required
    · rw [buildInList_concat hxs]
      exact Keeps.and (buildComparison_grows ..)
        (ih fun x hx => h x (List.mem_append_left _ hx)) (hy _)

/-! ### Boolean columns and null checks -/

section Columns

variable {c : Column} (hplaced : (Expr.column c : Expr D F).Placed schema)
  (hstat : Consistent schema rows stat) (hrow : row ∈ rows)

include hplaced hstat hrow

/-- A boolean column that is true on a row has a maximum that is not false. -/
theorem column_keeps (hv : row[c.index]? = some (.boolean true)) (required : RequiredColumns) :
    Keeps K stat (buildPredicateExpression schema (.column c) required) := by
  rw [buildPredicateExpression, buildSingleColumnExpr]
  cases hfield : schema.columnWithName c.name with
  | none => exact keeps_unhandled required
  | some found =>
    obtain ⟨i, field⟩ := found
    rw [hplaced c List.mem_cons_self i field hfield] at hv
    by_cases hbool : field.dataType = .boolean
    · simp only [if_pos hbool]
      intro required' h hfalse
      obtain ⟨hmin, hmax⟩ := eval_minMaxColumn K stat c field h
      have hor : orValues (some (stat .min c.name)) (some (stat .max c.name)) =
          some (.boolean false) := by
        rw [← hmin, ← hmax]
        exact hfalse
      have hmaxfalse := Option.some.inj (orValues_eq_false.mp hor).2
      have hle := hstat.le_max c.name i field hfield (by simp [hmaxfalse]) row hrow _ hv (by simp)
      rw [hmaxfalse] at hle
      exact hle.not_gt (Scalar.boolean_lt.mpr rfl)
    · simp only [if_neg hbool]
      exact keeps_unhandled required

/-- One that is false on a row has a minimum that is not true. -/
theorem not_column_keeps (hv : row[c.index]? = some (.boolean false))
    (required : RequiredColumns) :
    Keeps K stat (buildPredicateExpression schema (.not (.column c)) required) := by
  rw [buildPredicateExpression, buildSingleColumnExpr]
  cases hfield : schema.columnWithName c.name with
  | none => exact keeps_unhandled required
  | some found =>
    obtain ⟨i, field⟩ := found
    rw [hplaced c List.mem_cons_self i field hfield] at hv
    by_cases hbool : field.dataType = .boolean
    · simp only [if_pos hbool]
      intro required' h hfalse
      obtain ⟨hmin, hmax⟩ := eval_minMaxColumn K stat c field h
      have hnot : (andValues (some (stat .min c.name)) (some (stat .max c.name))).bind
          Scalar.not = some (.boolean false) := by
        rw [← hmin, ← hmax]
        exact hfalse
      obtain ⟨_, hand, hnot⟩ := Option.bind_eq_some_iff.mp hnot
      rw [Scalar.not_eq_boolean.mp hnot] at hand
      have hmintrue := Option.some.inj (andValues_eq_true.mp hand).1
      have hle := hstat.min_le c.name i field hfield (by simp [hmintrue]) row hrow _ hv (by simp)
      rw [hmintrue] at hle
      exact hle.not_gt (Scalar.boolean_lt.mpr rfl)
    · simp only [if_neg hbool]
      exact keeps_unhandled required

theorem isNull_keeps (hv : row[c.index]? = some .null) (required : RequiredColumns) :
    Keeps K stat (buildPredicateExpression schema (.isNull (.column c)) required) := by
  cases hfield : schema.columnWithName c.name with
  | none => simp [buildPredicateExpression, buildIsNullColumnExpr, hfield, keeps_unhandled]
  | some found =>
    obtain ⟨i, field⟩ := found
    rw [hplaced c List.mem_cons_self i field hfield] at hv
    simp only [buildPredicateExpression, buildIsNullColumnExpr, hfield, Bool.false_eq_true,
      if_false]
    intro required' h hfalse
    have hcount := eval_statColumn K stat (by decide) h
    have hfalse : compareResults .gt (some (stat .nullCount c.name)) (some (.uint64 0)) =
        some (.boolean false) := by
      rw [← hcount]
      exact (eval_comparison rfl ..).symm.trans hfalse
    obtain ⟨hle, hne⟩ := compareValues_eq_false.mp hfalse
    rw [hstat.nullCount c.name i field hfield hne] at hle
    refine hle.not_gt (Scalar.uint64_lt.mpr (List.countP_pos_iff.mpr ⟨row, hrow, ?_⟩))
    exact decide_eq_true hv

theorem isNotNull_keeps {v : Scalar D} (hv : row[c.index]? = some v) (hne : v ≠ .null)
    (required : RequiredColumns) :
    Keeps K stat (buildPredicateExpression schema (.isNotNull (.column c)) required) := by
  cases hfield : schema.columnWithName c.name with
  | none => simp [buildPredicateExpression, buildIsNullColumnExpr, hfield, keeps_unhandled]
  | some found =>
    obtain ⟨i, field⟩ := found
    rw [hplaced c List.mem_cons_self i field hfield] at hv
    simp only [buildPredicateExpression, buildIsNullColumnExpr, hfield, if_true]
    intro required' h hfalse
    -- the row count was asked for first, so its table is the smaller one
    obtain ⟨name, hrows⟩ := eval_rowCountExpr K stat ((statColumnExpr_spec ..).1.trans h)
    have hcount := eval_statColumn K stat (by decide) h
    have hcheck : compareResults .notEq (some (stat .nullCount c.name))
        (some (stat .rowCount name)) = some (.boolean false) := by
      rw [← hcount, ← hrows]
      exact (eval_comparison rfl ..).symm.trans hfalse
    exact nullCheck_ne_false hstat hfield hrow hv hne hcheck

end Columns

/-! ### The whole filter -/

omit [LinearOrder D] in
theorem Expr.Placed.mono {e e' : Expr D F} (h : e.Placed schema)
    (hsub : e'.columns ⊆ e.columns) : e'.Placed schema :=
  fun c hc => h c (hsub hc)

omit [LinearOrder D] in
theorem Expr.plain_of_mem {es : List (Expr D F)} (h : Expr.plainAll es = true) {e : Expr D F}
    (he : e ∈ es) : e.plain = true := by
  induction es with
  | nil => cases he
  | cons x xs ih =>
    rw [Expr.plainAll, Bool.and_eq_true] at h
    rcases List.mem_cons.mp he with rfl | he
    · exact h.1
    · exact ih h.2 he

/-- A conjunction or disjunction keeps what its parts keep; the other operators compare. -/
theorem binary_keeps (hstat : Consistent schema rows stat) (hrow : row ∈ rows) {l r : Expr D F}
    {op : Operator} (hplain : (Expr.binary l op r).plain = true)
    (hplaced : (Expr.binary l op r).Placed schema)
    (ihl : l.eval K row = some (.boolean true) →
      ∀ required, Keeps K stat (buildPredicateExpression schema l required))
    (ihr : r.eval K row = some (.boolean true) →
      ∀ required, Keeps K stat (buildPredicateExpression schema r required))
    (h : (Expr.binary l op r).eval K row = some (.boolean true)) (required : RequiredColumns) :
    Keeps K stat (buildPredicateExpression schema (.binary l op r) required) := by
  rw [Expr.plain, Bool.and_eq_true, Bool.and_eq_true] at hplain
  obtain ⟨⟨hlike, hl⟩, hr⟩ := hplain
  have hgrows := buildPredicateExpression_grows schema r
    (buildPredicateExpression schema l required).1
  by_cases hand : op = .and
  · subst hand
    rw [Expr.eval, if_pos rfl] at h
    obtain ⟨htl, htr⟩ := andValues_eq_true.mp h
    rw [buildPredicateExpression, if_pos (Or.inl rfl)]
    exact Keeps.and hgrows (ihl htl required) (ihr htr _)
  by_cases hor : op = .or
  · subst hor
    rw [Expr.eval, if_neg (by decide), if_pos rfl] at h
    rw [buildPredicateExpression, if_pos (Or.inr rfl)]
    refine Keeps.or hgrows ?_
    rcases orValues_eq_true h with htrue | htrue
    · exact Or.inl (ihl htrue required)
    · exact Or.inr (ihr htrue _)
  rw [buildPredicateExpression, if_neg (not_or.mpr ⟨hand, hor⟩)]
  by_cases hop : op.isComparison = true
  · exact buildComparison_keeps hl hr hop hplaced hstat hrow h required
  · have hnone : PruningExpressionBuilder.tryNew schema l op r = none := by
      refine tryNew_eq_none (Bool.eq_false_of_not_eq_true hop) fun hmatch => ?_
      rcases hmatch with rfl | rfl <;> simpa using hlike
    rw [buildComparison, hnone]
    exact keeps_unhandled required

/-- An IN list is a disjunction of equations, a NOT IN list a conjunction of their negations. -/
theorem inList_keeps (hstat : Consistent schema rows stat) (hrow : row ∈ rows) {e : Expr D F}
    {list : List (Expr D F)} {negated : Bool} (hplain : (Expr.inList e list negated).plain = true)
    (hplaced : (Expr.inList e list negated).Placed schema)
    (h : (Expr.inList e list negated).eval K row = some (.boolean true))
    (required : RequiredColumns) :
    Keeps K stat (buildPredicateExpression schema (.inList e list negated) required) := by
  rw [Expr.plain, Bool.and_eq_true] at hplain
  have hsub : ∀ op, ∀ x ∈ list, (Expr.binary e op x).Placed schema := by
    intro op x hx
    refine hplaced.mono ?_
    rw [Expr.columns, Expr.columns, Expr.columnsAll_eq]
    exact List.append_subset.mpr ⟨List.subset_append_left _ _,
      fun c hc => List.mem_append_right _ (List.mem_flatMap.mpr ⟨x, hx, hc⟩)⟩
  rw [buildPredicateExpression]
  split
  · cases negated with
    | false =>
      obtain ⟨x, hx, hxe⟩ := exists_of_in_eq_true h
      exact buildInList_or_keeps hx (buildComparison_keeps hplain.1
        (Expr.plain_of_mem hplain.2 hx) rfl (hsub _ x hx) hstat hrow hxe)
    | true =>
      exact buildInList_and_keeps fun x hx => buildComparison_keeps hplain.1
        (Expr.plain_of_mem hplain.2 hx) rfl (hsub _ x hx) hstat hrow
        (forall_of_notIn_eq_true h x hx)
  · exact keeps_unhandled required

/-- A plain filter that is true on a row of the container is rewritten to one that is not false on
the statistics of the container. -/
theorem buildPredicateExpression_keeps (hstat : Consistent schema rows stat) (hrow : row ∈ rows)
    {e : Expr D F} (hplain : e.plain = true) (hplaced : e.Placed schema)
    (h : e.eval K row = some (.boolean true)) (required : RequiredColumns) :
    Keeps K stat (buildPredicateExpression schema e required) := by
  induction e generalizing required with
  | column c => exact column_keeps hplaced hstat hrow h required
  | literal v =>
    cases h
    exact keeps_unhandled required
  | isNull arg _ =>
    cases arg with
    | column c =>
      obtain ⟨v, hv, hnull⟩ := Option.map_eq_some_iff.mp h
      rw [Scalar.isNull_eq_true.mp (Scalar.boolean.inj hnull)] at hv
      exact isNull_keeps hplaced hstat hrow hv required
    | _ => exact keeps_unhandled required
  | isNotNull arg _ =>
    cases arg with
    | column c =>
      obtain ⟨v, hv, hnull⟩ := Option.map_eq_some_iff.mp h
      refine isNotNull_keeps hplaced hstat hrow hv ?_ required
      rintro rfl
      cases hnull
    | _ => exact keeps_unhandled required
  | not arg _ =>
    cases arg with
    | column c =>
      obtain ⟨v, hv, hnot⟩ := Option.bind_eq_some_iff.mp h
      rw [Scalar.not_eq_boolean.mp hnot] at hv
      exact not_column_keeps hplaced hstat hrow hv required
    | _ => exact keeps_unhandled required
  | binary l op r ihl ihr =>
    have hparts : l.plain = true ∧ r.plain = true := by
      rw [Expr.plain, Bool.and_eq_true, Bool.and_eq_true] at hplain
      exact ⟨hplain.1.2, hplain.2⟩
    have hpl : l.Placed schema := hplaced.mono (List.subset_append_left _ _)
    have hpr : r.Placed schema := hplaced.mono (List.subset_append_right _ _)
    exact binary_keeps hstat hrow hplain hplaced (ihl hparts.1 hpl) (ihr hparts.2 hpr) h required
  | like negated caseInsensitive e p _ _ =>
    rw [buildPredicateExpression]
    split
    · exact keeps_unhandled required
    · next hci =>
      rw [Expr.plain, Bool.and_eq_true, Bool.and_eq_true] at hplain
      have hchain : e.chainColumn = none := by simpa [hci] using hplain.1.1
      rw [buildComparison, tryNew_eq_none (by cases negated <;> rfl) fun _ => hchain]
      exact keeps_unhandled required
  | inList e list negated _ _ => exact inList_keeps hstat hrow hplain hplaced h required
  | _ => exact keeps_unhandled required

end Matching

/-! ### Pruning -/

omit [LinearOrder D] in
/-- A statistic that is not known is an array of `NULL`s in the batch. -/
theorem PruningStatistics.getElem?_array (statistics : PruningStatistics D) (i n : Nat)
    (t : StatisticsType) (column : String) :
    ((statistics.array t column).getD (List.replicate n .null))[i]?.getD .null =
      statistics.value i t column := by
  unfold PruningStatistics.value
  cases statistics.array t column with
  | none =>
    rw [Option.getD_none, List.getElem?_replicate]
    split <;> rfl
  | some array => rfl

omit [LinearOrder D] in
/-- The batch of statistics has a row for each container. -/
theorem batchRow_buildStatisticsRecordBatch {statistics : PruningStatistics D}
    {required : RequiredColumns} {arrays : List (List (Scalar D))}
    (h : buildStatisticsRecordBatch statistics required = some arrays) (i : Nat) :
    batchRow arrays i = statisticsRow (statistics.value i) required := by
  have hall := Fallible.mapM_eq_some_iff.mp h
  clear h
  induction hall with
  | nil => rfl
  | @cons r array _ _ hr _ ih =>
    obtain ⟨_, hr⟩ := Option.ite_none_right_eq_some.mp hr
    obtain rfl := Option.some.inj hr
    rw [batchRow, List.map_cons, statisticsRow, List.map_cons, statistics.getElem?_array]
    exact congrArg _ ih

section Pruning

variable {simplify : Schema → Expr D F → Option (Expr D F)} {hashOrder : List Column → List Column}
  {e : Expr D F} {p : PruningPredicate D F} {statistics : PruningStatistics D} {i : Nat}

/-- A container is dropped only if the predicate is false on its statistics. -/
theorem pruneStatistics_keeps {inner result : List Bool}
    (hresult : pruneStatistics K p statistics inner = some result) (hi : inner[i]? = some true)
    (hvalue : p.predicateExpr.eval K (statisticsRow (statistics.value i) p.requiredColumns) ≠
      some (.boolean false)) : result[i]? = some true := by
  obtain ⟨arrays, harrays, hresult⟩ := Option.bind_eq_some_iff.mp hresult
  obtain ⟨array, harray, hresult⟩ := Option.bind_eq_some_iff.mp hresult
  refine combineArray_keeps hresult hi fun hfalse => ?_
  rw [(Fallible.mapM_getElem? harray).2] at hfalse
  obtain ⟨j, hj, hfalse⟩ := Option.bind_eq_some_iff.mp hfalse
  obtain rfl : i = j := by
    obtain ⟨hlt, hget⟩ := List.getElem?_eq_some_iff.mp hj
    rwa [List.getElem_range] at hget
  obtain ⟨v, hv, htruth⟩ := Option.bind_eq_some_iff.mp hfalse
  have hvfalse : v = .boolean false := by
    cases v <;> simp_all [asTruth]
  rw [batchRow_buildStatisticsRecordBatch harrays, hvfalse] at hv
  exact hvalue hv

theorem PruningPredicate.eval_ne_false
    (hsimplify : ∀ s e e', simplify s e = some e' → ∀ row, e'.eval K row = e.eval K row)
    (hplain : e.plain = true) (hplaced : e.Placed schema)
    (hp : PruningPredicate.tryNew simplify hashOrder e schema = some p)
    (hstat : Consistent schema rows (statistics.value i)) (hrow : row ∈ rows)
    (h : e.eval K row = some (.boolean true)) :
    p.predicateExpr.eval K (statisticsRow (statistics.value i) p.requiredColumns) ≠
      some (.boolean false) := by
  obtain ⟨predicateExpr, hsimple, rfl⟩ := Option.map_eq_some_iff.mp hp
  rw [hsimplify _ _ _ hsimple]
  exact buildPredicateExpression_keeps hstat hrow hplain hplaced h [] _ List.prefix_rfl

omit [LinearOrder D] in
theorem Expr.Over.placed (h : e.Over schema) : e.Placed schema := by
  intro c hc i f hf
  obtain ⟨f', hf'⟩ := h c hc
  rw [hf] at hf'
  cases hf'
  rfl

/-- **`prune` keeps every container with a matching row**, by its guarantees as by its
statistics. -/
theorem PruningPredicate.prune_keeps (hperm : ∀ cols, (hashOrder cols).Perm cols)
    (hsimplify : ∀ s e e', simplify s e = some e' → ∀ row, e'.eval K row = e.eval K row)
    (hplain : e.plain = true) (hover : e.Over schema)
    (hp : PruningPredicate.tryNew simplify hashOrder e schema = some p)
    (hi : i < statistics.numContainers) (hstat : Consistent schema rows (statistics.value i))
    (hright : ∀ column literals results answer,
      statistics.contained column literals = some results → results[i]? = some answer →
      ContainedRight schema rows column literals answer)
    (hrow : row ∈ rows) (h : e.eval K row = some (.boolean true)) {result : List Bool}
    (hresult : p.prune K statistics = some result) : result[i]? = some true := by
  obtain ⟨⟨inner, done⟩, hguarantees, hresult⟩ := Option.bind_eq_some_iff.mp hresult
  have hanalyze : p.literalGuarantees = analyze hashOrder e := by
    obtain ⟨predicateExpr, -, rfl⟩ := Option.map_eq_some_iff.mp hp
    rfl
  rw [hanalyze] at hguarantees
  have hinner : inner[i]? = some true := pruneGuarantees_keeps hright hrow
    (fun g hg => fact_of_mem_analyze hperm hover h hg) hguarantees
    (List.getElem?_replicate_of_lt hi)
  cases done with
  | true =>
    cases hresult
    exact hinner
  | false =>
    exact pruneStatistics_keeps hresult hinner
      (eval_ne_false hsimplify hplain hover.placed hp hstat hrow h)

end Pruning

/-- Pruning by statistics keeps every container that has a row on which the filter is true. -/
theorem statistics_pruning_keeps_matching {simplify : Schema → Expr D F → Option (Expr D F)}
    {hashOrder : List Column → List Column}
    (hsimplify : ∀ s e e', simplify s e = some e' → ∀ row, e'.eval K row = e.eval K row)
    {e : Expr D F} (hplain : e.plain = true) (hplaced : e.Placed schema)
    {p : PruningPredicate D F} (hp : PruningPredicate.tryNew simplify hashOrder e schema = some p)
    {statistics : PruningStatistics D} {inner result : List Bool}
    (hresult : pruneStatistics K p statistics inner = some result) {i : Nat}
    (hstat : Consistent schema rows (statistics.value i)) (hrow : row ∈ rows)
    (h : e.eval K row = some (.boolean true)) (hi : inner[i]? = some true) :
    result[i]? = some true := by
  have hvalue := PruningPredicate.eval_ne_false hsimplify hplain hplaced hp hstat hrow h
  exact pruneStatistics_keeps hresult hi hvalue

/-- `a > 3 OR a IS NULL` on a container with the values 1 and 5 and on one with the values 2 and 3,
of which the second one is dropped. -/
theorem statistics_pruning_keeps_matching_first :
    let schema : Schema := [⟨"a", .other "Int64"⟩]
    let a : Expr ℤ Empty := .column ⟨"a", 0⟩
    let e : Expr ℤ Empty := .binary (.binary a .gt (.literal (.datum 3))) .or (.isNull a)
    let statistics : PruningStatistics ℤ :=
      ⟨2, fun _ => some [.datum 1, .datum 2], fun _ => some [.datum 5, .datum 3],
        fun _ => some [.uint64 0, .uint64 0], fun _ => some [.uint64 2, .uint64 2], fun _ _ => none⟩
    ∃ p result, PruningPredicate.tryNew (fun _ e => some e) id e schema = some p ∧
      pruneStatistics .refusing p statistics [true, true] = some result ∧
      result = [true, false] ∧ result[0]? = some true := by
  intro schema a e statistics
  have hplaced : e.Placed schema := by
    intro c hc i f hf
    obtain rfl : c = ⟨"a", 0⟩ := by simpa [e, a, Expr.columns] using hc
    cases hf
    rfl
  have hresult : pruneStatistics .refusing ⟨schema, (buildPredicateExpression schema e []).2,
      (buildPredicateExpression schema e []).1, analyze id e⟩ statistics [true, true] =
      some [true, false] := by decide
  have hstat : Consistent schema ([.datum 1, .datum 5].map ([·])) (statistics.value 0) :=
    consistent_oneColumn (by simp [statistics, PruningStatistics.value, PruningStatistics.array])
      (by simp [statistics, PruningStatistics.value, PruningStatistics.array]) rfl fun _ => rfl
  have hsimplify : ∀ (s : Schema) (e e' : Expr ℤ Empty), (fun _ e => some e) s e = some e' →
      ∀ row, e'.eval .refusing row = e.eval .refusing row := by
    intro s e e' h row
    cases h
    rfl
  refine ⟨_, [true, false], rfl, hresult, rfl, ?_⟩
  exact statistics_pruning_keeps_matching hsimplify rfl hplaced rfl hresult hstat
    (List.mem_cons_of_mem _ List.mem_cons_self) rfl rfl

end PredicateTransfer.Pruning
