import PredicateTransfer.Pruning.PruningPredicate

/-!
# Statistics and the table that asks for them

The statistics of a container are consistent with its rows if its bounds are bounds and its counts
are exact, where they are known. Rewriting a filter asks for them: it collects the statistics
columns it needs in a table, and the expression it builds is evaluated on a row with their values.

The table grows while the filter is rewritten, and an expression built early is evaluated on the row
of the final table. So everything here is stated for all extensions of the table at hand: positions
once given out stay valid because the table only grows (`statColumnExpr_spec`).
-/

namespace PredicateTransfer.Pruning

variable {D F : Type} [LinearOrder D]

/-! ### Statistics of a container -/

/-- The statistics fit the rows: the bounds hold for the values that are there, the counts are
exact, and each of them may be missing. -/
structure Consistent (schema : Schema) (rows : List (List (Scalar D)))
    (stat : StatisticsType → String → Scalar D) : Prop where
  min_le : ∀ name i f, schema.columnWithName name = some (i, f) → stat .min name ≠ .null →
    ∀ row ∈ rows, ∀ v, row[i]? = some v → v ≠ .null → stat .min name ≤ v
  le_max : ∀ name i f, schema.columnWithName name = some (i, f) → stat .max name ≠ .null →
    ∀ row ∈ rows, ∀ v, row[i]? = some v → v ≠ .null → v ≤ stat .max name
  nullCount : ∀ name i f, schema.columnWithName name = some (i, f) →
    stat .nullCount name ≠ .null →
    stat .nullCount name = .uint64 (rows.countP fun row => row[i]? = some .null)
  rowCount : ∀ name, stat .rowCount name ≠ .null → stat .rowCount name = .uint64 rows.length

/-- Statistics of containers with one column, whose bounds and counts are all known. -/
theorem consistent_oneColumn {f : Field} {vs : List (Scalar D)}
    {stat : StatisticsType → String → Scalar D}
    (hmin : ∀ v ∈ vs, v ≠ .null → stat .min f.name ≤ v)
    (hmax : ∀ v ∈ vs, v ≠ .null → v ≤ stat .max f.name)
    (hnull : stat .nullCount f.name = .uint64 (vs.countP (· = .null)))
    (hrow : ∀ name, stat .rowCount name = .uint64 vs.length) :
    Consistent [f] (vs.map ([·])) stat := by
  have hcolumn : ∀ name i f', Schema.columnWithName [f] name = some (i, f') →
      name = f.name ∧ i = 0 := by
    intro name i f' h
    by_cases hname : f.name = name
    · simp [Schema.columnWithName, hname] at h
      exact ⟨hname.symm, h.1.symm⟩
    · simp [Schema.columnWithName, hname] at h
  refine ⟨fun name i f' hf _ row hr v hv hne => ?_, fun name i f' hf _ row hr v hv hne => ?_,
    fun name i f' hf _ => ?_, fun name _ => ?_⟩
  · obtain ⟨rfl, rfl⟩ := hcolumn name i f' hf
    obtain ⟨w, hw, rfl⟩ := List.mem_map.mp hr
    cases hv
    exact hmin _ hw hne
  · obtain ⟨rfl, rfl⟩ := hcolumn name i f' hf
    obtain ⟨w, hw, rfl⟩ := List.mem_map.mp hr
    cases hv
    exact hmax _ hw hne
  · obtain ⟨rfl, rfl⟩ := hcolumn name i f' hf
    rw [hnull, List.countP_map]
    simp [Function.comp_def]
  · rw [hrow, List.length_map]

/-- Statistics of a container without nulls: its bounds and its number of rows. -/
def exactStatistics (lo hi : Scalar D) (rows : Nat) (t : StatisticsType) (_ : String) : Scalar D :=
  match t with
  | .min => lo
  | .max => hi
  | .nullCount => .uint64 0
  | .rowCount => .uint64 rows

/-- Statistics of which only the bounds of one column are known; a missing one is `NULL`. -/
def onlyBounds (c : Column) (lo hi : Scalar D) (t : StatisticsType) (name : String) : Scalar D :=
  if name = c.name then
    match t with
    | .min => lo
    | .max => hi
    | _ => .null
  else .null

section OnlyBounds

variable {schema : Schema} {c : Column} {f : Field} {x lo hi : Scalar D} {name : String}

omit [LinearOrder D] in
@[simp] theorem onlyBounds_min : onlyBounds c lo hi .min c.name = lo := if_pos rfl

omit [LinearOrder D] in
@[simp] theorem onlyBounds_max : onlyBounds c lo hi .max c.name = hi := if_pos rfl

omit [LinearOrder D] in
@[simp] theorem onlyBounds_nullCount : onlyBounds c lo hi .nullCount name = .null := ite_self _

omit [LinearOrder D] in
@[simp] theorem onlyBounds_rowCount : onlyBounds c lo hi .rowCount name = .null := ite_self _

omit [LinearOrder D] in
theorem name_eq_of_onlyBounds {t : StatisticsType} (h : onlyBounds c lo hi t name ≠ .null) :
    name = c.name := by
  by_contra hname
  exact h (if_neg hname)

/-- They fit a container with one row whose value lies within the known bounds. -/
theorem consistent_onlyBounds (hplaced : schema.columnWithName c.name = some (c.index, f))
    (hlo : lo ≠ .null → lo ≤ x) (hhi : hi ≠ .null → x ≤ hi) :
    Consistent schema [List.replicate (c.index + 1) x] (onlyBounds c lo hi) := by
  have hvalue : ∀ row ∈ [List.replicate (c.index + 1) x], ∀ v, row[c.index]? = some v → x = v := by
    intro row hrow v hv
    obtain rfl := List.mem_singleton.mp hrow
    rw [List.getElem?_replicate_of_lt (Nat.lt_succ_self _)] at hv
    exact Option.some.inj hv
  refine ⟨fun name i f' hf hne row hrow v hv _ => ?_, fun name i f' hf hne row hrow v hv _ => ?_,
    fun name i f' hf hne => ?_, fun name hne => ?_⟩
  · obtain rfl := name_eq_of_onlyBounds hne
    cases hplaced.symm.trans hf
    rw [onlyBounds_min] at hne ⊢
    exact hvalue row hrow v hv ▸ hlo hne
  · obtain rfl := name_eq_of_onlyBounds hne
    cases hplaced.symm.trans hf
    rw [onlyBounds_max] at hne ⊢
    exact hvalue row hrow v hv ▸ hhi hne
  · exact absurd onlyBounds_nullCount hne
  · exact absurd onlyBounds_rowCount hne

end OnlyBounds

/-- The row of statistics a table asks for. -/
def statisticsRow (stat : StatisticsType → String → Scalar D) (required : RequiredColumns) :
    List (Scalar D) :=
  required.map fun r => stat r.statisticsType r.column.name

variable {K : Kernels D F} {schema : Schema} {rows : List (List (Scalar D))}
  {row : List (Scalar D)} {stat : StatisticsType → String → Scalar D}

omit [LinearOrder D] in
theorem statisticsRow_getElem? (stat : StatisticsType → String → Scalar D)
    {required required' : RequiredColumns} {idx : Nat} {r : RequiredColumn}
    (hr : required[idx]? = some r) (h : required <+: required') :
    (statisticsRow stat required')[idx]? = some (stat r.statisticsType r.column.name) := by
  obtain ⟨rest, rfl⟩ := h
  have hlt : idx < required.length := (List.getElem?_eq_some_iff.mp hr).1
  rw [statisticsRow, List.getElem?_map, List.getElem?_append_left hlt, hr]
  rfl

theorem findStatColumn_spec {required : RequiredColumns} {column : Column} {t : StatisticsType}
    {idx : Nat} (h : required.findStatColumn column t = some idx) :
    ∃ r, required[idx]? = some r ∧ r.statisticsType = t ∧ (t ≠ .rowCount → r.column = column) := by
  by_cases ht : t = .rowCount
  · subst ht
    obtain ⟨hlt, hr, _⟩ := List.findIdx?_eq_some_iff_getElem.mp h
    exact ⟨_, List.getElem?_eq_getElem hlt, of_decide_eq_true hr, fun hne => absurd rfl hne⟩
  · have hfind : required.findIdx? (fun r => r.column = column ∧ r.statisticsType = t) =
        some idx := by
      cases t <;> first | exact h | exact absurd rfl ht
    obtain ⟨hlt, hr, _⟩ := List.findIdx?_eq_some_iff_getElem.mp hfind
    have hr := of_decide_eq_true hr
    exact ⟨_, List.getElem?_eq_getElem hlt, hr.2, fun _ => hr.1⟩

omit [LinearOrder D] in
/-- A statistics column is a reference to an entry of the table for that statistic. For anything
but a row count the entry is one of the column itself. -/
theorem statColumnExpr_spec (required : RequiredColumns) (column : Column) (e : Expr D F)
    (field : Field) (t : StatisticsType) :
    required <+: (required.statColumnExpr column e field t).1 ∧
    ∃ name idx r, (required.statColumnExpr column e field t).2 =
        rewriteColumnExpr e column ⟨name, idx⟩ ∧
      (required.statColumnExpr column e field t).1[idx]? = some r ∧ r.statisticsType = t ∧
      (t ≠ .rowCount → r.column = column) := by
  unfold RequiredColumns.statColumnExpr
  cases hidx : required.findStatColumn column t with
  | some idx =>
    obtain ⟨r, hr⟩ := findStatColumn_spec hidx
    exact ⟨List.prefix_rfl, _, idx, r, rfl, hr⟩
  | none =>
    have hlast : (required ++ [⟨column, t, ⟨RequiredColumns.statColumnName column t,
        field.dataType⟩⟩])[required.length]? = some _ := List.getElem?_concat_length
    exact ⟨List.prefix_append _ _, _, required.length, _, rfl, hlast, rfl, fun _ => rfl⟩

/-- The value of an expression when its one column has the value `x`. -/
def Expr.valueAt (K : Kernels D F) (c : Column) (e : Expr D F) (x : Scalar D) :
    Option (Scalar D) :=
  e.eval K (List.replicate (c.index + 1) x)

theorem Expr.eval_eq_valueAt {c : Column} {e : Expr D F} {x : Scalar D}
    (hcols : ∀ c' ∈ e.columns, c' = c) (hx : row[c.index]? = some x) :
    e.eval K row = e.valueAt K c x := by
  refine Expr.eval_congr fun c' hc' => ?_
  rw [hcols c' hc', hx, List.getElem?_replicate_of_lt (Nat.lt_succ_self _)]

@[simp] theorem Expr.valueAt_column (c : Column) (x : Scalar D) :
    (Expr.column c : Expr D F).valueAt K c x = some x :=
  List.getElem?_replicate_of_lt (Nat.lt_succ_self _)

/-- A bound of a column stands for the column: the rewritten expression has the value the original
one has at the bound. -/
theorem eval_statColumnExpr {required required' : RequiredColumns} {column : Column}
    {e : Expr D F} {field : Field} {t : StatisticsType} (ht : t ≠ .rowCount)
    (hcols : ∀ c ∈ e.columns, c = column)
    (h : (required.statColumnExpr column e field t).1 <+: required') :
    (required.statColumnExpr column e field t).2.eval K (statisticsRow stat required') =
      e.valueAt K column (stat t column.name) := by
  obtain ⟨_, name, idx, r, he, hr, htype, hcolumn⟩ := statColumnExpr_spec required column e field t
  have hidx := statisticsRow_getElem? stat hr h
  rw [htype, hcolumn ht] at hidx
  rw [he]
  refine Expr.eval_mapColumns fun c hc => ?_
  rw [if_pos (hcols c hc), hidx, hcols c hc,
    List.getElem?_replicate_of_lt (Nat.lt_succ_self _)]

variable (K stat)

/-- A statistic of a bare column. -/
theorem eval_statColumn {required required' : RequiredColumns} {c : Column} {field : Field}
    {t : StatisticsType} (ht : t ≠ .rowCount)
    (h : (required.statColumnExpr c (.column c : Expr D F) field t).1 <+: required') :
    (required.statColumnExpr c (.column c) field t).2.eval K (statisticsRow stat required') =
      some (stat t c.name) := by
  have hcols : ∀ c' ∈ (Expr.column c : Expr D F).columns, c' = c := fun c' hc' =>
    List.mem_singleton.mp hc'
  exact (eval_statColumnExpr ht hcols h).trans (Expr.valueAt_column c _)

/-- A row count may have been asked for by any column. -/
theorem eval_rowCountExpr {required required' : RequiredColumns} {column : Column} {field : Field}
    (h : (required.statColumnExpr column (.column column : Expr D F) field .rowCount).1 <+:
      required') :
    ∃ name, (required.statColumnExpr column (.column column : Expr D F) field .rowCount).2.eval K
      (statisticsRow stat required') = some (stat .rowCount name) := by
  obtain ⟨_, name, idx, r, he, hr, htype, _⟩ :=
    statColumnExpr_spec required column (.column column : Expr D F) field .rowCount
  refine ⟨r.column.name, ?_⟩
  have hidx := statisticsRow_getElem? stat hr h
  rw [htype] at hidx
  rw [he]
  show (statisticsRow stat required')[(if column = column then _ else column).index]? = _
  rw [if_pos rfl]
  exact hidx

variable {K stat}

/-- Both bounds of a bare column. -/
theorem eval_minMaxColumn (K : Kernels D F) (stat : StatisticsType → String → Scalar D)
    (c : Column) (field : Field) {required required' : RequiredColumns}
    (h : ((required.minColumnExpr c (.column c : Expr D F) field).1.maxColumnExpr c
      (.column c : Expr D F) field).1 <+: required') :
    (required.minColumnExpr c (.column c) field).2.eval K (statisticsRow stat required') =
        some (stat .min c.name) ∧
    ((required.minColumnExpr c (.column c : Expr D F) field).1.maxColumnExpr c
        (.column c) field).2.eval K (statisticsRow stat required') = some (stat .max c.name) := by
  exact ⟨eval_statColumn K stat (by decide) ((statColumnExpr_spec ..).1.trans h),
    eval_statColumn K stat (by decide) h⟩

/-! ### A comparison over bounds -/

/-- What `boundsExpr` computes from the two ends of the column and the scalar. -/
def boundsValue (op : Operator) (lo hi s : Option (Scalar D)) : Option (Scalar D) :=
  match op with
  | .notEq => orValues (compareResults .notEq lo s) (compareResults .notEq s hi)
  | .eq => andValues (compareResults .ltEq lo s) (compareResults .ltEq s hi)
  | .gt => compareResults .gt hi s
  | .gtEq => compareResults .gtEq hi s
  | .lt => compareResults .lt lo s
  | .ltEq => compareResults .ltEq lo s
  | _ => none

/-- What a comparison over bounds says of them when it is false. -/
def BoundsExclude (op : Operator) (lo hi : Option (Scalar D)) (t : Scalar D) : Prop :=
  match op with
  | .notEq => lo = some t ∧ hi = some t ∧ t ≠ .null
  | .eq => (∃ w, lo = some w ∧ t < w) ∨ ∃ w, hi = some w ∧ w < t
  | .gt => ∃ w, hi = some w ∧ w ≤ t ∧ w ≠ .null
  | .gtEq => ∃ w, hi = some w ∧ w < t
  | .lt => ∃ w, lo = some w ∧ t ≤ w ∧ t ≠ .null
  | .ltEq => ∃ w, lo = some w ∧ t < w
  | _ => False

theorem boundsValue_eq_false {op : Operator} {lo hi s : Option (Scalar D)}
    (h : boundsValue op lo hi s = some (.boolean false)) :
    ∃ t, s = some t ∧ BoundsExclude op lo hi t := by
  cases op <;> simp only [boundsValue, reduceCtorEq] at h
  case eq =>
    rcases andValues_eq_false h with h | h
    · obtain ⟨w, t, hw, ht, hc⟩ := compareResults_eq_boolean h
      exact ⟨t, ht, Or.inl ⟨w, hw, compareValues_eq_false.mp hc⟩⟩
    · obtain ⟨t, w, ht, hw, hc⟩ := compareResults_eq_boolean h
      exact ⟨t, ht, Or.inr ⟨w, hw, compareValues_eq_false.mp hc⟩⟩
  case notEq =>
    obtain ⟨hl, hr⟩ := orValues_eq_false.mp h
    obtain ⟨w, t, hw, ht, hc⟩ := compareResults_eq_boolean hl
    obtain ⟨t', w', ht', hw', hc'⟩ := compareResults_eq_boolean hr
    obtain rfl : t = t' := Option.some.inj (ht.symm.trans ht')
    obtain ⟨rfl, hnull⟩ := compareValues_eq_false.mp hc
    obtain ⟨rfl, _⟩ := compareValues_eq_false.mp hc'
    exact ⟨w, ht, hw, hw', hnull⟩
  all_goals
    obtain ⟨w, t, hw, ht, hc⟩ := compareResults_eq_boolean h
    exact ⟨t, ht, w, hw, compareValues_eq_false.mp hc⟩

section Comparison

variable {b : PruningExpressionBuilder D F} {required required' : RequiredColumns}

/-- The two ends of the column side of a comparison. -/
def PruningExpressionBuilder.lowEnd (b : PruningExpressionBuilder D F) (K : Kernels D F)
    (stat : StatisticsType → String → Scalar D) : Option (Scalar D) :=
  b.columnExpr.valueAt K b.column (stat .min b.column.name)

@[inherit_doc PruningExpressionBuilder.lowEnd]
def PruningExpressionBuilder.highEnd (b : PruningExpressionBuilder D F) (K : Kernels D F)
    (stat : StatisticsType → String → Scalar D) : Option (Scalar D) :=
  b.columnExpr.valueAt K b.column (stat .max b.column.name)

variable (K stat required)

theorem minColumnExpr_spec (hcols : ∀ c ∈ b.columnExpr.columns, c = b.column) :
    required <+: (b.minColumnExpr required).1 ∧
    ∀ required', (b.minColumnExpr required).1 <+: required' →
      (b.minColumnExpr required).2.eval K (statisticsRow stat required') = b.lowEnd K stat :=
  ⟨(statColumnExpr_spec ..).1, fun _ h => eval_statColumnExpr (by decide) hcols h⟩

theorem maxColumnExpr_spec (hcols : ∀ c ∈ b.columnExpr.columns, c = b.column) :
    required <+: (b.maxColumnExpr required).1 ∧
    ∀ required', (b.maxColumnExpr required).1 <+: required' →
      (b.maxColumnExpr required).2.eval K (statisticsRow stat required') = b.highEnd K stat :=
  ⟨(statColumnExpr_spec ..).1, fun _ h => eval_statColumnExpr (by decide) hcols h⟩

/-- Both bounds asked for one after the other. -/
theorem minMaxColumnExpr_spec (hcols : ∀ c ∈ b.columnExpr.columns, c = b.column) :
    required <+: (b.maxColumnExpr (b.minColumnExpr required).1).1 ∧
    ∀ required', (b.maxColumnExpr (b.minColumnExpr required).1).1 <+: required' →
      (b.minColumnExpr required).2.eval K (statisticsRow stat required') = b.lowEnd K stat ∧
      (b.maxColumnExpr (b.minColumnExpr required).1).2.eval K (statisticsRow stat required') =
        b.highEnd K stat := by
  obtain ⟨hp, hmin⟩ := minColumnExpr_spec K stat required hcols
  obtain ⟨hp', hmax⟩ := maxColumnExpr_spec K stat (b.minColumnExpr required).1 hcols
  exact ⟨hp.trans hp', fun required' h => ⟨hmin _ (hp'.trans h), hmax _ h⟩⟩

theorem boundsExpr_spec (hop : b.op.isComparison = true)
    (hcols : ∀ c ∈ b.columnExpr.columns, c = b.column) (hscalar : b.scalarExpr.columns = []) :
    required <+: (boundsExpr b required).1 ∧ ∃ e, (boundsExpr b required).2 = some e ∧
    ∀ required', (boundsExpr b required).1 <+: required' →
      e.eval K (statisticsRow stat required') =
        boundsValue b.op (b.lowEnd K stat) (b.highEnd K stat) (b.scalarExpr.eval K []) := by
  have hs : ∀ row, b.scalarExpr.eval K row = b.scalarExpr.eval K [] := fun row =>
    Expr.eval_of_columns_eq_nil hscalar _ _
  obtain ⟨hpmin, hmin⟩ := minColumnExpr_spec K stat required hcols
  obtain ⟨hpmax, hmax⟩ := maxColumnExpr_spec K stat required hcols
  obtain ⟨hpboth, hboth⟩ := minMaxColumnExpr_spec K stat required hcols
  unfold boundsExpr
  cases hb : b.op <;> rw [hb] at hop <;> try cases hop
  case eq =>
    refine ⟨hpboth, _, rfl, fun required' h => ?_⟩
    obtain ⟨hlo, hhi⟩ := hboth required' h
    rw [Expr.eval, if_pos rfl, eval_comparison rfl, eval_comparison rfl, hlo, hhi, hs]
    rfl
  case notEq =>
    refine ⟨hpboth, _, rfl, fun required' h => ?_⟩
    obtain ⟨hlo, hhi⟩ := hboth required' h
    rw [Expr.eval, if_neg (by decide), if_pos rfl, eval_comparison rfl, eval_comparison rfl, hlo,
      hhi, hs]
    rfl
  case gt | gtEq =>
    refine ⟨hpmax, _, rfl, fun required' h => ?_⟩
    rw [eval_comparison rfl, hmax required' h, hs]
    rfl
  case lt | ltEq =>
    refine ⟨hpmin, _, rfl, fun required' h => ?_⟩
    rw [eval_comparison rfl, hmin required' h, hs]
    rfl

theorem wrapNullCountCheckExpr_spec (e : Expr D F) :
    required <+: (wrapNullCountCheckExpr b required e).1 ∧
    ∀ required', (wrapNullCountCheckExpr b required e).1 <+: required' →
      ∃ name, (wrapNullCountCheckExpr b required e).2.eval K (statisticsRow stat required') =
        andValues (compareValues .notEq (stat .nullCount b.column.name) (stat .rowCount name))
          (e.eval K (statisticsRow stat required')) := by
  have hp : (b.nullCountColumnExpr required).1 <+:
      (b.rowCountColumnExpr (b.nullCountColumnExpr required).1).1 := (statColumnExpr_spec ..).1
  refine ⟨(statColumnExpr_spec ..).1.trans hp, fun required' h => ?_⟩
  obtain ⟨name, hrow⟩ : ∃ name,
      (b.rowCountColumnExpr (b.nullCountColumnExpr required).1).2.eval K
        (statisticsRow stat required') = some (stat .rowCount name) := eval_rowCountExpr K stat h
  have hnull : (b.nullCountColumnExpr required).2.eval K (statisticsRow stat required') =
      some (stat .nullCount b.column.name) := eval_statColumn K stat (by decide) (hp.trans h)
  refine ⟨name, ?_⟩
  show (Expr.binary (.binary (b.nullCountColumnExpr required).2 .notEq
    (b.rowCountColumnExpr (b.nullCountColumnExpr required).1).2) .and e).eval K _ = _
  rw [Expr.eval, if_pos rfl, eval_comparison rfl, hnull, hrow]
  rfl

/-- The whole rewriting of a comparison: the null count check and the comparison over bounds. -/
theorem buildStatisticsExpr_spec (hop : b.op.isComparison = true)
    (hcols : ∀ c ∈ b.columnExpr.columns, c = b.column) (hscalar : b.scalarExpr.columns = []) :
    ∃ e, (buildStatisticsExpr b required).2 = some e ∧
    ∀ required', (buildStatisticsExpr b required).1 <+: required' →
      ∃ name, e.eval K (statisticsRow stat required') =
        andValues (compareValues .notEq (stat .nullCount b.column.name) (stat .rowCount name))
          (boundsValue b.op (b.lowEnd K stat) (b.highEnd K stat) (b.scalarExpr.eval K [])) := by
  obtain ⟨hp, e, he, heval⟩ := boundsExpr_spec K stat required hop hcols hscalar
  unfold buildStatisticsExpr
  cases hbounds : boundsExpr b required with
  | mk required₁ built =>
    rw [hbounds] at hp he heval
    cases he
    obtain ⟨hp₁, hwrap⟩ := wrapNullCountCheckExpr_spec K stat required₁ (b := b) e
    refine ⟨_, rfl, fun required' h => ?_⟩
    obtain ⟨name, hname⟩ := hwrap required' h
    exact ⟨name, by rw [hname, heval required' (hp₁.trans h)]⟩

variable {K stat required}

/-! ### The table only grows -/

omit [LinearOrder D] in
theorem boundsExpr_grows : required <+: (boundsExpr b required).1 := by
  have hmin : required <+: (b.minColumnExpr required).1 := (statColumnExpr_spec ..).1
  have hmax : ∀ required, required <+: (b.maxColumnExpr required).1 := fun required =>
    (statColumnExpr_spec ..).1
  unfold boundsExpr
  split
  · exact hmin.trans (hmax _)
  · exact hmin.trans (hmax _)
  · exact hmin.trans (hmax _)
  · exact hmin.trans (hmax _)
  · exact hmax required
  · exact hmax required
  · exact hmin
  · exact hmin
  · exact List.prefix_rfl

omit [LinearOrder D] in
theorem buildStatisticsExpr_grows : required <+: (buildStatisticsExpr b required).1 := by
  have hp : required <+: (boundsExpr b required).1 := boundsExpr_grows
  unfold buildStatisticsExpr
  split
  · next required₁ e h =>
    rw [h] at hp
    have hwrap : required₁ <+: (wrapNullCountCheckExpr b required₁ e).1 :=
      (statColumnExpr_spec ..).1.trans (statColumnExpr_spec ..).1
    exact hp.trans hwrap
  · next required₁ h => rwa [h] at hp

end Comparison

section Growth

omit [LinearOrder D]

theorem buildComparison_grows (l : Expr D F) (op : Operator) (r : Expr D F)
    (required : RequiredColumns) : required <+: (buildComparison schema l op r required).1 := by
  unfold buildComparison
  split
  · exact List.prefix_rfl
  · next b _ =>
    have hp : required <+: (buildStatisticsExpr b required).1 := buildStatisticsExpr_grows
    split
    · next h => rwa [h] at hp
    · next h => rwa [h] at hp

theorem buildSingleColumnExpr_grows (c : Column) (required : RequiredColumns) (isNot : Bool) :
    required <+: (buildSingleColumnExpr (D := D) (F := F) c schema required isNot).1 := by
  unfold buildSingleColumnExpr
  split
  · exact List.prefix_rfl
  · split
    · have hp := fun field : Field =>
        (statColumnExpr_spec required c (.column c : Expr D F) field .min).1.trans
          (statColumnExpr_spec _ c (.column c : Expr D F) field .max).1
      cases isNot with
      | true => exact hp _
      | false => exact hp _
    · exact List.prefix_rfl

theorem buildIsNullColumnExpr_grows (e : Expr D F) (required : RequiredColumns)
    (withNot : Bool) : required <+: (buildIsNullColumnExpr e schema required withNot).1 := by
  unfold buildIsNullColumnExpr
  split
  · split
    · exact List.prefix_rfl
    · cases withNot with
      | true => exact (statColumnExpr_spec ..).1.trans (statColumnExpr_spec ..).1
      | false => exact (statColumnExpr_spec ..).1
  · exact List.prefix_rfl

theorem buildInList_grows (e : Expr D F) (eqOp reOp : Operator) (list : List (Expr D F))
    (required : RequiredColumns) :
    required <+: (buildInList schema e eqOp reOp list required).1 := by
  induction list using List.reverseRecOn with
  | nil => exact List.prefix_rfl
  | append_singleton xs y ih =>
    by_cases hxs : xs = []
    · subst hxs
      exact buildComparison_grows ..
    · rw [buildInList_concat hxs]
      exact ih.trans (buildComparison_grows ..)

/-- Rewriting a filter only adds entries to the table. -/
theorem buildPredicateExpression_grows (schema : Schema) (e : Expr D F)
    (required : RequiredColumns) :
    required <+: (buildPredicateExpression schema e required).1 := by
  induction e generalizing required with
  | column c => exact buildSingleColumnExpr_grows ..
  | literal v =>
    rw [buildPredicateExpression]
    split <;> exact List.prefix_rfl
  | isNull arg _ | isNotNull arg _ => exact buildIsNullColumnExpr_grows ..
  | not arg _ =>
    cases arg with
    | column c => exact buildSingleColumnExpr_grows ..
    | _ => exact List.prefix_rfl
  | binary l op r ihl ihr =>
    rw [buildPredicateExpression]
    split
    · exact (ihl required).trans (ihr _)
    · exact buildComparison_grows ..
  | like negated ci e p _ _ =>
    rw [buildPredicateExpression]
    split
    · exact List.prefix_rfl
    · exact buildComparison_grows ..
  | inList e list negated _ _ =>
    rw [buildPredicateExpression]
    split
    · exact buildInList_grows ..
    · exact List.prefix_rfl
  | _ => exact List.prefix_rfl

end Growth

end PredicateTransfer.Pruning
