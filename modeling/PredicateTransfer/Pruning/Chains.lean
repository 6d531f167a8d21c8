import PredicateTransfer.Pruning.StatisticsSound

/-!
# Pruning through casts and minuses

`rewrite_expr_to_prunable` takes a comparison whose column stands under casts, minuses and `NOT`.
The casts stay around the column and are applied to its bounds; the minuses and `NOT` are moved to
the other side. So a container is judged by comparing the casts at a bound with what is left of
the other side when the minuses are undone there.

**Theorem (`prunesSoundly_iff_keepsOrder`).** Pruning through an accepted chain is sound for every
comparison, every other side and every container exactly when the chain keeps the order of the
column: for values `x ≤ y` of the column's type, the chain's value at `x` with its minuses undone
is not above the casts at `y`, and dually.

The order is not kept by a minus that wraps at the least value of its type, nor by a cast to
`BOOLEAN`, which `verify_support_type_for_prune` lets through (`minus_and_boolean_cast_unsound`).
-/

namespace PredicateTransfer.Pruning

variable {D F : Type}

/-! ### Chains -/

/-- The comparison with its operands exchanged. -/
def Operator.mirror : Operator → Operator
  | .lt => .gt
  | .ltEq => .gtEq
  | .gt => .lt
  | .gtEq => .ltEq
  | op => op

theorem Operator.swap_eq_mirror {op : Operator} (h : op.isComparison = true) :
    op.swap = some op.mirror := by
  cases op <;> first | rfl | cases h

@[simp] theorem Operator.mirror_mirror (op : Operator) : op.mirror.mirror = op := by
  cases op <;> rfl

/-- The comparison, exchanged if the order is reversed. -/
def Operator.turn (reversed : Bool) (op : Operator) : Operator :=
  if reversed then op.mirror else op

theorem Operator.turn_turn (reversed : Bool) (op : Operator) :
    (op.turn reversed).turn reversed = op := by
  cases reversed <;> simp [turn]

theorem Operator.turn_not (reversed : Bool) (op : Operator) :
    op.turn (!reversed) = op.mirror.turn reversed := by
  cases reversed <;> simp [turn]

theorem Operator.mirror_turn (reversed : Bool) (op : Operator) :
    (op.turn reversed).mirror = op.turn (!reversed) := by
  cases reversed <;> simp [turn]

theorem Operator.isComparison_turn (reversed : Bool) (op : Operator) :
    (op.turn reversed).isComparison = op.isComparison := by
  cases reversed <;> cases op <;> rfl

theorem Operator.isEquation_of_turn {reversed : Bool} {op : Operator}
    (h : op.turn reversed = .eq ∨ op.turn reversed = .notEq) : op = .eq ∨ op = .notEq := by
  cases reversed <;> cases op <;> simp_all [turn, mirror]

namespace Expr

/-- Whether an odd number of minuses stands around the column. -/
def reverses : Expr D F → Bool
  | .negative e => !e.reverses
  | .cast _ e _ | .castColumn _ e _ | .tryCast e _ => e.reverses
  | _ => false

def hasNot : Expr D F → Bool
  | .not _ => true
  | .negative e | .cast _ e _ | .castColumn _ e _ | .tryCast e _ => e.hasNot
  | _ => false

/-- What the rewriting leaves around the column: the casts, in their default mode. -/
def casts : Expr D F → Expr D F
  | .cast _ e t | .castColumn _ e t => .cast false e.casts t
  | .tryCast e t => .tryCast e.casts t
  | .negative e | .not e => e.casts
  | e => e

/-- What the rewriting does to the value on the other side. -/
def undo (K : Kernels D F) : Expr D F → Scalar D → Option (Scalar D)
  | .cast _ e _, v | .castColumn _ e _, v | .tryCast e _, v => e.undo K v
  | .negative e, v => (e.undo K v).bind K.arithmeticNegate
  | .not _, v => v.not
  | _, v => some v

theorem columns_of_chain {e : Expr D F} {c : Column} (h : e.chainColumn = some c) :
    e.columns = [c] := by
  induction e with
  | column c' =>
    cases h
    rfl
  | not e ih | negative e ih | cast _ e _ ih | castColumn _ e _ ih | tryCast e _ ih => exact ih h
  | _ => cases h

theorem chainColumn_casts {e : Expr D F} : e.casts.chainColumn = e.chainColumn := by
  induction e with
  | not e ih | negative e ih | cast _ e _ ih | castColumn _ e _ ih | tryCast e _ ih => exact ih
  | _ => rfl

end Expr

/-! ### The rewriting of a chain -/

section Rewriting

variable {schema : Schema}

theorem isCompareOp_of_isComparison {op : Operator} (h : op.isComparison = true) :
    isCompareOp op = true := by
  cases op <;> first | rfl | cases h

theorem rewriteExprToPrunable_eq {e s e' s' : Expr D F} {op op' : Operator}
    (hop : op.isComparison = true)
    (h : rewriteExprToPrunable schema e op s = some (e', op', s')) :
    e' = e.casts ∧ op' = op.turn e.reverses ∧ (e.hasNot = true → op = .eq ∨ op = .notEq) := by
  induction e generalizing e' op' s' with
  | column c =>
    rw [rewriteExprToPrunable, if_pos (isCompareOp_of_isComparison hop)] at h
    cases h
    exact ⟨rfl, rfl, fun hnot => by cases hnot⟩
  | cast safe e t ih | castColumn safe e t ih | tryCast e t ih =>
    rw [rewriteExprToPrunable, if_pos (isCompareOp_of_isComparison hop)] at h
    obtain ⟨l', hl', rfl⟩ := throughCast_eq_some h
    obtain ⟨rfl, hturn, hnot⟩ := ih hl'
    exact ⟨rfl, hturn, hnot⟩
  | negative arg ih =>
    rw [rewriteExprToPrunable, if_pos (isCompareOp_of_isComparison hop)] at h
    obtain ⟨o, r, hrec, hswap, rfl⟩ := negative_eq_some h
    obtain ⟨rfl, rfl, hnot⟩ := ih hrec
    have hcomparison : (op.turn arg.reverses).isComparison = true := by
      rwa [Operator.isComparison_turn]
    rw [Operator.swap_eq_mirror hcomparison, Operator.mirror_turn] at hswap
    exact ⟨rfl, (Option.some.inj hswap).symm, hnot⟩
  | not arg _ =>
    obtain ⟨c, rfl, heq, rfl, rfl, rfl⟩ := rewriteExprToPrunable_not h
    exact ⟨rfl, rfl, fun _ => heq⟩
  | _ => cases h

/-- The other side is changed by undoing the minuses on its value. -/
theorem rewriteExprToPrunable_eval [LinearOrder D] {K : Kernels D F} {e s e' s' : Expr D F}
    {op op' : Operator} (h : rewriteExprToPrunable schema e op s = some (e', op', s'))
    (hs : s.columns = []) : s'.eval K [] = (s.eval K []).bind (e.undo K) := by
  induction e generalizing e' op' s' with
  | column c =>
    rw [rewriteExprToPrunable] at h
    split at h
    · cases h
      exact (Option.bind_fun_some _).symm
    · cases h
  | cast safe e t ih | castColumn safe e t ih | tryCast e t ih =>
    rw [rewriteExprToPrunable] at h
    split at h
    · obtain ⟨l', hl', rfl⟩ := throughCast_eq_some h
      exact ih hl'
    · cases h
  | negative arg ih =>
    rw [rewriteExprToPrunable] at h
    split at h
    · obtain ⟨o, r, hrec, _, rfl⟩ := negative_eq_some h
      have hr : r.columns = [] := (rewriteExprToPrunable_spec hrec).2.2.trans hs
      rw [Expr.eval, ih hrec, hr, Option.bind_assoc]
      rfl
    · cases h
  | not arg _ =>
    obtain ⟨c, rfl, _, rfl, rfl, rfl⟩ := rewriteExprToPrunable_not h
    rfl
  | _ => cases h

/-- Whether a chain is accepted depends on its shape, and not on the other side. -/
theorem rewriteExprToPrunable_accepts {e s₀ : Expr D F}
    (h : (rewriteExprToPrunable schema e .eq s₀).isSome = true) {op : Operator}
    (hop : op.isComparison = true) (hnot : e.hasNot = true → op = .eq ∨ op = .notEq)
    (s : Expr D F) : (rewriteExprToPrunable schema e op s).isSome = true := by
  have hcompare := isCompareOp_of_isComparison hop
  induction e with
  | column c =>
    rw [rewriteExprToPrunable, if_pos hcompare]
    rfl
  | cast safe e t ih | castColumn safe e t ih | tryCast e t ih =>
    obtain ⟨⟨l, o, r⟩, h⟩ := Option.isSome_iff_exists.mp h
    rw [rewriteExprToPrunable, if_pos (by rfl)] at h
    obtain ⟨fromType, hfrom, h⟩ := Option.bind_eq_some_iff.mp h
    obtain ⟨hguard, htype, h⟩ := Option.bind_eq_some_iff.mp h
    obtain ⟨rewritten, hrec, _⟩ := Option.bind_eq_some_iff.mp h
    obtain ⟨⟨l', o', r'⟩, hrec'⟩ := Option.isSome_iff_exists.mp
      (ih (Option.isSome_iff_exists.mpr ⟨_, hrec⟩) hnot)
    rw [rewriteExprToPrunable, if_pos hcompare, hrec']
    simp [throughCast, hfrom, htype]
  | negative arg ih =>
    obtain ⟨⟨l, o, r⟩, h⟩ := Option.isSome_iff_exists.mp h
    rw [rewriteExprToPrunable, if_pos (by rfl)] at h
    obtain ⟨_, _, hrec, _⟩ := negative_eq_some h
    obtain ⟨⟨l', o', r'⟩, hrec'⟩ := Option.isSome_iff_exists.mp
      (ih (Option.isSome_iff_exists.mpr ⟨_, hrec⟩) hnot)
    obtain ⟨_, rfl, _⟩ := rewriteExprToPrunable_eq hop hrec'
    have hcomparison : (op.turn arg.reverses).isComparison = true := by
      rwa [Operator.isComparison_turn]
    rw [rewriteExprToPrunable, if_pos hcompare, hrec']
    simp [Operator.swap_eq_mirror hcomparison]
  | not arg _ =>
    obtain ⟨⟨l, o, r⟩, h⟩ := Option.isSome_iff_exists.mp h
    obtain ⟨c, rfl, _⟩ := rewriteExprToPrunable_not h
    rw [rewriteExprToPrunable, if_pos (hnot rfl)]
    simp [Operator.swap_eq_mirror hop]
  | _ => cases h

end Rewriting

/-! ### Undoing the minuses -/

variable [LinearOrder D] {K : Kernels D F}

/-- What Arrow documents of the kernels in a chain: `NULL` stays `NULL` under casts and minuses;
the minus of a single value, where it does not fail, reverses the order, keeps values apart from
`NULL`, and there is none for truth values. -/
structure Kernels.Lawful (K : Kernels D F) : Prop where
  cast_null : ∀ safe t, K.cast safe t .null = some .null
  castColumn_null : ∀ safe t, K.castColumn safe t .null = some .null
  negWrapping_null : K.negWrapping .null = some .null
  negate_lt : ∀ a b a' b', K.arithmeticNegate a = some a' → K.arithmeticNegate b = some b' →
    a < b → b' < a'
  negate_ne_null : ∀ a, K.arithmeticNegate a = some .null → a = .null
  negate_boolean : ∀ b, K.arithmeticNegate (.boolean b) = none

section Undo

variable {e : Expr D F} {u t u' t' : Scalar D}

theorem Kernels.Lawful.negate_rel (hK : K.Lawful) {op : Operator} {a b a' b' : Scalar D}
    (ha : K.arithmeticNegate a = some a') (hb : K.arithmeticNegate b = some b')
    (h : op.mirror.Rel a b) : op.Rel a' b' := by
  have hsame : a = b → a' = b' := by
    rintro rfl
    exact Option.some.inj (ha.symm.trans hb)
  cases op <;> simp only [Operator.mirror, Operator.Rel] at h ⊢
  case eq =>
    refine ⟨hsame h.1, ?_⟩
    rintro rfl
    exact h.2 (hK.negate_ne_null a ha)
  case notEq => exact h.symm.imp (hK.negate_lt _ _ _ _ hb ha) (hK.negate_lt _ _ _ _ ha hb)
  case lt => exact hK.negate_lt _ _ _ _ hb ha h
  case gt => exact hK.negate_lt _ _ _ _ ha hb h
  case ltEq =>
    rcases h.1.lt_or_eq with hlt | heq
    · have hlt' := hK.negate_lt _ _ _ _ hb ha hlt
      exact ⟨hlt'.le, (Scalar.ne_null_of_lt hlt').1⟩
    · refine ⟨(hsame heq.symm).le, ?_⟩
      rintro rfl
      exact h.2 (heq.trans (hK.negate_ne_null a ha))
  case gtEq =>
    rcases h.1.lt_or_eq with hlt | heq
    · have hlt' := hK.negate_lt _ _ _ _ ha hb hlt
      exact ⟨hlt'.le, (Scalar.ne_null_of_lt hlt').1⟩
    · refine ⟨(hsame heq).ge, ?_⟩
      rintro rfl
      exact h.2 (heq.trans (hK.negate_ne_null b hb))

/-- Undoing the minuses on both sides of a comparison keeps it, turned by them. -/
theorem Expr.undo_rel (hK : K.Lawful) {op : Operator}
    (hnot : e.hasNot = true → op = .eq ∨ op = .notEq) (hu : e.undo K u = some u')
    (ht : e.undo K t = some t') (h : (op.turn e.reverses).Rel u t) : op.Rel u' t' := by
  induction e generalizing op u' t' with
  | cast safe e castType ih | castColumn safe e target ih | tryCast e castType ih =>
    exact ih hnot hu ht h
  | negative e ih =>
    obtain ⟨u₁, hu₁, hu⟩ := Option.bind_eq_some_iff.mp hu
    obtain ⟨t₁, ht₁, ht⟩ := Option.bind_eq_some_iff.mp ht
    rw [Expr.reverses, Operator.turn_not] at h
    refine hK.negate_rel hu ht (ih (fun hn => ?_) hu₁ ht₁ h)
    rcases hnot hn with rfl | rfl
    · exact Or.inl rfl
    · exact Or.inr rfl
  | not arg _ => exact Operator.rel_not (hnot rfl) hu ht h
  | _ =>
    cases hu
    cases ht
    exact h

/-- Under a `NOT` only truth values can be undone, and then all of them. -/
theorem Expr.undo_of_hasNot (hK : K.Lawful) (hnot : e.hasNot = true) (ht : t ≠ .null)
    (h : e.undo K t = some t') :
    (∃ b, t = .boolean b) ∧ ∀ b, e.undo K (.boolean b) = some (.boolean !b) := by
  induction e generalizing t' with
  | cast safe e castType ih | castColumn safe e target ih | tryCast e castType ih =>
    exact ih hnot h
  | negative e ih =>
    obtain ⟨t₁, ht₁, h⟩ := Option.bind_eq_some_iff.mp h
    obtain ⟨⟨b, rfl⟩, hall⟩ := ih hnot ht₁
    rw [hall b] at ht₁
    cases ht₁
    rw [hK.negate_boolean] at h
    cases h
  | not arg _ =>
    cases t with
    | null => exact absurd rfl ht
    | boolean b => exact ⟨⟨b, rfl⟩, fun b => rfl⟩
    | _ => cases h
  | _ => cases hnot

/-! ### Keeping the order -/

def Operator.orEq : Operator → Operator
  | .lt => .ltEq
  | .gt => .gtEq
  | op => op

/-- The value `u` of the chain, undone, is not below `w` (for `op = <`), or not above it (for
`op = >`). Where it cannot be undone, no value on that side of `u` is undone to `w` or beyond. -/
def Expr.NotPast (K : Kernels D F) (e : Expr D F) (op : Operator) (u w : Scalar D) : Prop :=
  match e.undo K u with
  | some u' => ¬ op.Rel u' w
  | none => ∀ t t', e.undo K t = some t' → (op.turn e.reverses).Rel u t → ¬ op.orEq.Rel t' w

theorem Expr.notPast_null {op : Operator} : e.NotPast K op u .null := by
  unfold Expr.NotPast
  split
  · exact fun h => (Operator.rel_ne_null h).2 rfl
  · exact fun t t' _ _ h => (Operator.rel_ne_null h).2 rfl

/-- A comparison of two values that differ, by the side on which the second one lies. -/
theorem Operator.rel_turn_of_ne {reversed : Bool} {op : Operator} (hne : u ≠ t)
    (h : (op.turn reversed).Rel u t) :
    (op = .lt ∨ op = .ltEq ∨ op = .notEq) ∧ (Operator.lt.turn reversed).Rel u t ∨
      (op = .gt ∨ op = .gtEq ∨ op = .notEq) ∧ (Operator.gt.turn reversed).Rel u t := by
  cases reversed <;> cases op <;>
    simp only [Operator.turn, Operator.mirror, Operator.Rel, if_true, Bool.false_eq_true,
      if_false, reduceCtorEq, or_self, or_false, or_true, false_or, false_and, true_and] at h ⊢
  all_goals
    first
    | exact h
    | exact h.symm
    | exact absurd h.1 hne
    | exact h.1.lt_of_ne hne
    | exact h.1.lt_of_ne hne.symm

theorem BoundsExclude.low {op : Operator} {lo hi : Option (Scalar D)}
    (hop : op = .lt ∨ op = .ltEq ∨ op = .notEq) (h : BoundsExclude op lo hi t) :
    ∃ w, lo = some w ∧ Operator.ltEq.Rel t w := by
  rcases hop with rfl | rfl | rfl
  · exact h
  · obtain ⟨w, hw, hlt⟩ := h
    exact ⟨w, hw, hlt.le, (Scalar.ne_null_of_lt hlt).1⟩
  · exact ⟨t, h.1, le_rfl, h.2.2⟩

theorem BoundsExclude.high {op : Operator} {lo hi : Option (Scalar D)}
    (hop : op = .gt ∨ op = .gtEq ∨ op = .notEq) (h : BoundsExclude op lo hi t) :
    ∃ w, hi = some w ∧ Operator.gtEq.Rel t w := by
  rcases hop with rfl | rfl | rfl
  · exact h
  · obtain ⟨w, hw, hlt⟩ := h
    exact ⟨w, hw, hlt.le, (Scalar.ne_null_of_lt hlt).1⟩
  · exact ⟨t, h.2.1, le_rfl, h.2.2⟩

/-- Ends that the chain's value is not past do not exclude what it compares to. -/
theorem not_boundsExclude_undo (hK : K.Lawful) {op : Operator}
    (hnot : e.hasNot = true → op = .eq ∨ op = .notEq) {lo hi : Option (Scalar D)}
    (hlo : ∀ w, lo = some w → e.NotPast K .lt u w) (hhi : ∀ w, hi = some w → e.NotPast K .gt u w)
    (ht : e.undo K t = some t') (h : (op.turn e.reverses).Rel u t) :
    ¬ BoundsExclude op lo hi t' := by
  unfold Expr.NotPast at hlo hhi
  cases hu : e.undo K u with
  | some u' =>
    simp only [hu] at hlo hhi
    exact not_boundsExclude hlo hhi (e.undo_rel hK hnot hu ht h)
  | none =>
    simp only [hu] at hlo hhi
    have hne : u ≠ t := by
      rintro rfl
      rw [hu] at ht
      cases ht
    intro hexclude
    rcases Operator.rel_turn_of_ne hne h with ⟨hop, hside⟩ | ⟨hop, hside⟩
    · obtain ⟨w, hw, hle⟩ := hexclude.low hop
      exact hlo w hw t t' ht hside hle
    · obtain ⟨w, hw, hle⟩ := hexclude.high hop
      exact hhi w hw t t' ht hside hle

end Undo

/-! ### Values of a chain -/

section Values

variable {e : Expr D F} {c : Column} {row : List (Scalar D)} {u : Scalar D}

theorem exists_of_chain_eval (hc : e.chainColumn = some c) (h : e.eval K row = some u) :
    ∃ x, row[c.index]? = some x := by
  induction e generalizing u with
  | column c' =>
    cases hc
    exact ⟨u, h⟩
  | not e ih | negative e ih | cast _ e _ ih | castColumn _ e _ ih | tryCast e _ ih =>
    obtain ⟨v, hv, _⟩ := Option.bind_eq_some_iff.mp h
    exact ih hc hv
  | _ => cases hc

theorem chain_valueAt_null (hK : K.Lawful) (hc : e.chainColumn = some c) :
    e.valueAt K c .null = some .null := by
  induction e with
  | column c' =>
    cases hc
    exact Expr.valueAt_column c _
  | not e ih =>
    rw [Expr.valueAt, Expr.eval, ← Expr.valueAt, ih hc]
    rfl
  | negative e ih =>
    have hcolumns : e.columns = [c] := Expr.columns_of_chain hc
    rw [Expr.valueAt, Expr.eval, ← Expr.valueAt, ih hc, hcolumns]
    exact hK.negWrapping_null
  | cast _ e _ ih =>
    rw [Expr.valueAt, Expr.eval, ← Expr.valueAt, ih hc]
    exact hK.cast_null _ _
  | castColumn _ e _ ih =>
    rw [Expr.valueAt, Expr.eval, ← Expr.valueAt, ih hc]
    exact hK.castColumn_null _ _
  | tryCast e _ ih =>
    rw [Expr.valueAt, Expr.eval, ← Expr.valueAt, ih hc]
    exact hK.cast_null _ _
  | _ => cases hc

end Values

/-! ### Soundness -/

/-- A container whose column holds values of its type, with statistics that fit. -/
structure Container (D : Type) [LinearOrder D] (schema : Schema) (c : Column)
    (values : Set (Scalar D)) where
  rows : List (List (Scalar D))
  stat : StatisticsType → String → Scalar D
  consistent : Consistent schema rows stat
  row_mem : ∀ row ∈ rows, ∀ v, row[c.index]? = some v → v ≠ .null → v ∈ values
  min_mem : stat .min c.name ≠ .null → stat .min c.name ∈ values
  max_mem : stat .max c.name ≠ .null → stat .max c.name ∈ values

/-- No comparison of `e` with a column-free expression, on either side, is rewritten to one that
is false on a container with a row where the comparison is true. -/
def PrunesSoundly (K : Kernels D F) (schema : Schema) (c : Column) (values : Set (Scalar D))
    (e : Expr D F) : Prop :=
  ∀ (op : Operator) (s l r : Expr D F), op.isComparison = true → s.columns = [] →
    (l = e ∧ r = s ∨ l = s ∧ r = e) →
    ∀ container : Container D schema c values, ∀ row ∈ container.rows,
      (Expr.binary l op r).eval K row = some (.boolean true) →
      let built := buildPredicateExpression schema (.binary l op r) []
      built.2.eval K (statisticsRow container.stat built.1) ≠ some (.boolean false)

/-- For two values of the column's type in order, the chain at one of them, undone, is not past
the casts at the other. -/
def KeepsOrder (K : Kernels D F) (c : Column) (values : Set (Scalar D)) (e : Expr D F) : Prop :=
  ∀ x ∈ values, ∀ y ∈ values, ∀ u w, e.valueAt K c x = some u → u ≠ .null →
    e.casts.valueAt K c y = some w →
    (y ≤ x → e.NotPast K .lt u w) ∧ (x ≤ y → e.NotPast K .gt u w)

section Soundness

variable {schema : Schema} {c : Column} {f : Field} {values : Set (Scalar D)} {e : Expr D F}

omit [LinearOrder D] in
theorem buildPredicateExpression_comparison {l r : Expr D F} {op : Operator}
    (hop : op.isComparison = true) (required : RequiredColumns) :
    buildPredicateExpression schema (.binary l op r) required =
      buildComparison schema l op r required := by
  rw [buildPredicateExpression, if_neg]
  rintro (rfl | rfl) <;> cases hop

section Ends

variable {container : Container D schema c values} {row : List (Scalar D)} {x u w : Scalar D}
  (h : KeepsOrder K c values e) (hK : K.Lawful) (hc : e.chainColumn = some c)
  (hplaced : schema.columnWithName c.name = some (c.index, f)) (hrow : row ∈ container.rows)
  (hx : row[c.index]? = some x) (hxnull : x ≠ .null) (hu : e.valueAt K c x = some u)
  (hunull : u ≠ .null)

include h hK hc hplaced hrow hx hxnull hu hunull

/-- A bound that is missing excludes nothing, and any other is a value of the column's type. -/
theorem KeepsOrder.notPast_min (hw : e.casts.valueAt K c (container.stat .min c.name) = some w) :
    e.NotPast K .lt u w := by
  by_cases hmin : container.stat .min c.name = .null
  · rw [hmin, chain_valueAt_null hK (Expr.chainColumn_casts.trans hc)] at hw
    cases hw
    exact Expr.notPast_null
  · have hle := container.consistent.min_le _ _ _ hplaced hmin row hrow x hx hxnull
    have hxmem := container.row_mem row hrow x hx hxnull
    exact (h x hxmem _ (container.min_mem hmin) u w hu hunull hw).1 hle

theorem KeepsOrder.notPast_max (hw : e.casts.valueAt K c (container.stat .max c.name) = some w) :
    e.NotPast K .gt u w := by
  by_cases hmax : container.stat .max c.name = .null
  · rw [hmax, chain_valueAt_null hK (Expr.chainColumn_casts.trans hc)] at hw
    cases hw
    exact Expr.notPast_null
  · have hle := container.consistent.le_max _ _ _ hplaced hmax row hrow x hx hxnull
    have hxmem := container.row_mem row hrow x hx hxnull
    exact (h x hxmem _ (container.max_mem hmax) u w hu hunull hw).2 hle

end Ends

theorem prunesSoundly_of_keepsOrder (hK : K.Lawful) (hc : e.chainColumn = some c)
    (hplaced : schema.columnWithName c.name = some (c.index, f))
    (h : KeepsOrder K c values e) : PrunesSoundly K schema c values e := by
  intro op s l r hop hs hlr container row hrow htrue
  rw [buildPredicateExpression_comparison hop]
  cases hb : PruningExpressionBuilder.tryNew schema l op r with
  | none =>
    rw [buildComparison, hb]
    exact keeps_unhandled [] _ List.prefix_rfl
  | some b =>
    have hcolumns := Expr.columns_of_chain hc
    obtain ⟨ce, se, op₁, hsides, hrewrite, i, hfield⟩ := tryNew_spec hb
    obtain ⟨⟨hmem, hone⟩, hscalar, hcases⟩ := sides_spec hsides
    obtain ⟨hop₁, u, t, hu, ht, hrel⟩ := rel_of_eval_eq_true hop hsides htrue
    -- the side with the column is the chain
    obtain ⟨rfl, rfl⟩ : ce = e ∧ se = s := by
      have hce : ce ≠ s := by
        rintro rfl
        rw [hs] at hmem
        cases hmem
      rcases hcases with ⟨rfl, rfl, _⟩ | ⟨rfl, rfl, _⟩ <;> rcases hlr with ⟨rfl, rfl⟩ | ⟨rfl, rfl⟩
      · exact ⟨rfl, rfl⟩
      · exact absurd rfl hce
      · exact absurd rfl hce
      · exact ⟨rfl, rfl⟩
    obtain rfl : b.column = c := by
      rw [hcolumns] at hmem
      exact List.mem_singleton.mp hmem
    obtain ⟨hcasts, hturn, hnot⟩ := rewriteExprToPrunable_eq hop₁ hrewrite
    obtain rfl : op₁ = b.op.turn ce.reverses := by rw [hturn, Operator.turn_turn]
    obtain ⟨x, hx⟩ := exists_of_chain_eval hc hu
    rw [Expr.eval_eq_valueAt hone hx] at hu
    have hunull := (Operator.rel_ne_null hrel).1
    have hxnull : x ≠ .null := by
      rintro rfl
      rw [chain_valueAt_null hK hc] at hu
      exact hunull (Option.some.inj hu).symm
    have hbounds : ∀ t', b.scalarExpr.eval K [] = some t' →
        ¬ BoundsExclude b.op (b.lowEnd K container.stat) (b.highEnd K container.stat) t' := by
      intro t' ht'
      rw [rewriteExprToPrunable_eval hrewrite hs, ht] at ht'
      refine not_boundsExclude_undo hK (fun hn => ?_) (fun w hw => ?_) (fun w hw => ?_) ht' hrel
      · exact Operator.isEquation_of_turn (hnot hn)
      · rw [PruningExpressionBuilder.lowEnd, hcasts] at hw
        exact h.notPast_min hK hc hplaced hrow hx hxnull hu hunull hw
      · rw [PruningExpressionBuilder.highEnd, hcasts] at hw
        exact h.notPast_max hK hc hplaced hrow hx hxnull hu hunull hw
    have hone' : ∀ c' ∈ b.columnExpr.columns, c' = b.column :=
      (rewriteExprToPrunable_spec hrewrite).2.1 ▸ hone
    rw [Operator.isComparison_turn] at hop₁
    obtain ⟨built, hbuilt, hkeeps⟩ := buildStatisticsExpr_ne_false [] hop₁ hone'
      ((rewriteExprToPrunable_spec hrewrite).2.2.trans hs) container.consistent hplaced hrow hx
      hxnull hbounds
    rw [buildComparison_eq hb hbuilt]
    exact hkeeps _ List.prefix_rfl

/-! The converse takes a chain that does not keep the order to a container of one row, of which
one bound is known. -/

/-- The container with the one row `x` and the given bounds. -/
def Container.single (hplaced : schema.columnWithName c.name = some (c.index, f))
    {x lo hi : Scalar D} (hx : x ∈ values) (hlo : lo ≠ .null → lo ∈ values ∧ lo ≤ x)
    (hhi : hi ≠ .null → hi ∈ values ∧ x ≤ hi) : Container D schema c values where
  rows := [List.replicate (c.index + 1) x]
  stat := onlyBounds c lo hi
  consistent := consistent_onlyBounds hplaced (fun h => (hlo h).2) (fun h => (hhi h).2)
  row_mem := by
    intro row hrow v hv _
    obtain rfl := List.mem_singleton.mp hrow
    rw [List.getElem?_replicate_of_lt (Nat.lt_succ_self _)] at hv
    cases hv
    exact hx
  min_mem := by
    rw [onlyBounds_min]
    exact fun h => (hlo h).1
  max_mem := by
    rw [onlyBounds_max]
    exact fun h => (hhi h).1

section Necessity

variable (haccept : (rewriteExprToPrunable schema e .eq (.literal .null)).isSome = true)
  (hc : e.chainColumn = some c)
  (hplaced : schema.columnWithName c.name = some (c.index, f))

include haccept hc hplaced

theorem tryNew_of_chain {op : Operator} (hop : op.isComparison = true)
    (hnot : e.hasNot = true → op = .eq ∨ op = .notEq) {s : Expr D F} (hs : s.columns = []) :
    ∃ s', PruningExpressionBuilder.tryNew schema e op s =
        some ⟨c, e.casts, op.turn e.reverses, s', f⟩ ∧
      s'.columns = [] ∧ s'.eval K [] = (s.eval K []).bind (e.undo K) := by
  obtain ⟨⟨e', op', s'⟩, hrewrite⟩ := Option.isSome_iff_exists.mp
    (rewriteExprToPrunable_accepts haccept hop hnot s)
  obtain ⟨rfl, rfl, _⟩ := rewriteExprToPrunable_eq hop hrewrite
  refine ⟨s', ?_, (rewriteExprToPrunable_spec hrewrite).2.2.trans hs,
    rewriteExprToPrunable_eval hrewrite hs⟩
  have hsides : PruningExpressionBuilder.sides e op s = some (e, s, c, op) := by
    simp [PruningExpressionBuilder.sides, ColumnReferenceCount.fromExpression,
      Expr.columns_of_chain hc, hs]
  simp [PruningExpressionBuilder.tryNew, hsides, hrewrite, hplaced]

section Single

variable {x u lo hi : Scalar D} (hx : x ∈ values) (hu : e.valueAt K c x = some u)
  (hlo : lo ≠ .null → lo ∈ values ∧ lo ≤ x) (hhi : hi ≠ .null → hi ∈ values ∧ x ≤ hi)
  (hsound : PrunesSoundly K schema c values e)

include hx hu hlo hhi hsound

/-- Bounds of a value do not exclude what the chain's value compares to. -/
theorem boundsValue_ne_false (t : Scalar D) (op : Operator) (hop : op.isComparison = true)
    (hnot : e.hasNot = true → op = .eq ∨ op = .notEq) (hrel : op.Rel u t) :
    boundsValue (op.turn e.reverses) (e.casts.valueAt K c lo) (e.casts.valueAt K c hi)
      (e.undo K t) ≠ some (.boolean false) := by
  intro hfalse
  obtain ⟨s', hb, hs', heval⟩ := tryNew_of_chain (K := K) haccept hc hplaced hop hnot
    (s := .literal t) rfl
  have htrue : (Expr.binary e op (.literal t)).eval K (List.replicate (c.index + 1) x) =
      some (.boolean true) := by
    rw [eval_comparison hop, ← Expr.valueAt, hu]
    exact compareValues_eq_true.mpr hrel
  refine hsound op (.literal t) e (.literal t) hop rfl (Or.inl ⟨rfl, rfl⟩)
    (.single hplaced hx hlo hhi) _ List.mem_cons_self htrue ?_
  have hcolumns := Expr.columns_of_chain (Expr.chainColumn_casts.trans hc)
  obtain ⟨built, hbuilt, hvalue⟩ := buildStatisticsExpr_spec K (onlyBounds c lo hi) []
    (b := ⟨c, e.casts, op.turn e.reverses, s', f⟩) ((Operator.isComparison_turn ..).trans hop)
    (fun c' hc' => List.mem_singleton.mp (hcolumns ▸ hc')) hs'
  obtain ⟨name, hname⟩ := hvalue _ List.prefix_rfl
  rw [buildPredicateExpression_comparison hop, buildComparison_eq hb hbuilt]
  refine hname.trans ?_
  -- the counts are not known, so the bounds decide
  rw [PruningExpressionBuilder.lowEnd, PruningExpressionBuilder.highEnd, onlyBounds_min,
    onlyBounds_max, onlyBounds_nullCount, onlyBounds_rowCount, heval]
  exact congrArg (andValues (some .null)) hfalse

/-- One side of the order, where `w` is the value of the casts at the bound of that side. -/
theorem notPast_of_prunesSoundly (hK : K.Lawful) (hunull : u ≠ .null) {w : Scalar D}
    {op : Operator} (hop : op = .lt ∨ op = .gt)
    (heq : ∀ v, op.Rel v w → boundsValue .eq (e.casts.valueAt K c lo) (e.casts.valueAt K c hi)
      (some v) = some (.boolean false))
    (hstrict : ∀ v, op.orEq.Rel v w → boundsValue op (e.casts.valueAt K c lo)
      (e.casts.valueAt K c hi) (some v) = some (.boolean false)) : e.NotPast K op u w := by
  have hne := boundsValue_ne_false haccept hc hplaced hx hu hlo hhi hsound
  unfold Expr.NotPast
  cases hundo : e.undo K u with
  | some u' =>
    intro hpast
    refine hne u .eq rfl (fun _ => Or.inl rfl) ⟨rfl, hunull⟩ ?_
    have hturn : Operator.eq.turn e.reverses = .eq := by cases e.reverses <;> rfl
    rw [hturn, hundo]
    exact heq u' hpast
  | none =>
    intro t t' ht hside hpast
    have hcomparison : (op.turn e.reverses).isComparison = true := by
      rw [Operator.isComparison_turn]
      rcases hop with rfl | rfl <;> rfl
    have hlt : u < t ∨ t < u := by
      rcases hop with rfl | rfl <;> cases hr : e.reverses <;> rw [hr] at hside
      · exact Or.inl hside
      · exact Or.inr hside
      · exact Or.inr hside
      · exact Or.inl hside
    -- under a `NOT` the value could be undone
    have hnot : e.hasNot = true → op.turn e.reverses = .eq ∨ op.turn e.reverses = .notEq := by
      intro hnot
      have htnull : t ≠ .null := (Operator.rel_ne_null hside).2
      obtain ⟨⟨b, rfl⟩, hall⟩ := e.undo_of_hasNot hK hnot htnull ht
      obtain ⟨a, rfl⟩ : ∃ a, u = .boolean a := by
        rw [← Scalar.cmp_eq_lt, ← Scalar.cmp_eq_lt] at hlt
        cases u <;> simp [Scalar.cmp] at hlt ⊢
      rw [hall a] at hundo
      cases hundo
    refine hne t _ hcomparison hnot hside ?_
    rw [Operator.turn_turn, ht]
    exact hstrict t' hpast

end Single

theorem keepsOrder_of_prunesSoundly (hK : K.Lawful) (h : PrunesSoundly K schema c values e) :
    KeepsOrder K c values e := by
  intro x hx y hy u w hu hunull hw
  have hnull : e.casts.valueAt K c .null = some .null :=
    chain_valueAt_null hK (Expr.chainColumn_casts.trans hc)
  have hmissing : ∀ {P : Prop}, (Scalar.null : Scalar D) ≠ .null → P := fun h => absurd rfl h
  refine ⟨fun hle => ?_, fun hle => ?_⟩
  · refine notPast_of_prunesSoundly haccept hc hplaced hx hu (fun _ => ⟨hy, hle⟩) hmissing
      h hK hunull (Or.inl rfl) (fun v hpast => ?_) (fun v hpast => ?_)
    · have hfalse : compareValues .ltEq w v = some (.boolean false) :=
        compareValues_eq_false.mpr hpast
      simp [boundsValue, hw, compareResults, hfalse, andValues]
    · have hfalse : compareValues .lt w v = some (.boolean false) :=
        compareValues_eq_false.mpr hpast
      simp [boundsValue, hw, compareResults, hfalse]
  · refine notPast_of_prunesSoundly haccept hc hplaced hx hu hmissing (fun _ => ⟨hy, hle⟩)
      h hK hunull (Or.inr rfl) (fun v hpast => ?_) (fun v hpast => ?_)
    · have hfalse : compareValues .ltEq v w = some (.boolean false) :=
        compareValues_eq_false.mpr hpast
      have hunknown : compareValues .ltEq .null v = some .null := rfl
      simp [boundsValue, hw, hnull, compareResults, hfalse, hunknown, andValues]
    · have hfalse : compareValues .gt w v = some (.boolean false) :=
        compareValues_eq_false.mpr hpast
      simp [boundsValue, hw, compareResults, hfalse]

/-- Pruning through a chain is sound exactly when the chain keeps the order of its column. -/
theorem prunesSoundly_iff_keepsOrder (hK : K.Lawful) :
    PrunesSoundly K schema c values e ↔ KeepsOrder K c values e :=
  ⟨keepsOrder_of_prunesSoundly haccept hc hplaced hK,
    prunesSoundly_of_keepsOrder hK hc hplaced⟩

end Necessity

end Soundness

/-! ### `Int64` -/

/-- The kernels on `Int64` columns: the minus of an array wraps, that of a single value fails on
the least one, and a cast to `BOOLEAN` asks whether a value differs from zero. -/
def int64Kernels : Kernels ℤ Empty where
  cast _ castType
    | .null => some .null
    | .datum d => if castType = .boolean then some (.boolean (d ≠ 0)) else none
    | _ => none
  castColumn _ _
    | .null => some .null
    | _ => none
  negWrapping
    | .null => some .null
    | .datum d => some (.datum ((-d).bmod (2 ^ 64)))
    | _ => none
  arithmeticNegate
    | .null => some .null
    | .datum d => if d = -2 ^ 63 then none else some (.datum (-d))
    | _ => none
  operator _ _ _ := none
  function g _ := nomatch g

theorem int64Kernels_negate {a a' : Scalar ℤ} (h : int64Kernels.arithmeticNegate a = some a') :
    a = .null ∧ a' = .null ∨ ∃ d, a = .datum d ∧ a' = .datum (-d) := by
  cases a with
  | null =>
    cases h
    exact Or.inl ⟨rfl, rfl⟩
  | datum d =>
    obtain ⟨_, h⟩ := Option.ite_none_left_eq_some.mp h
    cases h
    exact Or.inr ⟨d, rfl, rfl⟩
  | _ => cases h

theorem int64Kernels_lawful : int64Kernels.Lawful where
  cast_null _ _ := rfl
  castColumn_null _ _ := rfl
  negWrapping_null := rfl
  negate_lt a b a' b' ha hb hlt := by
    rcases int64Kernels_negate ha with ⟨rfl, _⟩ | ⟨d, rfl, rfl⟩
    · exact absurd rfl (Scalar.ne_null_of_lt hlt).1
    rcases int64Kernels_negate hb with ⟨rfl, _⟩ | ⟨d', rfl, rfl⟩
    · exact absurd rfl (Scalar.ne_null_of_lt hlt).2
    exact Scalar.datum_lt.mpr (neg_lt_neg (Scalar.datum_lt.mp hlt))
  negate_ne_null a ha := by
    rcases int64Kernels_negate ha with ⟨rfl, _⟩ | ⟨d, _, hd⟩
    · rfl
    · cases hd
  negate_boolean _ := rfl

/-- The minus of an `Int64` column keeps the order on all values but the least. -/
theorem minus_sound_above_least :
    PrunesSoundly int64Kernels [⟨"x", .other "Int64"⟩] ⟨"x", 0⟩
      {v | ∃ d, v = .datum d ∧ -2 ^ 63 < d ∧ d < 2 ^ 63} (.negative (.column ⟨"x", 0⟩)) := by
  refine (prunesSoundly_iff_keepsOrder rfl rfl rfl int64Kernels_lawful).mpr ?_
  intro x hx y hy u w hu _ hw
  obtain ⟨a, rfl, halo, hahi⟩ := hx
  obtain ⟨b, rfl, _, _⟩ := hy
  have hwrap : (-a).bmod (2 ^ 64) = -a := by
    rw [Int.bmod_def]
    omega
  have hundo : (Expr.negative (.column ⟨"x", 0⟩) : Expr ℤ Empty).undo int64Kernels (.datum (-a)) =
      some (.datum a) := by
    show (if -a = -2 ^ 63 then none else some (Scalar.datum (- -a))) = _
    rw [if_neg (by omega), neg_neg]
  obtain rfl : Scalar.datum (-a) = u := by
    rw [← hwrap]
    exact Option.some.inj hu
  obtain rfl : Scalar.datum b = w := Option.some.inj hw
  unfold Expr.NotPast
  rw [hundo]
  exact ⟨fun hle => hle.not_gt, fun hle => hle.not_gt⟩

/-- Two comparisons that are true on a row and rewritten to ones that are false on the statistics
of its container: `-x < 10` on the least value, whose minus wraps to itself, and
`CAST(x AS BOOLEAN) = false` on zero, which lies between two values that are true. -/
theorem minus_and_boolean_cast_unsound :
    let x : Expr ℤ Empty := .column ⟨"x", 0⟩
    let schema : Schema := [⟨"x", .other "Int64"⟩]
    let prunes := fun (vs : List (Scalar ℤ)) (e : Expr ℤ Empty) => ∃ stat row,
      Consistent schema (vs.map ([·])) stat ∧ row ∈ vs.map ([·]) ∧
      e.eval int64Kernels row = some (.boolean true) ∧
      (buildPredicateExpression schema e []).2.eval int64Kernels
        (statisticsRow stat (buildPredicateExpression schema e []).1) = some (.boolean false)
    prunes [.datum (-2 ^ 63)] (.binary (.negative x) .lt (.literal (.datum 10))) ∧
    prunes [.datum (-1), .datum 0, .datum 1]
      (.binary (.cast false x .boolean) .eq (.literal (.boolean false))) := by
  intro x schema prunes
  refine ⟨⟨exactStatistics (.datum (-2 ^ 63)) (.datum (-2 ^ 63)) 1, [.datum (-2 ^ 63)], ?_, ?_, ?_,
      ?_⟩,
    ⟨exactStatistics (.datum (-1)) (.datum 1) 3, [.datum 0], ?_, ?_, ?_, ?_⟩⟩
  · exact consistent_oneColumn (by simp [exactStatistics]) (by simp [exactStatistics]) rfl
      fun _ => rfl
  · exact List.mem_cons_self
  · decide
  · decide
  · exact consistent_oneColumn (by simp [exactStatistics]) (by simp [exactStatistics]) rfl
      fun _ => rfl
  · simp
  · decide
  · decide

end PredicateTransfer.Pruning
