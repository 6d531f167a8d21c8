import Mathlib.Tactic
import PredicateTransfer.Lib.Utf8

/-!
# Values and operators of the pruning predicate

Values are compared in a total order within a type and not at all across types; `NULL` makes every
comparison `NULL`. Within a type the order is a linear one, so `Scalar D` is a partial order whose
comparable values are those of one type. `AND` and `OR` are three-valued and look at their right
operand only where the left one does not decide them.
-/

namespace PredicateTransfer.Pruning

/-! ### LIKE patterns

`%` stands for any string, `_` for any character, and a backslash takes the character after it
literally; a backslash at the end is a literal one. -/

inductive Token
  | char (c : Char)
  | one
  | many
  deriving DecidableEq, Repr

def tokenize : List Char → List Token
  | [] => []
  | c :: rest =>
    if c = '\\' then
      match rest with
      | [] => [.char '\\']
      | d :: rest' => .char d :: tokenize rest'
    else if c = '%' then .many :: tokenize rest
    else if c = '_' then .one :: tokenize rest
    else .char c :: tokenize rest

def tokensMatch : List Token → List Char → Bool
  | [], s => s.isEmpty
  | .char c :: ts, s => match s with
    | x :: s' => x == c && tokensMatch ts s'
    | [] => false
  | .one :: ts, s => match s with
    | _ :: s' => tokensMatch ts s'
    | [] => false
  | .many :: ts, s => s.tails.any fun s' => tokensMatch ts s'

def like (pattern s : List Char) : Bool := tokensMatch (tokenize pattern) s

/-! ### Values -/

inductive Scalar (D : Type)
  | null
  | boolean (b : Bool)
  | uint64 (n : Nat)
  | utf8 (s : List Char)
  | datum (d : D)
  deriving DecidableEq, Repr

namespace Scalar

variable {D : Type}

def isNull : Scalar D → Bool
  | .null => true
  | _ => false

/-- `NOT`: an error on anything but a truth value. -/
def not : Scalar D → Option (Scalar D)
  | .null => some .null
  | .boolean b => some (.boolean !b)
  | _ => none

theorem not_eq_boolean {v : Scalar D} {b : Bool} :
    v.not = some (.boolean b) ↔ v = .boolean !b := by
  cases v <;> simp [not, Bool.not_eq_eq_eq_not]

theorem not_not {u v : Scalar D} (h : v.not = some u) : u.not = some v := by
  cases v <;> cases h <;> simp [not]

theorem isNull_eq_true {v : Scalar D} : v.isNull = true ↔ v = .null := by
  cases v <;> simp [isNull]

end Scalar

/-- How two elements of a linear order compare. -/
def order {α : Type} [LinearOrder α] (a b : α) : Ordering :=
  if a < b then .lt else if b < a then .gt else .eq

section Order

variable {α : Type} [LinearOrder α] {a b : α}

theorem order_eq_lt : order a b = .lt ↔ a < b := by
  unfold order
  split_ifs <;> simp_all

theorem order_eq_gt : order a b = .gt ↔ b < a := by
  unfold order
  split_ifs with hab
  · simp [hab.le]
  all_goals simp_all

theorem order_eq_eq : order a b = .eq ↔ a = b := by
  unfold order
  split_ifs with hab hba
  · simp [hab.ne]
  · simp [hba.ne']
  · simp [le_antisymm (not_lt.mp hba) (not_lt.mp hab)]

end Order

namespace Scalar

variable {D : Type} [LinearOrder D]

/-- The order of two values of one type. Strings are compared by their bytes. -/
def cmp : Scalar D → Scalar D → Option Ordering
  | .boolean a, .boolean b => some (order a b)
  | .uint64 a, .uint64 b => some (order a b)
  | .utf8 a, .utf8 b => some (order (Utf8.bytes a) (Utf8.bytes b))
  | .datum a, .datum b => some (order a b)
  | _, _ => none

theorem cmp_eq_eq {a b : Scalar D} : a.cmp b = some .eq ↔ a = b ∧ a ≠ .null := by
  cases a <;> cases b <;> simp [cmp, order_eq_eq, Utf8.bytes_inj]

theorem cmp_eq_gt {a b : Scalar D} : a.cmp b = some .gt ↔ b.cmp a = some .lt := by
  cases a <;> cases b <;> simp [cmp, order_eq_gt, order_eq_lt]

theorem cmp_lt_trans {a b c : Scalar D} (hab : a.cmp b = some .lt) (hbc : b.cmp c = some .lt) :
    a.cmp c = some .lt := by
  cases a <;> cases b <;> cases c <;> simp only [cmp, Option.some.injEq, reduceCtorEq] at hab hbc ⊢
  all_goals
    rw [order_eq_lt] at hab hbc ⊢
    exact hab.trans hbc

/-- Values of one type are ordered linearly; values of two types, and `NULL`, are incomparable. -/
instance : PartialOrder (Scalar D) where
  le a b := a = b ∨ a.cmp b = some .lt
  lt a b := a.cmp b = some .lt
  le_refl a := Or.inl rfl
  le_trans a b c := by
    intro hab hbc
    rcases hab with rfl | hab
    · exact hbc
    rcases hbc with rfl | hbc
    · exact Or.inr hab
    · exact Or.inr (cmp_lt_trans hab hbc)
  lt_iff_le_not_ge a b := by
    have asymm : a.cmp b = some .lt → b.cmp a ≠ some .lt := by
      intro hab hba
      rw [← cmp_eq_gt, hab] at hba
      cases hba
    refine ⟨fun h => ⟨Or.inr h, ?_⟩, fun h => ?_⟩
    · intro hba
      rcases hba with rfl | hba
      · exact asymm h h
      · exact asymm h hba
    · rcases h.1 with rfl | hab
      · exact absurd (Or.inl rfl) h.2
      · exact hab
  le_antisymm a b := by
    intro hab hba
    rcases hab with rfl | hab
    · rfl
    rcases hba with rfl | hba
    · rfl
    · rw [← cmp_eq_gt, hab] at hba
      cases hba

theorem cmp_eq_lt {a b : Scalar D} : a.cmp b = some .lt ↔ a < b := Iff.rfl

@[simp] theorem boolean_lt {a b : Bool} : (boolean a : Scalar D) < boolean b ↔ a < b := by
  rw [← cmp_eq_lt]
  simp [cmp, order_eq_lt]

@[simp] theorem uint64_lt {a b : Nat} : (uint64 a : Scalar D) < uint64 b ↔ a < b := by
  rw [← cmp_eq_lt]
  simp [cmp, order_eq_lt]

@[simp] theorem utf8_lt {a b : List Char} : (utf8 a : Scalar D) < utf8 b ↔ a < b := by
  rw [← cmp_eq_lt]
  simp [cmp, order_eq_lt, Utf8.bytes_lt_iff]

@[simp] theorem datum_lt {a b : D} : (datum a) < datum b ↔ a < b := by
  rw [← cmp_eq_lt]
  simp [cmp, order_eq_lt]

@[simp] theorem datum_le {a b : D} : datum a ≤ datum b ↔ a ≤ b := by
  rw [le_iff_lt_or_eq, le_iff_lt_or_eq, datum_lt, datum.injEq]

@[simp] theorem utf8_le {a b : List Char} : (utf8 a : Scalar D) ≤ utf8 b ↔ a ≤ b := by
  rw [le_iff_lt_or_eq, le_iff_lt_or_eq, utf8_lt, utf8.injEq]

theorem ne_null_of_lt {a b : Scalar D} (h : a < b) : a ≠ .null ∧ b ≠ .null := by
  rw [← cmp_eq_lt] at h
  cases a <;> cases b <;> simp_all [cmp]

end Scalar

/-! ### Operators -/

inductive Operator
  | eq | notEq | lt | ltEq | gt | gtEq
  | and | or
  | likeMatch | notLikeMatch | iLikeMatch | notILikeMatch
  | atArrow | arrowAt
  | other (name : String)
  deriving DecidableEq, Repr

namespace Operator

/-- The operator that gives the same result with its operands exchanged. -/
def swap : Operator → Option Operator
  | .eq => some .eq
  | .notEq => some .notEq
  | .lt => some .gt
  | .ltEq => some .gtEq
  | .gt => some .lt
  | .gtEq => some .ltEq
  | .atArrow => some .arrowAt
  | .arrowAt => some .atArrow
  | _ => none

/-- Whether an order satisfies a comparison operator; `none` for the other operators. -/
def holds : Operator → Ordering → Option Bool
  | .eq, o => some (o == .eq)
  | .notEq, o => some (o != .eq)
  | .lt, o => some (o == .lt)
  | .ltEq, o => some (o != .gt)
  | .gt, o => some (o == .gt)
  | .gtEq, o => some (o != .lt)
  | _, _ => none

/-- The six comparison operators. -/
def isComparison : Operator → Bool
  | .eq | .notEq | .lt | .ltEq | .gt | .gtEq => true
  | _ => false

end Operator

section Connectives

variable {D : Type}

/-- `AND` returns its left operand when that is false and its right one when it is true; the right
operand is not looked at in the first case. -/
def andValues : Option (Scalar D) → Option (Scalar D) → Option (Scalar D)
  | some (.boolean false), _ => some (.boolean false)
  | some (.boolean true), r => r
  | some .null, some (.boolean false) => some (.boolean false)
  | some .null, some (.boolean true) | some .null, some .null => some .null
  | _, _ => none

def orValues : Option (Scalar D) → Option (Scalar D) → Option (Scalar D)
  | some (.boolean true), _ => some (.boolean true)
  | some (.boolean false), r => r
  | some .null, some (.boolean true) => some (.boolean true)
  | some .null, some (.boolean false) | some .null, some .null => some .null
  | _, _ => none

variable {l r : Option (Scalar D)}

theorem andValues_eq_true :
    andValues l r = some (.boolean true) ↔ l = some (.boolean true) ∧ r = some (.boolean true) := by
  unfold andValues
  split <;> simp_all

theorem andValues_eq_false (h : andValues l r = some (.boolean false)) :
    l = some (.boolean false) ∨ r = some (.boolean false) := by
  unfold andValues at h
  split at h <;> simp_all

theorem orValues_eq_true (h : orValues l r = some (.boolean true)) :
    l = some (.boolean true) ∨ r = some (.boolean true) := by
  unfold orValues at h
  split at h <;> simp_all

theorem orValues_eq_false : orValues l r = some (.boolean false) ↔
    l = some (.boolean false) ∧ r = some (.boolean false) := by
  unfold orValues
  split <;> simp_all

end Connectives

section Comparisons

variable {D : Type} [LinearOrder D]

/-- A comparison is `NULL` on `NULL` and an error on values of unlike types. -/
def compareValues (op : Operator) : Scalar D → Scalar D → Option (Scalar D)
  | .null, _ | _, .null => some .null
  | a, b => (a.cmp b).bind fun o => (op.holds o).map .boolean

def likeValues (negated : Bool) : Scalar D → Scalar D → Option (Scalar D)
  | .null, _ | _, .null => some .null
  | .utf8 s, .utf8 p => some (.boolean (like p s != negated))
  | _, _ => none

/-- `v IN (items)`: the comparisons with the items, joined by `OR` from the left. -/
def inListValue (v : Scalar D) (items : List (Option (Scalar D))) : Option (Scalar D) :=
  items.foldl (fun found item => orValues found (item.bind (compareValues .eq v)))
    (some (.boolean false))

variable {a b v : Scalar D}

theorem compareValues_eq_boolean {op : Operator} {c : Bool} :
    compareValues op a b = some (.boolean c) ↔ ∃ o, a.cmp b = some o ∧ op.holds o = some c := by
  cases a <;> cases b <;>
    simp [compareValues, Scalar.cmp, Option.map_eq_some_iff]

theorem exists_cmp {P : Ordering → Prop} : (∃ o, a.cmp b = some o ∧ P o) ↔
    a < b ∧ P .lt ∨ (a = b ∧ a ≠ .null) ∧ P .eq ∨ b < a ∧ P .gt := by
  refine ⟨fun h => ?_, fun h => ?_⟩
  · obtain ⟨o, ho, hP⟩ := h
    cases o with
    | lt => exact Or.inl ⟨ho, hP⟩
    | eq => exact Or.inr (Or.inl ⟨Scalar.cmp_eq_eq.mp ho, hP⟩)
    | gt => exact Or.inr (Or.inr ⟨Scalar.cmp_eq_gt.mp ho, hP⟩)
  · rcases h with ⟨h, hP⟩ | ⟨h, hP⟩ | ⟨h, hP⟩
    · exact ⟨.lt, h, hP⟩
    · exact ⟨.eq, Scalar.cmp_eq_eq.mpr h, hP⟩
    · exact ⟨.gt, Scalar.cmp_eq_gt.mpr h, hP⟩

/-- What a comparison says of two values when it is true. -/
def Operator.Rel (op : Operator) (a b : Scalar D) : Prop :=
  match op with
  | .eq => a = b ∧ a ≠ .null
  | .notEq => a < b ∨ b < a
  | .lt => a < b
  | .ltEq => a ≤ b ∧ a ≠ .null
  | .gt => b < a
  | .gtEq => b ≤ a ∧ b ≠ .null
  | _ => False

/-- The comparison that is true where this one is false. -/
def Operator.negate : Operator → Operator
  | .eq => .notEq
  | .notEq => .eq
  | .lt => .gtEq
  | .ltEq => .gt
  | .gt => .ltEq
  | .gtEq => .lt
  | op => op

theorem le_and_ne_null_iff : a ≤ b ∧ a ≠ .null ↔ a < b ∨ a = b ∧ a ≠ .null := by
  rw [le_iff_lt_or_eq, or_and_right]
  exact or_congr_left ⟨fun h => h.1, fun h => ⟨h, (Scalar.ne_null_of_lt h).1⟩⟩

theorem compareValues_eq_true {op : Operator} :
    compareValues op a b = some (.boolean true) ↔ op.Rel a b := by
  rw [compareValues_eq_boolean, exists_cmp]
  cases op with
  | ltEq =>
    show _ ↔ a ≤ b ∧ a ≠ .null
    rw [le_and_ne_null_iff]
    simp [Operator.holds]
  | gtEq =>
    show _ ↔ b ≤ a ∧ b ≠ .null
    rw [le_and_ne_null_iff]
    by_cases hab : a = b
    · simp [Operator.holds, hab]
    · simp [Operator.holds, hab, Ne.symm hab]
  | _ => simp [Operator.holds, Operator.Rel]

theorem Operator.holds_negate {op : Operator} {o : Ordering} :
    op.holds o = some false ↔ op.negate.holds o = some true := by
  cases op <;> cases o <;> simp [Operator.holds, Operator.negate]

theorem compareValues_eq_false {op : Operator} :
    compareValues op a b = some (.boolean false) ↔ op.negate.Rel a b := by
  rw [← compareValues_eq_true, compareValues_eq_boolean, compareValues_eq_boolean]
  exact exists_congr fun o => and_congr_right fun _ => Operator.holds_negate

/-- Exchanging the operands and swapping the operator gives the same relation. -/
theorem Operator.rel_swap {op op' : Operator} (h : op.swap = some op') :
    op.Rel a b ↔ op'.Rel b a := by
  cases op <;> simp only [Operator.swap, Option.some.injEq, reduceCtorEq] at h <;> subst h <;>
    simp only [Operator.Rel]
  case eq => constructor <;> rintro ⟨rfl, h⟩ <;> exact ⟨rfl, h⟩
  case notEq => exact or_comm

theorem Operator.rel_ne_null {op : Operator} (h : op.Rel a b) : a ≠ .null ∧ b ≠ .null := by
  cases op <;> simp only [Operator.Rel] at h
  case eq => exact ⟨h.2, h.1 ▸ h.2⟩
  case notEq =>
    rcases h with h | h
    · exact Scalar.ne_null_of_lt h
    · exact (Scalar.ne_null_of_lt h).symm
  case lt => exact Scalar.ne_null_of_lt h
  case ltEq =>
    rcases le_and_ne_null_iff.mp h with hlt | ⟨rfl, ha⟩
    · exact Scalar.ne_null_of_lt hlt
    · exact ⟨ha, ha⟩
  case gt => exact (Scalar.ne_null_of_lt h).symm
  case gtEq =>
    rcases le_and_ne_null_iff.mp h with hlt | ⟨rfl, hb⟩
    · exact (Scalar.ne_null_of_lt hlt).symm
    · exact ⟨hb, hb⟩

/-- An equation stays one when both its sides are negated. -/
theorem Operator.rel_not {op : Operator} (hop : op = .eq ∨ op = .notEq) {a' b' : Scalar D}
    (ha : a.not = some a') (hb : b.not = some b') (h : op.Rel a b) : op.Rel a' b' := by
  obtain ⟨hanull, hbnull⟩ := Operator.rel_ne_null h
  rw [← compareValues_eq_true] at h ⊢
  cases a <;> cases b <;> cases ha <;> cases hb
  case boolean.boolean x y => rcases hop with rfl | rfl <;> cases x <;> cases y <;> exact h
  all_goals contradiction

omit [LinearOrder D] in
theorem likeValues_eq_boolean {negated c : Bool} {p : List Char} :
    likeValues negated a (.utf8 p) = some (.boolean c) ↔
      ∃ s, a = .utf8 s ∧ (like p s != negated) = c := by
  cases a <;> simp [likeValues]

/-! ### IN lists -/

theorem inListValue_eq_true {items : List (Option (Scalar D))}
    (h : inListValue v items = some (.boolean true)) :
    ∃ item ∈ items, item.bind (compareValues .eq v) = some (.boolean true) := by
  unfold inListValue at h
  -- the accumulator is true only if it was so before or a comparison made it so
  have key : ∀ (items : List (Option (Scalar D))) (found : Option (Scalar D)),
      items.foldl (fun found item => orValues found (item.bind (compareValues .eq v))) found =
        some (.boolean true) →
      found = some (.boolean true) ∨
        ∃ item ∈ items, item.bind (compareValues .eq v) = some (.boolean true) := by
    intro items
    induction items with
    | nil => exact fun found h => Or.inl h
    | cons item items ih =>
      intro found h
      rcases ih _ h with h | ⟨x, hx, hv⟩
      · rcases orValues_eq_true h with h | h
        · exact Or.inl h
        · exact Or.inr ⟨item, List.mem_cons_self, h⟩
      · exact Or.inr ⟨x, List.mem_cons_of_mem _ hx, hv⟩
  rcases key items _ h with h | h
  · cases h
  · exact h

theorem inListValue_eq_false {items : List (Option (Scalar D))}
    (h : inListValue v items = some (.boolean false)) :
    ∀ item ∈ items, item.bind (compareValues .eq v) = some (.boolean false) := by
  unfold inListValue at h
  have key : ∀ (items : List (Option (Scalar D))) (found : Option (Scalar D)),
      items.foldl (fun found item => orValues found (item.bind (compareValues .eq v))) found =
        some (.boolean false) →
      found = some (.boolean false) ∧
        ∀ item ∈ items, item.bind (compareValues .eq v) = some (.boolean false) := by
    intro items
    induction items with
    | nil => exact fun found h => ⟨h, by simp⟩
    | cons item items ih =>
      intro found h
      obtain ⟨hor, hrest⟩ := ih _ h
      obtain ⟨hfound, hitem⟩ := orValues_eq_false.mp hor
      exact ⟨hfound, List.forall_mem_cons.mpr ⟨hitem, hrest⟩⟩
  exact (key items _ h).2

end Comparisons

end PredicateTransfer.Pruning
