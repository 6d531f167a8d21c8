import Mathlib.Algebra.Order.BigOperators.Group.List
import Mathlib.Algebra.Order.Monoid.Defs
import Mathlib.Tactic

/-!
# The 0/1 knapsack

The recurrence behind the dynamic program with one rolling row: `best xs w` is the value the row
holds at capacity `w` after the items `xs` have been processed, the last one at the head. An item
is taken where this strictly improves the row, and `picks` reads the taken items back, from the
last one to the first.

* `sum_weight_picks_le` — the picked items fit;
* `sum_value_picks`, `sum_value_le_best` — their value is that of the row, and no items that fit
  are worth more;
* `picks_eq_self` — if all values are positive and everything fits, everything is picked.

A row is an array that tabulates a function (`table`); reading and writing a cell are evaluating
and updating that function.
-/

namespace Knapsack

/-! ## Tables -/

section
variable {α : Type*}

/-- The first `n` values of a function. -/
def table (n : ℕ) (f : ℕ → α) : List α := (List.range n).map f

@[simp] theorem length_table (n : ℕ) (f : ℕ → α) : (table n f).length = n := by
  simp [table]

theorem getElem?_table {n i : ℕ} (h : i < n) (f : ℕ → α) : (table n f)[i]? = some (f i) := by
  simp [table, h]

theorem set_table (n i : ℕ) (f : ℕ → α) (a : α) :
    (table n f).set i a = table n (Function.update f i a) := by
  apply List.ext_getElem (by simp)
  intro k hk hk'
  by_cases hik : i = k
  · subst hik
    simp [table]
  · simp [table, hik, Ne.symm hik]

theorem replicate_eq_table (n : ℕ) (a : α) : List.replicate n a = table n fun _ => a := by
  simp [table, List.map_const']

end

/-! ## The recurrence -/

section
variable {K : Type*} [AddCommMonoid K] [LinearOrder K]

/-- At capacity `v` the row gets strictly better with an item of weight `w` and value `x`. -/
def Improves (f : ℕ → K) (w : ℕ) (x : K) (v : ℕ) : Prop := w ≤ v ∧ f v < f (v - w) + x

instance (f : ℕ → K) (w : ℕ) (x : K) (v : ℕ) : Decidable (Improves f w x v) :=
  inferInstanceAs (Decidable (_ ∧ _))

/-- The row after an item was processed. -/
def relaxed (f : ℕ → K) (w : ℕ) (x : K) (v : ℕ) : K :=
  if Improves f w x v then f (v - w) + x else f v

theorem relaxed_of_improves {f : ℕ → K} {w v : ℕ} {x : K} (h : Improves f w x v) :
    relaxed f w x v = f (v - w) + x := if_pos h

theorem relaxed_of_not_improves {f : ℕ → K} {w v : ℕ} {x : K} (h : ¬ Improves f w x v) :
    relaxed f w x v = f v := if_neg h

/-- Whether a cell gets better depends on the cells up to it only. -/
theorem improves_update {f : ℕ → K} {w v m : ℕ} {x y : K} (h : v < m) :
    Improves (Function.update f m y) w x v ↔ Improves f w x v := by
  have hv : v ≠ m := by omega
  have hvw : v - w ≠ m := by omega
  rw [Improves, Improves, Function.update_of_ne hv, Function.update_of_ne hvw]

theorem relaxed_update {f : ℕ → K} {w v m : ℕ} {x y : K} (h : v < m) :
    relaxed (Function.update f m y) w x v = relaxed f w x v := by
  have hv : v ≠ m := by omega
  have hvw : v - w ≠ m := by omega
  by_cases himp : Improves f w x v
  · rw [relaxed_of_improves himp, relaxed_of_improves ((improves_update h).2 himp),
      Function.update_of_ne hvw]
  · rw [relaxed_of_not_improves himp,
      relaxed_of_not_improves fun hc => himp ((improves_update h).1 hc), Function.update_of_ne hv]

variable {ι : Type*} (weight : ι → ℕ) (value : ι → K)

/-- The row after all items were processed. -/
def best : List ι → ℕ → K
  | [] => fun _ => 0
  | x :: xs => relaxed (best xs) (weight x) (value x)

/-- The items taken at a capacity. -/
def picks : List ι → ℕ → List ι
  | [], _ => []
  | x :: xs, w =>
    if Improves (best weight value xs) (weight x) (value x) w then x :: picks xs (w - weight x)
    else picks xs w

theorem picks_sublist (xs : List ι) (w : ℕ) : (picks weight value xs w).Sublist xs := by
  induction xs generalizing w with
  | nil => exact List.Sublist.refl _
  | cons x xs ih =>
    rw [picks]
    split_ifs
    · exact (ih _).cons_cons x
    · exact (ih w).cons x

/-- **The picked items fit.** -/
theorem sum_weight_picks_le (xs : List ι) (w : ℕ) :
    ((picks weight value xs w).map weight).sum ≤ w := by
  induction xs generalizing w with
  | nil => exact Nat.zero_le w
  | cons x xs ih =>
    rw [picks]
    split_ifs with himp
    · have hrest := ih (w - weight x)
      have hle : weight x ≤ w := himp.1
      rw [List.map_cons, List.sum_cons]
      omega
    · exact ih w

/-- The picked items have the value of the row. -/
theorem sum_value_picks (xs : List ι) (w : ℕ) :
    ((picks weight value xs w).map value).sum = best weight value xs w := by
  induction xs generalizing w with
  | nil => rfl
  | cons x xs ih =>
    rw [picks, best]
    split_ifs with himp
    · rw [relaxed_of_improves himp, List.map_cons, List.sum_cons, ih, add_comm]
    · rw [relaxed_of_not_improves himp, ih]

theorem le_relaxed (f : ℕ → K) (w : ℕ) (x : K) (v : ℕ) : f v ≤ relaxed f w x v := by
  by_cases himp : Improves f w x v
  · rw [relaxed_of_improves himp]
    exact himp.2.le
  · rw [relaxed_of_not_improves himp]

theorem add_le_relaxed (f : ℕ → K) {w v : ℕ} (x : K) (h : w ≤ v) :
    f (v - w) + x ≤ relaxed f w x v := by
  by_cases himp : Improves f w x v
  · rw [relaxed_of_improves himp]
  · rw [relaxed_of_not_improves himp]
    exact not_lt.1 fun hlt => himp ⟨h, hlt⟩

/-- **No items that fit are worth more than the row**, whatever the signs of the values. -/
theorem sum_value_le_best [IsOrderedAddMonoid K] {xs ys : List ι} (h : ys.Sublist xs) {w : ℕ}
    (hfit : (ys.map weight).sum ≤ w) : (ys.map value).sum ≤ best weight value xs w := by
  induction h generalizing w with
  | slnil => exact le_rfl
  | @cons ys xs x _ ih => exact (ih hfit).trans (le_relaxed _ _ _ _)
  | @cons_cons ys xs x _ ih =>
    rw [List.map_cons, List.sum_cons] at hfit ⊢
    calc value x + (ys.map value).sum
        ≤ value x + best weight value xs (w - weight x) := by
          gcongr
          exact ih (by omega)
      _ = best weight value xs (w - weight x) + value x := add_comm _ _
      _ ≤ best weight value (x :: xs) w := add_le_relaxed _ _ (by omega)

variable {weight value}

section
variable [IsOrderedCancelAddMonoid K]

/-- An item of positive value improves a cell that is no better than the one it would extend. -/
theorem improves_of_eq {f : ℕ → K} {wi w : ℕ} {v : K} (hle : wi ≤ w) (heq : f (w - wi) = f w)
    (hv : 0 < v) : Improves f wi v w := by
  refine ⟨hle, ?_⟩
  rw [heq]
  exact lt_add_of_pos_right _ hv

theorem best_eq_sum {xs : List ι} (hpos : ∀ x ∈ xs, 0 < value x) {w : ℕ}
    (hfit : (xs.map weight).sum ≤ w) : best weight value xs w = (xs.map value).sum := by
  induction xs generalizing w with
  | nil => rfl
  | cons x xs ih =>
    rw [List.map_cons, List.sum_cons] at hfit
    have hxs : ∀ y ∈ xs, 0 < value y := fun y hy => hpos y (List.mem_cons_of_mem _ hy)
    have hold := ih hxs (w := w) (by omega)
    have hprev := ih hxs (w := w - weight x) (by omega)
    have himp : Improves (best weight value xs) (weight x) (value x) w :=
      improves_of_eq (by omega) (hprev.trans hold.symm) (hpos x List.mem_cons_self)
    rw [best, relaxed, if_pos himp, hprev, List.map_cons, List.sum_cons, add_comm]

/-- **With room for everything, everything is picked.** -/
theorem picks_eq_self {xs : List ι} (hpos : ∀ x ∈ xs, 0 < value x) {w : ℕ}
    (hfit : (xs.map weight).sum ≤ w) : picks weight value xs w = xs := by
  induction xs generalizing w with
  | nil => rfl
  | cons x xs ih =>
    rw [List.map_cons, List.sum_cons] at hfit
    have hxs : ∀ y ∈ xs, 0 < value y := fun y hy => hpos y (List.mem_cons_of_mem _ hy)
    have heq : best weight value xs (w - weight x) = best weight value xs w := by
      rw [best_eq_sum hxs (by omega), best_eq_sum hxs (by omega)]
    have himp : Improves (best weight value xs) (weight x) (value x) w :=
      improves_of_eq (by omega) heq (hpos x List.mem_cons_self)
    rw [picks, if_pos himp, ih hxs (by omega)]

end

end

end Knapsack
