import Mathlib.Data.List.Lex
import Mathlib.Order.Lattice

/-!
# Prefixes in the lexicographic order

The lists with a given prefix form an interval: they lie above the prefix, and what lies between
two of them has the prefix too.
-/

namespace LexOrder

variable {α : Type*} [LinearOrder α] {x y : α} {l lo hi v : List α}

theorem append_cons_lt (l : List α) (h : x < y) (s t : List α) : l ++ x :: s < l ++ y :: t :=
  List.append_left_lt (List.cons_lt_cons_iff.mpr (Or.inl h))

theorem lt_append_cons (l : List α) (x : α) (s : List α) : l < l ++ x :: s := by
  have hlt : l ++ [] < l ++ x :: s := List.append_left_lt (List.nil_lt_cons x s)
  rwa [List.append_nil] at hlt

theorem prefix_le (h : l <+: v) : l ≤ v := by
  obtain ⟨s, rfl⟩ := h
  cases s with
  | nil => rw [List.append_nil]
  | cons x s => exact (lt_append_cons l x s).le

/-- A list without the prefix lies on one side of all lists with it. -/
theorem prefix_of_between (hlo : l <+: lo) (hhi : l <+: hi) (h₁ : lo ≤ v) (h₂ : v ≤ hi) :
    l <+: v := by
  induction l generalizing lo hi v with
  | nil => exact List.nil_prefix
  | cons x l ih =>
    obtain ⟨lo', rfl⟩ := hlo
    obtain ⟨hi', rfl⟩ := hhi
    cases v with
    | nil => exact absurd h₁ (not_le.mpr (List.nil_lt_cons x _))
    | cons y v =>
      rw [List.cons_append, ← not_lt, List.cons_lt_cons_iff, not_or] at h₁ h₂
      obtain rfl : x = y := le_antisymm (not_lt.mp h₁.1) (not_lt.mp h₂.1)
      have h₁' : l ++ lo' ≤ v := not_lt.mp fun h => h₁.2 ⟨rfl, h⟩
      have h₂' : v ≤ l ++ hi' := not_lt.mp fun h => h₂.2 ⟨rfl, h⟩
      exact List.cons_prefix_cons.mpr
        ⟨rfl, ih (List.prefix_append ..) (List.prefix_append ..) h₁' h₂'⟩

end LexOrder
