import Mathlib.Tactic

/-!
# Three-valued logic

SQL's truth values: true, false, and `NULL` (`none`) where the outcome is unknown. A connective is
`NULL` unless the known operands decide it. A filter keeps a row only on true, so what matters is
when an expression is true, and for a negation when it is false.
-/

namespace ThreeValued

abbrev Truth := Option Bool

def not (a : Truth) : Truth := a.map (!·)

def and : Truth → Truth → Truth
  | some false, _ | _, some false => some false
  | some true, some true => some true
  | _, _ => none

def or : Truth → Truth → Truth
  | some true, _ | _, some true => some true
  | some false, some false => some false
  | _, _ => none

/-- The disjunction of a list. -/
def any (xs : List Truth) : Truth := xs.foldr or (some false)

variable {a b : Truth} {xs : List Truth}

theorem not_eq_true : not a = some true ↔ a = some false := by
  rcases a with _ | _ | _ <;> simp [not]

theorem and_eq_true : and a b = some true ↔ a = some true ∧ b = some true := by
  rcases a with _ | _ | _ <;> rcases b with _ | _ | _ <;> simp [and]

theorem or_eq_false : or a b = some false ↔ a = some false ∧ b = some false := by
  rcases a with _ | _ | _ <;> rcases b with _ | _ | _ <;> simp [or]

theorem any_eq_false : any xs = some false ↔ ∀ x ∈ xs, x = some false := by
  unfold any
  induction xs with
  | nil => simp
  | cons x xs ih => rw [List.foldr_cons, or_eq_false, ih, List.forall_mem_cons]

end ThreeValued
