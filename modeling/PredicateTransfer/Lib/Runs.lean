import Mathlib.Tactic

/-!
# Runs of guarded steps

A system is a partial step function on its states. A run takes steps that all meet a guard, in
any order; what every such step keeps holds in every state a run reaches
(`Reaches.invariant`).
-/

namespace Runs

variable {σ α : Type} {step : σ → α → Option σ} {ok : σ → α → Prop}

/-- `t` is reached from `s` by steps that meet `ok`. -/
inductive Reaches (step : σ → α → Option σ) (ok : σ → α → Prop) (s : σ) : σ → Prop
  | refl : Reaches step ok s s
  | tail {t u : σ} {a : α} :
      Reaches step ok s t → ok t a → step t a = some u → Reaches step ok s u

/-- **The invariant rule.** -/
theorem Reaches.invariant {I : σ → Prop} {s t : σ} (h : Reaches step ok s t) (hs : I s)
    (hstep : ∀ {t a u}, I t → ok t a → step t a = some u → I u) : I t := by
  induction h with
  | refl => exact hs
  | tail _ hok ha ih => exact hstep ih hok ha

theorem Reaches.head {s t u : σ} {a : α} (hok : ok s a) (ha : step s a = some t)
    (h : Reaches step ok t u) : Reaches step ok s u := by
  induction h with
  | refl => exact .tail .refl hok ha
  | tail _ hok' hb ih => exact .tail ih hok' hb

theorem Reaches.trans {s t u : σ} (h : Reaches step ok s t) (h' : Reaches step ok t u) :
    Reaches step ok s u := by
  induction h' with
  | refl => exact h
  | tail _ hok ha ih => exact .tail ih hok ha

/-- Take the given steps in order, as long as they meet the guard. -/
def run (step : σ → α → Option σ) (ok : σ → α → Prop) [∀ s a, Decidable (ok s a)] :
    σ → List α → Option σ
  | s, [] => some s
  | s, a :: as => if ok s a then (step s a).bind fun t => run step ok t as else none

theorem reaches_of_run [∀ s a, Decidable (ok s a)] {s t : σ} {as : List α}
    (h : run step ok s as = some t) : Reaches step ok s t := by
  induction as generalizing s with
  | nil =>
    rw [run] at h
    cases h
    exact .refl
  | cons a as ih =>
    rw [run] at h
    split_ifs at h with hok
    obtain ⟨u, hu, h⟩ := Option.bind_eq_some_iff.1 h
    exact .head hok hu (ih h)

theorem reaches_getD_run [∀ s a, Decidable (ok s a)] {s : σ} {as : List α} :
    Reaches step ok s ((run step ok s as).getD s) := by
  cases h : run step ok s as with
  | none => exact .refl
  | some t => exact reaches_of_run h

theorem run_append [∀ s a, Decidable (ok s a)] {s t : σ} {as : List α}
    (h : run step ok s as = some t) (bs : List α) :
    run step ok s (as ++ bs) = run step ok t bs := by
  induction as generalizing s with
  | nil =>
    rw [run] at h
    cases h
    rfl
  | cons a as ih =>
    rw [List.cons_append, run]
    rw [run] at h
    split_ifs at h ⊢
    obtain ⟨u, hu, h⟩ := Option.bind_eq_some_iff.1 h
    rw [hu, Option.bind_some, ih h]

/-- **The simulation rule.** If each step is matched by the same step of the other system, so is
each run. -/
theorem run_simulates {τ : Type} {step' : τ → α → Option τ} {R : σ → τ → Prop} {s s' : σ} {t : τ}
    {as : List α} (hstep : ∀ {s t a s'}, R s t → step s a = some s' →
      ∃ t', step' t a = some t' ∧ R s' t')
    (hst : R s t) (h : run step (fun _ _ => True) s as = some s') :
    ∃ t', run step' (fun _ _ => True) t as = some t' ∧ R s' t' := by
  induction as generalizing s t with
  | nil =>
    rw [run] at h
    cases h
    exact ⟨t, rfl, hst⟩
  | cons a as ih =>
    rw [run, if_pos trivial] at h
    obtain ⟨u, hu, h⟩ := Option.bind_eq_some_iff.1 h
    obtain ⟨v, hv, huv⟩ := hstep hst hu
    obtain ⟨t', ht', hst'⟩ := ih huv h
    exact ⟨t', by rw [run, if_pos trivial, hv, Option.bind_some, ht'], hst'⟩

/-- A system without long runs has runs that cannot go on. -/
theorem exists_run_stuck {s : σ} (bound : Nat)
    (hbound : ∀ as t, run step (fun _ _ => True) s as = some t → as.length ≤ bound) :
    ∃ as t, run step (fun _ _ => True) s as = some t ∧ ∀ a, step t a = none := by
  induction bound generalizing s with
  | zero =>
    refine ⟨[], s, rfl, fun a => Option.eq_none_iff_forall_ne_some.2 fun t ht => ?_⟩
    have hlen := hbound [a] t (by rw [run, if_pos trivial, ht]; rfl)
    exact absurd hlen (by simp)
  | succ bound ih =>
    by_cases hstuck : ∀ a, step s a = none
    · exact ⟨[], s, rfl, hstuck⟩
    · obtain ⟨a, ha⟩ := not_forall.1 hstuck
      obtain ⟨u, hu⟩ := Option.ne_none_iff_exists'.1 ha
      have hcons : ∀ as, run step (fun _ _ => True) s (a :: as) =
          run step (fun _ _ => True) u as := by
        intro as
        rw [run, if_pos trivial, hu, Option.bind_some]
      obtain ⟨as, t, ht, hstuck⟩ := ih (s := u) fun as t h =>
        Nat.le_of_succ_le_succ (hbound (a :: as) t ((hcons as).trans h))
      exact ⟨a :: as, t, (hcons as).trans ht, hstuck⟩

/-- **The invariant rule with a bound.** If every step takes the bound down, no run is longer than
the bound. -/
theorem bounded_of_run [∀ s a, Decidable (ok s a)] {I : σ → Nat → Prop} {s t : σ} {as : List α}
    {m : Nat} (hs : I s m)
    (hstep : ∀ {s m a t}, I s m → step s a = some t → ∃ m' < m, I t m')
    (h : run step ok s as = some t) : ∃ m', I t m' ∧ as.length + m' ≤ m := by
  induction as generalizing s m with
  | nil =>
    rw [run] at h
    cases h
    exact ⟨m, hs, by simp⟩
  | cons a as ih =>
    rw [run] at h
    split_ifs at h
    obtain ⟨u, hu, h⟩ := Option.bind_eq_some_iff.1 h
    obtain ⟨m₁, hlt, hu⟩ := hstep hs hu
    obtain ⟨m₂, ht, hle⟩ := ih hu h
    exact ⟨m₂, ht, by rw [List.length_cons]; omega⟩

end Runs
