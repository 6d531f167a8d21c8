import Mathlib.Data.Fintype.Card
import Mathlib.Tactic

/-!
# The last one out

A counter starts at the number of processes. Each process takes one off when it is done, at most
once, and the one that takes the counter from one to zero is the last. In any order, there is a last
one exactly when all have reported, and there is only one (`Counted`).
-/

namespace CountDown

/-- How far a process is. -/
inductive Role where
  | working
  | reported
  | last
  deriving DecidableEq

/-- What a process may do to the counter: nothing, or take one off. -/
inductive Counts (counter : Nat) : Role → Nat → Role → Prop
  | keep {role : Role} : Counts counter role counter role
  | report : Counts counter .working (counter - 1) (if counter = 1 then .last else .reported)

variable {ι : Type} [Fintype ι]

/-- The processes that have reported. -/
def done (role : ι → Role) : Finset ι := Finset.univ.filter fun i => role i ≠ .working

theorem mem_done {role : ι → Role} {i : ι} : i ∈ done role ↔ role i ≠ .working := by
  simp [done]

/-- The counter and the roles fit together. -/
structure Counted (counter : Nat) (role : ι → Role) : Prop where
  card_eq : counter + (done role).card = Fintype.card ι
  all_of_last : ∀ {i}, role i = .last → ∀ k, role k ≠ .working
  last_unique : ∀ {i k}, role i = .last → role k = .last → i = k
  exists_last : (∀ k, role k ≠ .working) → ∃ i, role i = .last

theorem counted_init [Nonempty ι] : Counted (Fintype.card ι) fun _ : ι => .working where
  card_eq := by simp [done]
  all_of_last h := by cases h
  last_unique h := by cases h
  exists_last h := absurd rfl (h (Classical.arbitrary ι))

section
variable [DecidableEq ι] {counter counter' : Nat} {role : ι → Role} {i : ι}

theorem done_update {r : Role} (hr : r ≠ .working) :
    done (Function.update role i r) = insert i (done role) := by
  ext k
  rw [mem_done, Finset.mem_insert, mem_done]
  by_cases hk : k = i
  · subst hk
    simp [hr]
  · simp [hk]

/-- A process that still works sees a counter of one exactly when all others have reported. -/
theorem Counted.eq_one_iff (h : Counted counter role) (hi : role i = .working) :
    counter = 1 ↔ ∀ k, k ≠ i → role k ≠ .working := by
  have hnot : i ∉ done role := fun hmem => mem_done.1 hmem hi
  have hcard := Finset.card_insert_of_notMem hnot
  have htotal := h.card_eq
  constructor
  · intro hone k hk
    have huniv : insert i (done role) = Finset.univ := by
      apply Finset.eq_univ_of_card
      omega
    have hmem : k ∈ insert i (done role) := by
      rw [huniv]
      exact Finset.mem_univ k
    exact mem_done.1 (Finset.mem_of_mem_insert_of_ne hmem hk)
  · intro hall
    have huniv : insert i (done role) = Finset.univ := by
      refine Finset.eq_univ_of_forall fun k => ?_
      by_cases hk : k = i
      · exact hk ▸ Finset.mem_insert_self _ _
      · exact Finset.mem_insert_of_mem (mem_done.2 (hall k hk))
    rw [huniv, Finset.card_univ] at hcard
    omega

/-- **Counting goes on**, whichever process moves. -/
theorem Counted.update {r : Role} (h : Counted counter role)
    (hstep : Counts counter (role i) counter' r) :
    Counted counter' (Function.update role i r) := by
  generalize hrole : role i = old at hstep
  cases hstep with
  | keep =>
    rw [← hrole, Function.update_eq_self]
    exact h
  | report =>
    have hnot : i ∉ done role := fun hmem => mem_done.1 hmem hrole
    have hone := h.eq_one_iff hrole
    have hworking : (if counter = 1 then Role.last else .reported) ≠ .working := by
      split_ifs <;> simp
    have hother : ∀ {k}, k ≠ i → Function.update role i
        (if counter = 1 then Role.last else .reported) k = role k := fun hk =>
      Function.update_of_ne hk _ _
    have hself : Function.update role i (if counter = 1 then Role.last else .reported) i =
        if counter = 1 then Role.last else .reported := Function.update_self _ _ _
    -- Nobody was the last before: this process had not reported.
    have hlast : ∀ {k}, Function.update role i
        (if counter = 1 then Role.last else .reported) k = .last → k = i ∧ counter = 1 := by
      intro k hk
      by_cases hki : k = i
      · subst hki
        rw [hself] at hk
        refine ⟨rfl, ?_⟩
        by_contra hne
        rw [if_neg hne] at hk
        cases hk
      · rw [hother hki] at hk
        exact absurd hrole (h.all_of_last hk i)
    refine ⟨?_, ?_, ?_, ?_⟩
    · have hlt : (insert i (done role)).card ≤ Fintype.card ι := Finset.card_le_univ _
      have hcard := Finset.card_insert_of_notMem hnot
      have htotal := h.card_eq
      rw [done_update hworking]
      omega
    · intro k hk m
      obtain ⟨-, hcounter⟩ := hlast hk
      by_cases hm : m = i
      · rw [hm, hself]
        exact hworking
      · rw [hother hm]
        exact hone.1 hcounter m hm
    · intro k m hk hm
      rw [(hlast hk).1, (hlast hm).1]
    · intro hall
      refine ⟨i, ?_⟩
      rw [hself, if_pos]
      refine hone.2 fun k hk => ?_
      rw [← hother hk]
      exact hall k

end

end CountDown
