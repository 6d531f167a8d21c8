import PredicateTransfer.Lib.SemiJoin

/-!
# Joining partition by partition

Two bags are partitioned by functions that agree on rows that match. Then a row finds its partners
in the partition of the same number, and the joins of the partitions make up the join.
-/

namespace SemiJoin

variable {α β γ ι : Type*}

theorem sum_filter {p : α → Prop} [DecidablePred p] (t : Finset ι) (L : ι → Multiset α) :
    (∑ i ∈ t, L i).filter p = ∑ i ∈ t, (L i).filter p :=
  map_sum ({ toFun := Multiset.filter p
             map_zero' := Multiset.filter_zero p
             map_add' := fun L R => Multiset.filter_add p L R } : Multiset α →+ Multiset α) L t

theorem sum_map (F : α → γ) (t : Finset ι) (L : ι → Multiset α) :
    (∑ i ∈ t, L i).map F = ∑ i ∈ t, (L i).map F := map_sum (Multiset.mapAddMonoidHom F) L t

variable [DecidableEq ι]

/-- The rows of one partition. -/
def part (f : α → ι) (L : Multiset α) (o : ι) : Multiset α := L.filter fun a => decide (f a = o)

theorem mem_part {f : α → ι} {L : Multiset α} {o : ι} {a : α} :
    a ∈ part f L o ↔ a ∈ L ∧ f a = o := by
  simp [part]

/-- A bag is made up of its partitions. -/
theorem sum_part {f : α → ι} {L : Multiset α} {t : Finset ι} (ht : ∀ a ∈ L, f a ∈ t) :
    ∑ o ∈ t, part f L o = L := by
  induction L using Multiset.induction with
  | empty => simp [part]
  | cons a L ih =>
    have hcons : ∀ o, part f (a ::ₘ L) o = (if f a = o then {a} else 0) + part f L o := by
      intro o
      rw [part, Multiset.filter_cons, part]
      simp only [decide_eq_true_eq]
    rw [Finset.sum_congr rfl fun o _ => hcons o, Finset.sum_add_distrib,
      ih fun a ha => ht a (Multiset.mem_cons_of_mem ha), Finset.sum_ite_eq,
      if_pos (ht a (Multiset.mem_cons_self a L)), Multiset.singleton_add]

section
variable {m : α → β → Bool} {f : α → ι} {g : β → ι} (h : ∀ a b, m a b = true → f a = g b)
include h

theorem hasPartner_part (R : Multiset β) (a : α) :
    hasPartner m (part g R (f a)) a = hasPartner m R a :=
  hasPartner_filter fun _ _ hm => by simp [h _ _ hm]

theorem filter_part (L : Multiset α) (b : β) :
    (part f L (g b)).filter (m · b) = L.filter (m · b) := by
  rw [part, Multiset.filter_filter]
  refine Multiset.filter_congr fun a _ => ⟨And.left, fun hm => ⟨hm, ?_⟩⟩
  simp [h _ _ hm]

variable {t : Finset ι} {L : Multiset α} (R : Multiset β) (ht : ∀ a ∈ L, f a ∈ t)
include ht

theorem semi_eq_sum : semi m L R = ∑ o ∈ t, semi m (part f L o) (part g R o) := by
  have hsum := sum_part ht
  rw [semi]
  nth_rewrite 1 [← hsum]
  rw [sum_filter]
  refine Finset.sum_congr rfl fun o _ => Multiset.filter_congr fun a ha => ?_
  rw [← (mem_part.1 ha).2, hasPartner_part h]

theorem anti_eq_sum : anti m L R = ∑ o ∈ t, anti m (part f L o) (part g R o) := by
  have hsum := sum_part ht
  rw [anti]
  nth_rewrite 1 [← hsum]
  rw [sum_filter]
  refine Finset.sum_congr rfl fun o _ => Multiset.filter_congr fun a ha => ?_
  rw [← (mem_part.1 ha).2, hasPartner_part h]

theorem map_hasPartner_eq_sum (F : α → Bool → γ) :
    L.map (fun a => F a (hasPartner m R a)) =
      ∑ o ∈ t, (part f L o).map fun a => F a (hasPartner m (part g R o) a) := by
  have hsum := sum_part ht
  nth_rewrite 1 [← hsum]
  rw [sum_map]
  refine Finset.sum_congr rfl fun o _ => Multiset.map_congr rfl fun a ha => ?_
  rw [← (mem_part.1 ha).2, hasPartner_part h]

end

end SemiJoin
