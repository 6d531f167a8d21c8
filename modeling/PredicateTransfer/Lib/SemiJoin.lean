import Mathlib.Data.Multiset.Bind
import Mathlib.Tactic

/-!
# Joining bags, and filtering one side first

The join of two bags under a match predicate, and the one fact a semi-join filter rests on:
filtering the right bag before the join changes the result exactly when the filter drops a row
that has a partner (`pairs_filter_right_eq_iff`). The result stays different under any function
applied to the joined pairs (`map_pairs_filter_right_eq_iff`), since a pair that is gone is
missing from the count.
-/

namespace SemiJoin

variable {α β γ : Type*}

/-- The matching pairs of two bags, with multiplicity. -/
def pairs (m : α → β → Bool) (L : Multiset α) (R : Multiset β) : Multiset (α × β) :=
  (L ×ˢ R).filter fun x => m x.1 x.2

theorem mem_pairs {m : α → β → Bool} {L : Multiset α} {R : Multiset β} {x : α × β} :
    x ∈ pairs m L R ↔ x.1 ∈ L ∧ x.2 ∈ R ∧ m x.1 x.2 = true := by
  rw [pairs, Multiset.mem_filter, Multiset.mem_product, and_assoc]

theorem product_filter_right (keep : β → Bool) (L : Multiset α) (R : Multiset β) :
    L ×ˢ R.filter (keep ·) = (L ×ˢ R).filter fun x => keep x.2 := by
  induction L using Multiset.induction with
  | empty => rfl
  | cons a L ih =>
    rw [Multiset.cons_product, Multiset.cons_product, Multiset.filter_add, ih,
      Multiset.filter_map]
    rfl

/-- Filtering the right side first is filtering the pairs. -/
theorem pairs_filter_right (m : α → β → Bool) (keep : β → Bool) (L : Multiset α)
    (R : Multiset β) :
    pairs m L (R.filter (keep ·)) = (pairs m L R).filter fun x => keep x.2 := by
  rw [pairs, product_filter_right, pairs, Multiset.filter_filter, Multiset.filter_filter]
  exact Multiset.filter_congr fun x _ => and_comm

/-- **A filter is transparent to a join exactly when it keeps every row with a partner.** -/
theorem pairs_filter_right_eq_iff {m : α → β → Bool} {keep : β → Bool} {L : Multiset α}
    {R : Multiset β} :
    pairs m L (R.filter (keep ·)) = pairs m L R ↔
      ∀ a ∈ L, ∀ b ∈ R, m a b = true → keep b = true := by
  rw [pairs_filter_right, Multiset.filter_eq_self]
  constructor
  · exact fun h a ha b hb hm => h (a, b) (mem_pairs.2 ⟨ha, hb, hm⟩)
  · intro h x hx
    obtain ⟨ha, hb, hm⟩ := mem_pairs.1 hx
    exact h _ ha _ hb hm

/-- The same, seen through any function of the joined pairs. -/
theorem map_pairs_filter_right_eq_iff {m : α → β → Bool} {keep : β → Bool} {L : Multiset α}
    {R : Multiset β} (f : α × β → γ) :
    (pairs m L (R.filter (keep ·))).map f = (pairs m L R).map f ↔
      ∀ a ∈ L, ∀ b ∈ R, m a b = true → keep b = true := by
  rw [← pairs_filter_right_eq_iff]
  refine ⟨fun h => ?_, fun h => by rw [h]⟩
  have hcard : (pairs m L (R.filter (keep ·))).card = (pairs m L R).card := by
    simpa using congrArg Multiset.card h
  rw [pairs_filter_right] at hcard ⊢
  exact Multiset.eq_of_le_of_card_le (Multiset.filter_le _ _) hcard.ge

/-- Two selections of a bag, one of which keeps less, seen through any function. -/
theorem map_filter_eq_map_filter_iff {p q : α → Bool} {L : Multiset α}
    (hpq : ∀ a ∈ L, p a = true → q a = true) (f : α → γ) :
    (L.filter (p ·)).map f = (L.filter (q ·)).map f ↔ ∀ a ∈ L, q a = true → p a = true := by
  constructor
  · intro h a ha hq
    have hle : L.filter (p ·) ≤ L.filter (q ·) := by
      have hp : L.filter (p ·) = (L.filter (q ·)).filter (p ·) := by
        rw [Multiset.filter_filter]
        exact Multiset.filter_congr fun a ha => ⟨fun hp => ⟨hp, hpq a ha hp⟩, And.left⟩
      rw [hp]
      exact Multiset.filter_le _ _
    have hcard : (L.filter (q ·)).card ≤ (L.filter (p ·)).card := by
      simpa using (congrArg Multiset.card h).ge
    have hmem : a ∈ L.filter (q ·) := Multiset.mem_filter.2 ⟨ha, hq⟩
    rw [← Multiset.eq_of_le_of_card_le hle hcard] at hmem
    exact (Multiset.mem_filter.1 hmem).2
  · intro h
    rw [Multiset.filter_congr fun a ha => ⟨hpq a ha, h a ha⟩]

/-! ## Rows with and without a partner -/

/-- The row has a partner in the bag. -/
def hasPartner (m : α → β → Bool) (R : Multiset β) (a : α) : Bool :=
  @decide (∃ b ∈ R, m a b = true) Multiset.decidableExistsMultiset

/-- The rows with a partner. -/
def semi (m : α → β → Bool) (L : Multiset α) (R : Multiset β) : Multiset α :=
  L.filter (hasPartner m R ·)

/-- The rows without a partner. -/
def anti (m : α → β → Bool) (L : Multiset α) (R : Multiset β) : Multiset α :=
  L.filter fun a => hasPartner m R a = false

theorem hasPartner_iff {m : α → β → Bool} {R : Multiset β} {a : α} :
    hasPartner m R a = true ↔ ∃ b ∈ R, m a b = true :=
  @decide_eq_true_iff _ Multiset.decidableExistsMultiset

theorem hasPartner_eq_false_iff {m : α → β → Bool} {R : Multiset β} {a : α} :
    hasPartner m R a = false ↔ ∀ b ∈ R, m a b = false := by
  rw [← Bool.not_eq_true, hasPartner_iff]
  simp

/-- Whether a row has a partner shows in its candidates. -/
theorem hasPartner_eq_false_iff_filter {m : α → β → Bool} {R : Multiset β} {a : α} :
    hasPartner m R a = false ↔ R.filter (m a ·) = 0 := by
  rw [hasPartner_eq_false_iff, Multiset.filter_eq_nil]
  simp

theorem hasPartner_filter {m : α → β → Bool} {R : Multiset β} {keep : β → Bool} {a : α}
    (h : ∀ b ∈ R, m a b = true → keep b = true) :
    hasPartner m (R.filter (keep ·)) a = hasPartner m R a := by
  rw [Bool.eq_iff_iff, hasPartner_iff, hasPartner_iff]
  constructor
  · rintro ⟨b, hb, hm⟩
    exact ⟨b, Multiset.mem_of_mem_filter hb, hm⟩
  · rintro ⟨b, hb, hm⟩
    exact ⟨b, Multiset.mem_filter.2 ⟨hb, h b hb hm⟩, hm⟩

/-- The pairs, grouped by the row on the right. -/
theorem pairs_eq_bind (m : α → β → Bool) (L : Multiset α) (R : Multiset β) :
    pairs m L R = R.bind fun b => (L.filter (m · b)).map (·, b) := by
  induction R using Multiset.induction with
  | empty => simp [pairs]
  | cons b R ih =>
    rw [Multiset.cons_bind, ← ih, pairs, pairs, Multiset.product_cons, Multiset.filter_add,
      Multiset.filter_map]
    rfl

/-- Joining the other way round. -/
theorem pairs_flip (m : α → β → Bool) (L : Multiset α) (R : Multiset β) :
    pairs (flip m) R L = (pairs m L R).map Prod.swap := by
  rw [pairs_eq_bind m L R, Multiset.map_bind]
  induction R using Multiset.induction with
  | empty => simp [pairs]
  | cons b R ih =>
    rw [Multiset.cons_bind, ← ih, pairs, Multiset.cons_product, Multiset.filter_add,
      Multiset.filter_map, Multiset.map_map]
    rfl

/-- Binding a sum of bags. -/
theorem sum_bind {ι : Type*} (t : Finset ι) (R : ι → Multiset α) (f : α → Multiset β) :
    (∑ i ∈ t, R i).bind f = ∑ i ∈ t, (R i).bind f :=
  map_sum ({ toFun := (Multiset.bind · f)
             map_zero' := Multiset.zero_bind f
             map_add' := fun s t => Multiset.add_bind s t f } : Multiset α →+ Multiset β) R t

end SemiJoin
