import PredicateTransfer.Lib.SemiJoin

/-!
# Filtering below a join or above it

A filter over the output of a join may be split: parts of it are applied to the left rows (`A`) and
to the right rows (`B`) before the join, the rest (`N`) to the output. When is that the same, for
all inputs with rows from `D` and `E`, as applying the whole filter (`P`) to the output?

For each kind of join the answer is a condition on single rows and single pairs. It is necessary
because the inputs may be that one row or pair, and sufficient because every kind of join selects
rows, or pairs of rows, one by one.
-/

namespace SemiJoin

variable {α β γ : Type*} {m : α → β → Bool} {A : α → Bool} {B : β → Bool} {N P : γ → Bool}
  {D : α → Prop} {E : β → Prop}

/-! ## Selections -/

section
variable {p q : α → Bool} {f : α → γ}

theorem filter_map_filter_congr {s : Multiset α}
    (h : ∀ a ∈ s, (p a && N (f a)) = (q a && P (f a))) :
    ((s.filter (p ·)).map f).filter (N ·) = ((s.filter (q ·)).map f).filter (P ·) := by
  simp only [Multiset.filter_map, Multiset.filter_filter]
  refine congrArg _ (Multiset.filter_congr fun a ha => ?_)
  have ha := h a ha
  rw [Bool.eq_iff_iff, Bool.and_eq_true, Bool.and_eq_true] at ha
  simp only [Function.comp_apply]
  tauto

/-- On a single row nothing can be made up for. -/
theorem eq_of_filter_map_filter_singleton {a : α}
    (h : ((({a} : Multiset α).filter (p ·)).map f).filter (N ·) =
      ((({a} : Multiset α).filter (q ·)).map f).filter (P ·)) :
    (p a && N (f a)) = (q a && P (f a)) := by
  have hcard := congrArg Multiset.card h
  cases hp : p a <;> cases hq : q a <;> cases hN : N (f a) <;> cases hP : P (f a) <;>
    simp [Multiset.filter_singleton, hp, hq, hN, hP] at hcard ⊢

theorem filter_map_congr {s : Multiset α} (h : ∀ a ∈ s, (p a && N (f a)) = P (f a)) :
    ((s.filter (p ·)).map f).filter (N ·) = (s.map f).filter (P ·) := by
  have hall : s.filter (fun _ => true = true) = s := by simp
  rw [filter_map_filter_congr (q := fun _ => true) (by simpa using h), hall]

theorem eq_of_filter_map_singleton {a : α}
    (h : ((({a} : Multiset α).filter (p ·)).map f).filter (N ·) =
      (({a} : Multiset α).map f).filter (P ·)) : (p a && N (f a)) = P (f a) := by
  simpa using eq_of_filter_map_filter_singleton (q := fun _ => true) (by simpa using h)

end

theorem forall_mem_singleton {a : α} (ha : D a) : ∀ x ∈ ({a} : Multiset α), D x := by
  intro x hx
  rwa [Multiset.mem_singleton.1 hx]

/-- **A selection judged by the other side.** The rows `p R` selects, filtered before and after,
against the rows `q R` selects, filtered after. -/
theorem select_eq_iff {p q : Multiset β → α → Bool} {f : Multiset β → α → γ} :
    (∀ L : Multiset α, (∀ a ∈ L, D a) → ∀ R : Multiset β, (∀ b ∈ R, E b) →
      (((L.filter (A ·)).filter (p R ·)).map (f R)).filter (N ·) =
        ((L.filter (q R ·)).map (f R)).filter (P ·)) ↔
      ∀ R : Multiset β, (∀ b ∈ R, E b) → ∀ a, D a →
        (A a && p R a && N (f R a)) = (q R a && P (f R a)) := by
  have hselect : ∀ (L : Multiset α) (R : Multiset β),
      (L.filter (A ·)).filter (p R ·) = L.filter fun a => (A a && p R a) = true := by
    intro L R
    simp [Multiset.filter_filter, and_comm]
  simp only [hselect]
  constructor
  · intro h R hR a ha
    exact eq_of_filter_map_filter_singleton (h {a} (forall_mem_singleton ha) R hR)
  · intro h L hL R hR
    exact filter_map_filter_congr fun a ha => h R hR a (hL a ha)

/-- Which input is named first does not matter. -/
theorem forall_inputs_comm {F : Multiset α → Multiset β → Prop} :
    (∀ L : Multiset α, (∀ a ∈ L, D a) → ∀ R : Multiset β, (∀ b ∈ R, E b) → F L R) ↔
      ∀ R : Multiset β, (∀ b ∈ R, E b) → ∀ L : Multiset α, (∀ a ∈ L, D a) → F L R :=
  ⟨fun h R hR L hL => h L hL R hR, fun h L hL R hR => h R hR L hL⟩

/-! ## Pairs -/

theorem product_filter_left (L : Multiset α) (R : Multiset β) :
    L.filter (A ·) ×ˢ R = (L ×ˢ R).filter fun x => A x.1 := by
  induction L using Multiset.induction with
  | empty => rfl
  | cons a L ih =>
    rw [Multiset.cons_product, Multiset.filter_add, ← ih, Multiset.filter_cons, Multiset.filter_map]
    cases ha : A a <;> simp [ha, Multiset.filter_true, Multiset.cons_product]

theorem pairs_filter (L : Multiset α) (R : Multiset β) :
    pairs m (L.filter (A ·)) (R.filter (B ·)) =
      (pairs m L R).filter fun x => (A x.1 && B x.2) = true := by
  rw [pairs_filter_right, pairs, product_filter_left, pairs]
  simp only [Multiset.filter_filter, Bool.and_eq_true]
  refine Multiset.filter_congr fun x _ => ?_
  tauto

theorem pairs_singleton {a : α} {b : β} (h : m a b = true) : pairs m {a} {b} = {(a, b)} := by
  simp [pairs, Multiset.filter_singleton, h]

theorem hasPartner_singleton (a : α) (b : β) : hasPartner m {b} a = m a b := by
  rw [Bool.eq_iff_iff, hasPartner_iff]
  simp

theorem hasPartner_zero (a : α) : hasPartner m 0 a = false := by
  rw [hasPartner_eq_false_iff]
  simp

/-! ## Joins -/

/-- **Inner join.** -/
theorem filter_pairs_eq_iff {out : α × β → γ} :
    (∀ L : Multiset α, (∀ a ∈ L, D a) → ∀ R : Multiset β, (∀ b ∈ R, E b) →
      ((pairs m (L.filter (A ·)) (R.filter (B ·))).map out).filter (N ·) =
        ((pairs m L R).map out).filter (P ·)) ↔
      ∀ a b, D a → E b → m a b = true → (A a && B b && N (out (a, b))) = P (out (a, b)) := by
  simp only [pairs_filter]
  constructor
  · intro h a b ha hb hm
    have hone := h {a} (forall_mem_singleton ha) {b} (forall_mem_singleton hb)
    rw [pairs_singleton hm] at hone
    exact eq_of_filter_map_singleton hone
  · intro h L hL R hR
    refine filter_map_congr fun x hx => ?_
    obtain ⟨ha, hb, hm⟩ := mem_pairs.1 hx
    exact h x.1 x.2 (hL _ ha) (hR _ hb) hm

/-- **Left join.** Only the left rows are filtered below. -/
theorem filter_leftJoin_eq_iff {out : α × β → γ} {alone : α → γ} :
    (∀ L : Multiset α, (∀ a ∈ L, D a) → ∀ R : Multiset β, (∀ b ∈ R, E b) →
      ((pairs m (L.filter (A ·)) R).map out + (anti m (L.filter (A ·)) R).map alone).filter (N ·) =
        ((pairs m L R).map out + (anti m L R).map alone).filter (P ·)) ↔
      (∀ a b, D a → E b → m a b = true → (A a && N (out (a, b))) = P (out (a, b))) ∧
        ∀ a, D a → (A a && N (alone a)) = P (alone a) := by
  have hpairs : ∀ (L : Multiset α) (R : Multiset β),
      pairs m (L.filter (A ·)) R = (pairs m L R).filter fun x => A x.1 := by
    intro L R
    rw [pairs, product_filter_left, Multiset.filter_comm, pairs]
  have hanti : ∀ (L : Multiset α) (R : Multiset β),
      anti m (L.filter (A ·)) R = (anti m L R).filter (A ·) := by
    intro L R
    rw [anti, Multiset.filter_comm, anti]
  simp only [hpairs, hanti, Multiset.filter_add]
  constructor
  · intro h
    constructor
    · intro a b ha hb hm
      have hone := h {a} (forall_mem_singleton ha) {b} (forall_mem_singleton hb)
      have hmatched : anti m {a} {b} = 0 := by
        simp [anti, Multiset.filter_singleton, hasPartner_singleton, hm]
      rw [pairs_singleton hm, hmatched] at hone
      exact eq_of_filter_map_singleton (p := fun x : α × β => A x.1) (by simpa using hone)
    · intro a ha
      have hone := h {a} (forall_mem_singleton ha) 0 (by simp)
      have halone : anti m ({a} : Multiset α) 0 = {a} := by
        simp [anti, Multiset.filter_singleton, hasPartner_zero]
      have hnone : pairs m ({a} : Multiset α) 0 = 0 := by
        simp [pairs]
      rw [halone, hnone] at hone
      exact eq_of_filter_map_singleton (by simpa using hone)
  · rintro ⟨hpair, halone⟩ L hL R hR
    congr 1
    · refine filter_map_congr fun x hx => ?_
      obtain ⟨ha, hb, hm⟩ := mem_pairs.1 hx
      exact hpair x.1 x.2 (hL _ ha) (hR _ hb) hm
    · exact filter_map_congr fun a ha => halone a (hL a (Multiset.mem_of_mem_filter ha))

/-- **Semi join.** -/
theorem filter_semi_eq_iff {out : α → γ} :
    (∀ L : Multiset α, (∀ a ∈ L, D a) → ∀ R : Multiset β, (∀ b ∈ R, E b) →
      ((semi m (L.filter (A ·)) (R.filter (B ·))).map out).filter (N ·) =
        ((semi m L R).map out).filter (P ·)) ↔
      ∀ a b, D a → E b → m a b = true → (A a && B b && N (out a)) = P (out a) := by
  refine (select_eq_iff (f := fun _ => out)).trans ?_
  constructor
  · intro h a b ha hb hm
    have hone := h {b} (forall_mem_singleton hb) a ha
    cases hB : B b with
    | true => simpa [Multiset.filter_singleton, hB, hasPartner_singleton, hm] using hone
    | false => simpa [Multiset.filter_singleton, hB, hasPartner_singleton, hasPartner_zero, hm]
        using hone
  · intro h R hR a ha
    rw [Bool.eq_iff_iff]
    simp only [Bool.and_eq_true, hasPartner_iff, Multiset.mem_filter]
    constructor
    · rintro ⟨⟨hA, b, ⟨hb, hB⟩, hm⟩, hN⟩
      exact ⟨⟨b, hb, hm⟩, by simp [← h a b ha (hR b hb) hm, hA, hB, hN]⟩
    · rintro ⟨⟨b, hb, hm⟩, hP⟩
      have hsplit := h a b ha (hR b hb) hm
      rw [hP, Bool.and_eq_true, Bool.and_eq_true] at hsplit
      exact ⟨⟨hsplit.1.1, b, ⟨hb, hsplit.1.2⟩, hm⟩, hsplit.2⟩

/-- **Anti join.** A right row may only be dropped below if the left rows it excludes are all
filtered out. -/
theorem filter_anti_eq_iff {out : α → γ} :
    (∀ L : Multiset α, (∀ a ∈ L, D a) → ∀ R : Multiset β, (∀ b ∈ R, E b) →
      ((anti m (L.filter (A ·)) (R.filter (B ·))).map out).filter (N ·) =
        ((anti m L R).map out).filter (P ·)) ↔
      (∀ a, D a → (A a && N (out a)) = P (out a)) ∧
        ∀ a b, D a → E b → m a b = true → A a = true → N (out a) = true → B b = true := by
  have hselect : ∀ (L : Multiset α) (R : Multiset β),
      anti m L R = L.filter fun a => (!hasPartner m R a) = true := by
    intro L R
    simp [anti]
  simp only [hselect]
  refine (select_eq_iff (f := fun _ => out)).trans ?_
  constructor
  · intro h
    have halone : ∀ a, D a → (A a && N (out a)) = P (out a) := by
      intro a ha
      simpa [hasPartner_zero] using h 0 (by simp) a ha
    refine ⟨halone, fun a b ha hb hm hA hN => ?_⟩
    by_contra hB
    simpa [Multiset.filter_singleton, hB, hasPartner_singleton, hasPartner_zero, hm, hA, hN] using
      h {b} (forall_mem_singleton hb) a ha
  · rintro ⟨halone, hpair⟩ R hR a ha
    rw [← halone a ha]
    cases hA : A a with
    | false => simp
    | true =>
      cases hN : N (out a) with
      | false => simp
      | true =>
        rw [hasPartner_filter fun b hb hm => hpair a b ha (hR b hb) hm hA hN]
        simp

/-- **Mark join.** Only the left rows are filtered below. -/
theorem filter_mark_eq_iff {out : α → Bool → γ} :
    (∀ L : Multiset α, (∀ a ∈ L, D a) → ∀ R : Multiset β, (∀ b ∈ R, E b) →
      ((L.filter (A ·)).map fun a => out a (hasPartner m R a)).filter (N ·) =
        (L.map fun a => out a (hasPartner m R a)).filter (P ·)) ↔
      (∀ a, D a → (A a && N (out a false)) = P (out a false)) ∧
        ∀ a b, D a → E b → m a b = true → (A a && N (out a true)) = P (out a true) := by
  constructor
  · intro h
    constructor
    · intro a ha
      have hone := eq_of_filter_map_singleton (h {a} (forall_mem_singleton ha) 0 (by simp))
      rwa [hasPartner_zero] at hone
    · intro a b ha hb hm
      have hone := eq_of_filter_map_singleton
        (h {a} (forall_mem_singleton ha) {b} (forall_mem_singleton hb))
      rwa [hasPartner_singleton, hm] at hone
  · rintro ⟨halone, hpair⟩ L hL R hR
    refine filter_map_congr fun a ha => ?_
    cases hpartner : hasPartner m R a with
    | false => exact halone a (hL a ha)
    | true =>
      obtain ⟨b, hb, hm⟩ := hasPartner_iff.1 hpartner
      exact hpair a b (hL a ha) (hR b hb) hm

end SemiJoin
