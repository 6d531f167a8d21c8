import Mathlib.Tactic

/-!
# A gate on a counter

Processes take units off a counter and put them back. Who takes the last unit goes on to close a
gate, who puts the first one back goes on to open it. The counter is atomic and the gate behind a
lock, but nothing ties the two together: between the change of the counter and the lock, and also
while a process holds the lock, others may change the counter again. So a process looks at the
counter once more when it has the lock, and changes the gate only if it still should.

**Theorem (`Lawful.move`).** In any interleaving, an open gate at zero has a process on its way to
close it, and a closed gate above zero one on its way to open it. So once no process is on its
way, the gate is closed exactly at zero (`Lawful.closed_iff`).
-/

namespace CountingGate

/-- Where a process is. In `closes` and `opens` it holds the lock of the gate. -/
inductive Phase where
  | idle
  /-- Took the last unit. -/
  | toClose
  /-- Has the lock, and saw the counter at zero. -/
  | closes
  /-- Put the first unit back. -/
  | toOpen
  /-- Has the lock, and saw the counter above zero. -/
  | opens
  deriving DecidableEq, Repr

/-- The process holds the lock. -/
def Phase.holds : Phase → Bool
  | .closes | .opens => true
  | .idle | .toClose | .toOpen => false

def Phase.WillClose (p : Phase) : Prop := p = .toClose ∨ p = .closes

def Phase.WillOpen (p : Phase) : Prop := p = .toOpen ∨ p = .opens

/-- What one process can do to the counter, the gate and its own phase. -/
inductive Move (free : Prop) : Nat → Bool → Phase → Nat → Bool → Phase → Prop
  | stay {count : Nat} {closed : Bool} {p : Phase} : Move free count closed p count closed p
  | take {count : Nat} {closed : Bool} :
      Move free (count + 1) closed .idle count closed (if count = 0 then .toClose else .idle)
  | put {count : Nat} {closed : Bool} :
      Move free count closed .idle (count + 1) closed (if count = 0 then .toOpen else .idle)
  | lookClose {count : Nat} {closed : Bool} (hfree : free) :
      Move free count closed .toClose count closed (if count = 0 then .closes else .idle)
  | close {count : Nat} {closed : Bool} : Move free count closed .closes count true .idle
  | lookOpen {count : Nat} {closed : Bool} (hfree : free) :
      Move free count closed .toOpen count closed (if count = 0 then .idle else .opens)
  | reopen {count : Nat} {closed : Bool} : Move free count closed .opens count false .idle

/-- Nobody holds the lock. -/
def Free {ι : Type} (phase : ι → Phase) : Prop := ∀ i, (phase i).holds = false

variable {ι : Type} {phase : ι → Phase} {count : Nat} {closed : Bool}

theorem Free.ne_of_holds (h : Free phase) {p : Phase} (hp : p.holds = true) (i : ι) :
    phase i ≠ p := by
  rintro rfl
  rw [h i] at hp
  cases hp

/-- **The law of the gate.** -/
structure Lawful (count : Nat) (closed : Bool) (phase : ι → Phase) : Prop where
  /-- An open gate at zero is about to be closed. -/
  closed_at_zero : count = 0 → closed = false → ∃ i, (phase i).WillClose
  /-- A closed gate above zero is about to be opened. -/
  open_above_zero : count ≠ 0 → closed = true → ∃ i, (phase i).WillOpen
  /-- Who closes the gate although the counter has gone up again is followed by one who opens. -/
  closes_late : ∀ {i}, phase i = .closes → count ≠ 0 → ∃ k, phase k = .toOpen
  /-- Who opens the gate although the counter has gone down again is followed by one who closes. -/
  opens_late : ∀ {i}, phase i = .opens → count = 0 → ∃ k, phase k = .toClose

/-- When nobody is on the way to the gate, it is closed exactly at zero. -/
theorem Lawful.closed_iff (h : Lawful count closed phase) (hidle : ∀ i, phase i = .idle) :
    closed = true ↔ count = 0 := by
  constructor
  · intro hclosed
    by_contra hne
    obtain ⟨i, hi | hi⟩ := h.open_above_zero hne hclosed <;> rw [hidle i] at hi <;> cases hi
  · intro hzero
    by_contra hopen
    obtain ⟨i, hi | hi⟩ := h.closed_at_zero hzero (Bool.not_eq_true _ ▸ hopen) <;>
      rw [hidle i] at hi <;> cases hi

theorem lawful_init (hcount : count ≠ 0) : Lawful count false (fun _ : ι => .idle) where
  closed_at_zero h := absurd h hcount
  open_above_zero _ h := by cases h
  closes_late h := by cases h
  opens_late h := by cases h

section
variable [DecidableEq ι] {i : ι} {p : Phase}

/-- A process that others count on is still there after somebody else moved. -/
theorem exists_update {q : Phase → Prop} (hi : ¬ q (phase i)) (h : ∃ k, q (phase k)) :
    ∃ k, q (Function.update phase i p k) := by
  obtain ⟨k, hk⟩ := h
  refine ⟨k, ?_⟩
  have hki : k ≠ i := by
    rintro rfl
    exact hi hk
  rwa [Function.update_of_ne hki]

theorem exists_update_self {q : Phase → Prop} (hp : q p) :
    ∃ k, q (Function.update phase i p k) :=
  ⟨i, by rwa [Function.update_self]⟩

/-- A phase that the mover does not enter was there before. -/
theorem of_update_eq {k : ι} {q : Phase} (h : Function.update phase i p k = q) (hp : p ≠ q) :
    phase k = q := by
  by_cases hk : k = i
  · rw [hk, Function.update_self] at h
    exact absurd h hp
  · rwa [Function.update_of_ne hk] at h

/-- **Every move keeps the law.** -/
theorem Lawful.move {count' : Nat} {closed' : Bool} (h : Lawful count closed phase)
    (hmove : Move (Free phase) count closed (phase i) count' closed' p) :
    Lawful count' closed' (Function.update phase i p) := by
  generalize hphase : phase i = old at hmove
  cases hmove with
  | stay =>
    rw [← hphase, Function.update_eq_self]
    exact h
  | take =>
    by_cases hzero : count' = 0
    · rw [if_pos hzero]
      exact ⟨fun _ _ => exists_update_self (.inl rfl), fun hne => absurd hzero hne,
        fun _ hne => absurd hzero hne, fun _ _ => exists_update_self (q := (· = .toClose)) rfl⟩
    · rw [if_neg hzero, ← hphase, Function.update_eq_self]
      exact ⟨fun hz => absurd hz hzero, fun _ => h.open_above_zero count'.succ_ne_zero,
        fun hk _ => h.closes_late hk count'.succ_ne_zero, fun _ hz => absurd hz hzero⟩
  | put =>
    by_cases hzero : count = 0
    · rw [if_pos hzero]
      exact ⟨fun hz => absurd hz count.succ_ne_zero, fun _ _ => exists_update_self (.inl rfl),
        fun _ _ => exists_update_self (q := (· = .toOpen)) rfl,
        fun _ hz => absurd hz count.succ_ne_zero⟩
    · rw [if_neg hzero, ← hphase, Function.update_eq_self]
      exact ⟨fun hz => absurd hz count.succ_ne_zero, fun _ => h.open_above_zero hzero,
        fun hk _ => h.closes_late hk hzero, fun _ hz => absurd hz count.succ_ne_zero⟩
  | lookClose hfree =>
    by_cases hzero : count = 0
    · rw [if_pos hzero]
      refine ⟨fun _ _ => exists_update_self (.inr rfl), fun hne => absurd hzero hne,
        fun _ hne => absurd hzero hne, fun hk _ => ?_⟩
      exact absurd (of_update_eq hk (by simp)) (hfree.ne_of_holds rfl _)
    · rw [if_neg hzero]
      refine ⟨fun hz => absurd hz hzero, fun _ hclosed => ?_, fun hk _ => ?_,
        fun _ hz => absurd hz hzero⟩
      · exact exists_update (by simp [hphase, Phase.WillOpen]) (h.open_above_zero hzero hclosed)
      · exact absurd (of_update_eq hk (by simp)) (hfree.ne_of_holds rfl _)
  | close =>
    refine ⟨fun _ hopen => (by cases hopen), fun hne _ => ?_, fun _ hne => ?_, fun hk hz => ?_⟩
    · obtain ⟨k, hk⟩ := h.closes_late hphase hne
      exact exists_update (by simp [hphase, Phase.WillOpen]) ⟨k, .inl hk⟩
    · exact exists_update (q := (· = .toOpen)) (by simp [hphase]) (h.closes_late hphase hne)
    · exact exists_update (q := (· = .toClose)) (by simp [hphase])
        (h.opens_late (of_update_eq hk (by simp)) hz)
  | lookOpen hfree =>
    by_cases hzero : count = 0
    · rw [if_pos hzero]
      refine ⟨fun _ hopen => ?_, fun hne => absurd hzero hne, fun _ hne => absurd hzero hne,
        fun hk _ => ?_⟩
      · exact exists_update (by simp [hphase, Phase.WillClose]) (h.closed_at_zero hzero hopen)
      · exact absurd (of_update_eq hk (by simp)) (hfree.ne_of_holds rfl _)
    · rw [if_neg hzero]
      refine ⟨fun hz => absurd hz hzero, fun _ _ => exists_update_self (.inr rfl),
        fun hk _ => ?_, fun _ hz => absurd hz hzero⟩
      exact absurd (of_update_eq hk (by simp)) (hfree.ne_of_holds rfl _)
  | reopen =>
    refine ⟨fun hz _ => ?_, fun _ hclosed => (by cases hclosed), fun hk hne => ?_, fun _ hz => ?_⟩
    · obtain ⟨k, hk⟩ := h.opens_late hphase hz
      exact exists_update (by simp [hphase, Phase.WillClose]) ⟨k, .inl hk⟩
    · exact exists_update (q := (· = .toOpen)) (by simp [hphase])
        (h.closes_late (of_update_eq hk (by simp)) hne)
    · exact exists_update (q := (· = .toClose)) (by simp [hphase]) (h.opens_late hphase hz)

end

/-! ## Counters over processes -/

/-- When one process moves, what the others contribute to a sum stays. -/
theorem exists_sum_update_of_mem {ι β M : Type} [DecidableEq ι] [AddCommMonoid M] {t : Finset ι}
    (f : ι → β → M) (b : ι → β) {i : ι} (hi : i ∈ t) :
    ∃ rest, ∀ x, ∑ k ∈ t, f k (Function.update b i x k) = f i x + rest := by
  refine ⟨∑ k ∈ t.erase i, f k (b k), fun x => ?_⟩
  rw [← Finset.add_sum_erase _ _ hi, Function.update_self]
  congr 1
  refine Finset.sum_congr rfl fun k hk => ?_
  rw [Function.update_of_ne (Finset.ne_of_mem_erase hk)]

theorem exists_sum_update {ι β M : Type} [Fintype ι] [DecidableEq ι] [AddCommMonoid M]
    (f : ι → β → M) (b : ι → β) (i : ι) :
    ∃ rest, ∀ x, ∑ k, f k (Function.update b i x k) = f i x + rest :=
  exists_sum_update_of_mem f b (Finset.mem_univ i)

/-- So the sum changes by what the process contributes. -/
theorem sum_update_add_of_mem {ι β M : Type} [DecidableEq ι] [AddCommMonoid M] {t : Finset ι}
    (f : β → M) (b : ι → β) {i : ι} (hi : i ∈ t) (x : β) :
    ∑ k ∈ t, f (Function.update b i x k) + f (b i) = ∑ k ∈ t, f (b k) + f x := by
  obtain ⟨rest, hrest⟩ := exists_sum_update_of_mem (fun _ => f) b hi
  have hself := hrest (b i)
  rw [Function.update_eq_self] at hself
  rw [hrest x, hself]
  ac_rfl

theorem sum_update_add {ι β M : Type} [Fintype ι] [DecidableEq ι] [AddCommMonoid M] (f : β → M)
    (b : ι → β) (i : ι) (x : β) :
    ∑ k, f (Function.update b i x k) + f (b i) = ∑ k, f (b k) + f x :=
  sum_update_add_of_mem f b (Finset.mem_univ i) x

end CountingGate
