import Mathlib.Data.List.Basic
import Mathlib.Logic.Function.Basic
import Mathlib.Tactic

/-!
# A log in segments

A log is kept in segments that are started one after the other. Elements are appended to segments
that are not done; one reader reads the front segment from its start and goes on to the next one
once it is done and read.

Whatever the writers do, the reader gets the segments one after the other (`Ok.delivered`), and
never gets past a segment that is not done (`Ok.front_le`). It gets the elements in the order in
which they were written if there is one open segment at a time (`Ordered`).
-/

namespace SegmentedLog

/-- The segments with the reader's place, and what was written and read. -/
structure Log (β : Type) where
  items : Nat → List β
  done : Nat → Bool
  count : Nat
  front : Nat
  read : Nat
  accepted : List β
  delivered : List β

variable {β : Type}

inductive Log.Step (l : Log β) : Log β → Prop
  | stay : Step l l
  | start : Step l { l with count := l.count + 1 }
  /-- The segment may be done with this element. -/
  | append {f : Nat} (x : β) (last : Bool) (hf : f < l.count) (hopen : l.done f = false) :
      Step l { l with
        items := Function.update l.items f (l.items f ++ [x])
        done := Function.update l.done f last
        accepted := l.accepted ++ [x] }
  | finish {f : Nat} (hf : f < l.count) : Step l { l with done := Function.update l.done f true }
  | read {x : β} (hx : (l.items l.front)[l.read]? = some x) :
      Step l { l with read := l.read + 1, delivered := l.delivered ++ [x] }
  | advance (hdone : l.done l.front = true) (hread : l.read = (l.items l.front).length) :
      Step l { l with front := l.front + 1, read := 0 }

/-- The elements of the first `k` segments. -/
def Log.before (l : Log β) (k : Nat) : List β := (List.range k).flatMap l.items

variable {l l' : Log β} {f k : Nat}

theorem Log.before_succ : l.before (k + 1) = l.before k ++ l.items k := by
  simp [Log.before, List.range_succ]

theorem Log.before_congr (h : ∀ f < k, l'.items f = l.items f) : l'.before k = l.before k :=
  List.flatMap_congr fun f hf => h f (List.mem_range.1 hf)

theorem Log.before_prefix {m : Nat} (h : k ≤ m) : l.before k <+: l.before m := by
  induction h with
  | refl => exact List.prefix_rfl
  | step _ ih =>
    rw [Log.before_succ]
    exact ih.trans (List.prefix_append _ _)

/-! ## What the reader gets -/

structure Ok (l : Log β) : Prop where
  fresh : ∀ {f}, l.count ≤ f → l.items f = [] ∧ l.done f = false
  passed : ∀ {f}, f < l.front → l.done f = true
  read_le : l.read ≤ (l.items l.front).length
  delivered : l.delivered = l.before l.front ++ (l.items l.front).take l.read

/-- **The reader does not get past a segment that is not done.** -/
theorem Ok.front_le (h : Ok l) (hf : l.done f = false) : l.front ≤ f := by
  by_contra hlt
  rw [h.passed (Nat.lt_of_not_le hlt)] at hf
  cases hf

theorem Ok.front_le_count (h : Ok l) : l.front ≤ l.count := h.front_le (h.fresh le_rfl).2

theorem Ok.delivered_prefix (h : Ok l) (hf : l.done f = false) :
    l.delivered <+: l.before (f + 1) := by
  have hfront : l.delivered <+: l.before (l.front + 1) := by
    rw [h.delivered, Log.before_succ, List.prefix_append_right_inj]
    exact List.take_prefix _ _
  exact hfront.trans (Log.before_prefix (Nat.succ_le_succ (h.front_le hf)))

theorem Ok.append (h : Ok l) {x : β} {last : Bool} (hf : f < l.count) (hopen : l.done f = false) :
    Ok { l with
      items := Function.update l.items f (l.items f ++ [x])
      done := Function.update l.done f last
      accepted := l.accepted ++ [x] } := by
  have hfront := h.front_le hopen
  refine ⟨fun {g} hg => ?_, fun {g} hg => ?_, ?_, ?_⟩
  · have hne : g ≠ f := by rintro rfl; exact absurd hf (Nat.not_lt.2 hg)
    simpa only [Function.update_of_ne hne] using h.fresh hg
  · have hne : g ≠ f := by rintro rfl; exact absurd hg (Nat.not_lt.2 hfront)
    simpa only [Function.update_of_ne hne] using h.passed hg
  · by_cases heq : l.front = f
    · have hle := h.read_le
      simp only [heq, Function.update_self, List.length_append] at hle ⊢
      omega
    · simpa only [Function.update_of_ne heq] using h.read_le
  · -- The segments before the front are done, so they are not written to.
    have hbefore : Log.before { l with
        items := Function.update l.items f (l.items f ++ [x])
        done := Function.update l.done f last
        accepted := l.accepted ++ [x] } l.front = l.before l.front :=
      Log.before_congr fun g hg => Function.update_of_ne (by omega) _ _
    dsimp only
    rw [hbefore, h.delivered]
    by_cases heq : l.front = f
    · have hle := h.read_le
      rw [heq] at hle
      rw [heq, Function.update_self, List.take_append_of_le_length hle]
    · rw [Function.update_of_ne heq]

theorem Ok.finish (h : Ok l) (hf : f < l.count) :
    Ok { l with done := Function.update l.done f true } := by
  refine ⟨fun {g} hg => ?_, fun {g} hg => ?_, h.read_le, h.delivered⟩
  · have hne : g ≠ f := by rintro rfl; exact absurd hf (Nat.not_lt.2 hg)
    simpa only [Function.update_of_ne hne] using h.fresh hg
  · by_cases heq : g = f
    · rw [heq]
      exact Function.update_self _ _ _
    · simpa only [Function.update_of_ne heq] using h.passed hg

theorem Ok.step (h : Ok l) (hstep : l.Step l') : Ok l' := by
  cases hstep with
  | stay => exact h
  | start =>
    exact ⟨fun {f} hf => h.fresh ((Nat.le_succ _).trans hf), h.passed, h.read_le, h.delivered⟩
  | append x last hf hopen => exact h.append hf hopen
  | finish hf => exact h.finish hf
  | read hx =>
    obtain ⟨hlt, hx⟩ := List.getElem?_eq_some_iff.1 hx
    refine ⟨h.fresh, h.passed, hlt, ?_⟩
    dsimp only
    rw [h.delivered, List.append_assoc, ← hx, List.take_append_getElem hlt]
    rfl
  | advance hdone hread =>
    refine ⟨h.fresh, fun {f} hf => ?_, Nat.zero_le _, ?_⟩
    · rcases Nat.lt_succ_iff_lt_or_eq.1 hf with hf | rfl
      · exact h.passed hf
      · exact hdone
    · dsimp only
      rw [h.delivered, hread, List.take_length, List.take_zero, List.append_nil]
      exact Log.before_succ.symm

/-! ## One open segment at a time -/

structure Ordered (l : Log β) : Prop where
  last_open : ∀ {f}, f < l.count → l.done f = false → f + 1 = l.count
  accepted : l.accepted = l.before l.count

theorem Ordered.step (h : Ordered l) (hok : Ok l) (hstep : l.Step l')
    (hstart : l.count < l'.count → ∀ f < l.count, l.done f = true) : Ordered l' := by
  cases hstep with
  | stay => exact h
  | start =>
    refine ⟨fun {f} hf hopen => ?_, ?_⟩
    · rcases Nat.lt_succ_iff_lt_or_eq.1 hf with hf | rfl
      · rw [hstart (Nat.lt_succ_self _) f hf] at hopen
        cases hopen
      · rfl
    · rw [h.accepted]
      exact ((Log.before_succ (l := l)).trans
        (by rw [(hok.fresh le_rfl).1, List.append_nil])).symm
  | @append f x last hf hopen =>
    have hlast := h.last_open hf hopen
    refine ⟨fun {g} hg hgopen => ?_, ?_⟩
    · by_cases heq : g = f
      · rw [heq]
        exact hlast
      · simp only [Function.update_of_ne heq] at hgopen
        exact h.last_open hg hgopen
    · dsimp only
      rw [h.accepted, ← hlast, Log.before_succ, Log.before_succ, List.append_assoc]
      congr 1
      · exact (Log.before_congr fun g hg => Function.update_of_ne (by omega) _ _).symm
      · dsimp only
        rw [Function.update_self]
  | @finish f hf =>
    refine ⟨fun {g} hg hgopen => ?_, h.accepted⟩
    by_cases heq : g = f
    · simp [heq] at hgopen
    · simp only [Function.update_of_ne heq] at hgopen
      exact h.last_open hg hgopen
  | read hx => exact ⟨h.last_open, h.accepted⟩
  | advance hdone hread => exact ⟨h.last_open, h.accepted⟩

/-- **The reader gets the elements in the order in which they were written.** -/
theorem Ordered.delivered_prefix (h : Ordered l) (hok : Ok l) : l.delivered <+: l.accepted := by
  rw [h.accepted]
  rcases Nat.eq_or_lt_of_le hok.front_le_count with heq | hlt
  · rw [hok.delivered, heq, (hok.fresh le_rfl).1, List.take_nil, List.append_nil]
  · rw [hok.delivered]
    refine List.IsPrefix.trans ?_ (Log.before_prefix hlt)
    rw [Log.before_succ, List.prefix_append_right_inj]
    exact List.take_prefix _ _

/-- At the end of the last segment there is nothing left. -/
theorem Ordered.all_read (h : Ordered l) (hok : Ok l)
    (hend : l.front = l.count ∨
      l.front + 1 = l.count ∧ l.read = (l.items l.front).length) : l.delivered = l.accepted := by
  rw [h.accepted, hok.delivered]
  rcases hend with heq | ⟨heq, hread⟩
  · rw [heq, (hok.fresh le_rfl).1, List.take_nil, List.append_nil]
  · rw [← heq, hread, List.take_length, Log.before_succ]

end SegmentedLog
