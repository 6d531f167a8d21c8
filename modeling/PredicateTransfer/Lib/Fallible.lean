import Mathlib.Data.List.Forall2

/-!
# Maps that may fail

`List.mapM` in `Option` succeeds when the function does on every element; the results then stand
where the elements stood. In `Except` a function that succeeds on every element maps like a total
one, and a map that succeeds has succeeded on every element.
-/

namespace Fallible

variable {α β : Type} {f : α → Option β} {l : List α} {l' : List β}

theorem mapM_eq_some_iff : l.mapM f = some l' ↔ List.Forall₂ (fun a b => f a = some b) l l' := by
  induction l generalizing l' with
  | nil =>
    rw [List.mapM_nil, List.forall₂_nil_left_iff]
    exact Option.some_inj.trans eq_comm
  | cons a l ih =>
    rw [List.mapM_cons, List.forall₂_cons_left_iff]
    constructor
    · intro h
      obtain ⟨b, hb, h⟩ := Option.bind_eq_some_iff.mp h
      obtain ⟨bs, hbs, h⟩ := Option.bind_eq_some_iff.mp h
      cases h
      exact ⟨b, bs, hb, ih.mp hbs, rfl⟩
    · intro h
      obtain ⟨b, bs, hb, hbs, rfl⟩ := h
      rw [hb, ih.mpr hbs]
      rfl

theorem mapM_getElem? (h : l.mapM f = some l') :
    l'.length = l.length ∧ ∀ i : Nat, l'[i]? = (l[i]?).bind f := by
  have hall := mapM_eq_some_iff.mp h
  clear h
  induction hall with
  | nil => exact ⟨rfl, fun _ => rfl⟩
  | cons hb _ ih =>
    obtain ⟨hlen, hget⟩ := ih
    refine ⟨by simp [hlen], fun i => ?_⟩
    cases i with
    | zero => simpa using hb.symm
    | succ i => simpa using hget i

theorem mapM_eq_ok {ε : Type} {f : α → Except ε β} {g : α → β} (h : ∀ a ∈ l, f a = .ok (g a)) :
    l.mapM f = .ok (l.map g) := by
  induction l with
  | nil => rfl
  | cons a l ih =>
    have hrest := ih fun b hb => h b (List.mem_cons_of_mem a hb)
    rw [List.mapM_cons, h a List.mem_cons_self, hrest]
    rfl

theorem bind_eq_ok {ε : Type} {x : Except ε α} {f : α → Except ε β} {b : β} (h : x >>= f = .ok b) :
    ∃ a, x = .ok a ∧ f a = .ok b := by
  cases x with
  | error e => cases h
  | ok a => exact ⟨a, rfl, h⟩

theorem forall₂_of_mapM_eq_ok {ε : Type} {f : α → Except ε β} (h : l.mapM f = .ok l') :
    List.Forall₂ (fun a b => f a = .ok b) l l' := by
  induction l generalizing l' with
  | nil =>
    cases h
    exact .nil
  | cons a l ih =>
    rw [List.mapM_cons] at h
    obtain ⟨b, hb, h⟩ := bind_eq_ok h
    obtain ⟨bs, hbs, h⟩ := bind_eq_ok h
    cases h
    exact .cons hb (ih hbs)

end Fallible
