import Mathlib.Tactic

/-!
# Tables with chained buckets

A table stores, for each bucket, the number of its first row plus one, and for each row the
number of the next row of its bucket plus one; `0` ends a chain. Entries are added at the head, so
the chain of a bucket lists its rows in the reverse of the order in which they were added
(`Represents`). A bucket that is still empty needs no link (`Represents.insert_vacant`).
-/

namespace ChainedTable

variable {κ : Type}

/-- The rows of the chain that starts at `head`. -/
inductive Chain (next : List Nat) : Nat → List Nat → Prop
  | nil : Chain next 0 []
  | cons {i n : Nat} {rows : List Nat} (hnext : next[i]? = some n) (hrows : Chain next n rows) :
      Chain next (i + 1) (i :: rows)

namespace Chain

variable {next : List Nat} {head : Nat} {rows : List Nat}

theorem eq_nil (h : Chain next 0 rows) : rows = [] := by
  cases h
  rfl

theorem eq_zero (h : Chain next head []) : head = 0 := by
  cases h
  rfl

/-- A link outside the chain can be overwritten. -/
theorem set (h : Chain next head rows) {r : Nat} (hr : r ∉ rows) (v : Nat) :
    Chain (next.set r v) head rows := by
  induction h with
  | nil => exact .nil
  | @cons i n rows hnext _ ih =>
    rw [List.mem_cons, not_or] at hr
    exact .cons (by rw [List.getElem?_set_ne hr.1, hnext]) (ih hr.2)

end Chain

/-- The rows of one bucket, in the order in which they were added. -/
def bucket [DecidableEq κ] (entries : List (Nat × κ)) (k : κ) : List Nat :=
  (entries.filter fun x => x.2 = k).map (·.1)

section
variable [DecidableEq κ] {entries : List (Nat × κ)}

theorem mem_bucket {k : κ} {r : Nat} : r ∈ bucket entries k ↔ (r, k) ∈ entries := by
  simp [bucket]

theorem bucket_append (entries' : List (Nat × κ)) (k : κ) :
    bucket (entries ++ entries') k = bucket entries k ++ bucket entries' k := by
  simp [bucket]

theorem bucket_reverse (k : κ) : bucket entries.reverse k = (bucket entries k).reverse := by
  rw [bucket, bucket, List.filter_reverse, List.map_reverse]

/-- `heads` and `next` store these entries, in a table for `n` rows. -/
structure Represents (heads : κ → Nat) (next : List Nat) (n : Nat) (entries : List (Nat × κ)) :
    Prop where
  length : next.length = n
  chain : ∀ k, Chain next (heads k) (bucket entries k).reverse
  fresh : ∀ r < n, r ∉ entries.map (·.1) → next[r]? = some 0

variable {heads : κ → Nat} {next : List Nat} {n : Nat}

theorem represents_empty : Represents (fun _ : κ => 0) (List.replicate n 0) n [] where
  length := List.length_replicate
  chain _ := .nil
  fresh r hr _ := by simp [hr]

namespace Represents

theorem heads_eq_zero_iff (h : Represents heads next n entries) {k : κ} :
    heads k = 0 ↔ bucket entries k = [] := by
  have hchain := h.chain k
  constructor
  · intro hk
    rw [hk] at hchain
    exact List.reverse_eq_nil_iff.1 hchain.eq_nil
  · intro hk
    rw [hk] at hchain
    exact hchain.eq_zero

/-- Adding a row at the head of its bucket. -/
theorem insert (h : Represents heads next n entries) {r : Nat} {k : κ} (hr : r < n)
    (hfresh : r ∉ entries.map (·.1)) :
    Represents (Function.update heads k (r + 1)) (next.set r (heads k)) n
      (entries ++ [(r, k)]) where
  length := by rw [List.length_set, h.length]
  chain k' := by
    have hnotin : ∀ k, r ∉ (bucket entries k).reverse := by
      intro k hmem
      rw [List.mem_reverse, mem_bucket] at hmem
      exact hfresh (List.mem_map_of_mem hmem)
    rw [bucket_append, List.reverse_append]
    by_cases hk : k' = k
    · subst hk
      have hself : (bucket [(r, k')] k').reverse = [r] := by simp [bucket]
      rw [hself, Function.update_self]
      refine .cons ?_ ((h.chain k').set (hnotin k') _)
      rw [List.getElem?_set_self (h.length.symm ▸ hr)]
    · have hother : (bucket [(r, k)] k').reverse = [] := by simp [bucket, Ne.symm hk]
      rw [hother, Function.update_of_ne hk]
      exact (h.chain k').set (hnotin k') _
  fresh r' hr' hr'' := by
    rw [List.map_append, List.mem_append, not_or] at hr''
    have hne : r ≠ r' := fun e => hr''.2 (by simp [e])
    rw [List.getElem?_set_ne hne, h.fresh r' hr' hr''.1]

/-- The first row of a bucket: its link is already the end of the chain. -/
theorem insert_vacant (h : Represents heads next n entries) {r : Nat} {k : κ} (hr : r < n)
    (hfresh : r ∉ entries.map (·.1)) (hvacant : heads k = 0) :
    Represents (Function.update heads k (r + 1)) next n (entries ++ [(r, k)]) := by
  have hset : next.set r (heads k) = next := by
    have hlt : r < next.length := h.length.symm ▸ hr
    have hzero := h.fresh r hr hfresh
    rw [List.getElem?_eq_getElem hlt, Option.some_inj] at hzero
    rw [hvacant, ← hzero, List.set_getElem_self]
  rw [← hset]
  exact h.insert hr hfresh

end Represents

end

end ChainedTable
