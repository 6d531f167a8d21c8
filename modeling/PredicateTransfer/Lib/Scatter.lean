import Mathlib.Data.List.Nodup
import Mathlib.Data.List.Zip

/-!
# Results written back to where their items came from

A list is filtered, what is left is sent away, and one result comes back for each item. To write the
results back it is enough to know where each item stood. No arithmetic of positions is needed for
that: an item carries its position as a tag, filters keep the tags, and a result is looked up by the
tag of its item. Tags that were different stay so, hence a tag has at most one result.
-/

namespace Scatter

variable {α β ι κ : Type}

/-! ### Writing -/

/-- Write every result at the position it is tagged with. -/
def scatter (slots : List β) (tagged : List (Nat × β)) : List β :=
  tagged.foldl (fun slots x => slots.set x.1 x.2) slots

theorem scatter_cons (slots : List β) (i : Nat) (r : β) (tagged : List (Nat × β)) :
    scatter slots ((i, r) :: tagged) = scatter (slots.set i r) tagged := rfl

theorem lookup_eq_none_of_not_mem [BEq ι] [LawfulBEq ι] {i : ι} {tagged : List (ι × β)}
    (h : i ∉ tagged.map (·.1)) : tagged.lookup i = none := by
  rw [List.lookup_eq_none_iff]
  intro x hx
  by_contra hne
  have heq : i = x.1 := by simpa using hne
  exact h (heq ▸ List.mem_map_of_mem hx)

/-- A slot holds the result with its tag, or what it held before. -/
theorem getElem?_scatter {tagged : List (Nat × β)} (hnodup : (tagged.map (·.1)).Nodup)
    (slots : List β) (i : Nat) :
    (scatter slots tagged)[i]? = slots[i]?.map fun old => (tagged.lookup i).getD old := by
  induction tagged generalizing slots with
  | nil => simp [scatter]
  | cons x tagged ih =>
    obtain ⟨k, r⟩ := x
    obtain ⟨hk, hnodup⟩ := List.nodup_cons.mp hnodup
    rw [scatter_cons, ih hnodup]
    by_cases hik : i = k
    · subst hik
      rw [lookup_eq_none_of_not_mem hk, List.lookup_cons_self, List.getElem?_set_self']
      cases slots[i]? <;> rfl
    · rw [List.getElem?_set_ne (Ne.symm hik), List.lookup_cons, beq_false_of_ne hik]

/-! ### Filtering -/

/-- The items that pass, each with its position. -/
def positions (p : α → Bool) (items : List α) : List (α × Nat) :=
  items.zipIdx.filter fun x => p x.1

theorem map_fst_positions (p : α → Bool) (items : List α) :
    (positions p items).map (·.1) = items.filter p := by
  have hitems : items.zipIdx.map (·.1) = items := List.zipIdx_map_fst 0 items
  rw [← congrArg (List.filter p) hitems, List.filter_map]
  rfl

theorem nodup_positions (p : α → Bool) (items : List α) :
    ((positions p items).map (·.2)).Nodup := by
  have hsub : ((positions p items).map (·.2)).Sublist (items.zipIdx.map (·.2)) :=
    List.filter_sublist.map _
  refine hsub.nodup ?_
  rw [List.zipIdx_map_snd]
  exact List.nodup_range' 1

theorem lt_of_mem_positions {p : α → Bool} {items : List α} {i : Nat}
    (h : i ∈ (positions p items).map (·.2)) : i < items.length := by
  obtain ⟨x, hx, rfl⟩ := List.mem_map.mp h
  have hmem := List.mem_of_mem_filter hx
  exact (List.mem_zipIdx' hmem).1

theorem mem_positions {p : α → Bool} {items : List α} {a : α} {i : Nat} :
    (a, i) ∈ positions p items ↔ items[i]? = some a ∧ p a = true := by
  rw [positions, List.mem_filter, List.mem_zipIdx_iff_getElem?]

theorem mem_zip_positions_from {p : α → Bool} {items : List α} {others : List β} {i k : Nat}
    {b : β} :
    (i, b) ∈ (((items.zipIdx k).filter fun x => p x.1).map (·.2)).zip others ↔
      ∃ j a, i = k + j ∧ items[j]? = some a ∧ p a = true ∧
        others[(items.take j).countP p]? = some b := by
  induction items generalizing k others with
  | nil => simp
  | cons a items ih =>
    rw [List.zipIdx_cons, ← Nat.or_exists_add_one]
    by_cases ha : p a
    · cases others with
      | nil => simp
      | cons b' others =>
        rw [List.filter_cons_of_pos (by exact ha), List.map_cons, List.zip_cons_cons,
          List.mem_cons, ih]
        have hb : b = b' ↔ b' = b := eq_comm
        simp [ha, hb, Nat.add_assoc, Nat.add_comm 1]
    · rw [List.filter_cons_of_neg (by exact ha), ih]
      simp [ha, Nat.add_assoc, Nat.add_comm 1]

/-- What stands beside an item that passes is found behind one entry for every earlier item that
passes. -/
theorem mem_zip_positions {p : α → Bool} {items : List α} {others : List β} {i : Nat} {b : β} :
    (i, b) ∈ ((positions p items).map (·.2)).zip others ↔
      ∃ a, items[i]? = some a ∧ p a = true ∧ others[(items.take i).countP p]? = some b := by
  rw [positions, mem_zip_positions_from]
  constructor
  · intro h
    obtain ⟨j, a, rfl, h⟩ := h
    rw [Nat.zero_add]
    exact ⟨a, h⟩
  · intro h
    obtain ⟨a, h⟩ := h
    exact ⟨i, a, (Nat.zero_add i).symm, h⟩

theorem map_tags_from (p : α → Bool) (tags : List ι) (items : List α) (k : Nat)
    (hlen : items.length ≤ (tags.drop k).length) :
    ((items.zipIdx k).filter fun x => p x.1).map (tags[·.2]?) =
      (((tags.drop k).zip items).filter fun x => p x.2).map (some ·.1) := by
  induction items generalizing k with
  | nil => simp
  | cons a items ih =>
    rw [List.length_cons, List.length_drop] at hlen
    have hk : k < tags.length := by omega
    have hrest := ih (k + 1) (by rw [List.length_drop]; omega)
    rw [List.drop_eq_getElem_cons hk, List.zipIdx_cons, List.zip_cons_cons]
    by_cases ha : p a
    · simp [ha, hrest, List.getElem?_eq_getElem hk]
    · simp [ha, hrest]

/-- The tags of the items that pass are the tags at their positions. -/
theorem getElem?_tags (p : α → Bool) {tags : List ι} {items : List α}
    (hlen : items.length ≤ tags.length) (j : Nat) :
    ((positions p items).map (·.2))[j]?.bind (tags[·]?) =
      (((tags.zip items).filter fun x => p x.2).map (·.1))[j]? := by
  have hmap : (positions p items).map (tags[·.2]?) =
      ((tags.zip items).filter fun x => p x.2).map (some ·.1) :=
    map_tags_from p tags items 0 hlen
  have hj := congrArg (fun l => l[j]?.join) hmap
  simp only [List.getElem?_map] at hj ⊢
  cases hpos : (positions p items)[j]? <;>
    cases hzip : ((tags.zip items).filter fun x => p x.2)[j]? <;> simp_all

/-! ### Looking up -/

/-- Results are found under tags that were renamed one to one. -/
theorem lookup_zip_map [BEq ι] [LawfulBEq ι] [BEq κ] [LawfulBEq κ] {f : ι → κ}
    (hf : Function.Injective f) (tags : List ι) (results : List β) (i : ι) :
    ((tags.map f).zip results).lookup (f i) = (tags.zip results).lookup i := by
  induction tags generalizing results with
  | nil => rfl
  | cons t tags ih =>
    cases results with
    | nil => rfl
    | cons r results =>
      rw [List.map_cons, List.zip_cons_cons, List.zip_cons_cons, List.lookup_cons,
        List.lookup_cons, ih]
      by_cases hit : i = t
      · subst hit
        simp
      · rw [beq_false_of_ne hit, beq_false_of_ne (hf.ne hit)]

/-- No result is found under a tag that no item has. -/
theorem lookup_zip_eq_none [BEq ι] [LawfulBEq ι] {tags : List ι} {i : ι} (h : i ∉ tags)
    (results : List β) : (tags.zip results).lookup i = none := by
  apply lookup_eq_none_of_not_mem
  intro hmem
  obtain ⟨x, hx, rfl⟩ := List.mem_map.mp hmem
  exact h (List.of_mem_zip hx).1

/-- The result for an item is found under its tag. -/
theorem lookup_zip_of_getElem? [BEq ι] [LawfulBEq ι] {tags : List ι} (hnodup : tags.Nodup)
    {results : List β} {k : Nat} {i : ι} {r : β} (hi : tags[k]? = some i)
    (hr : results[k]? = some r) : (tags.zip results).lookup i = some r := by
  induction tags generalizing results k with
  | nil => simp at hi
  | cons t tags ih =>
    obtain ⟨ht, hnodup⟩ := List.nodup_cons.mp hnodup
    cases results with
    | nil => simp at hr
    | cons r' results =>
      cases k with
      | zero => simp_all
      | succ k =>
        have hne : i ≠ t := by
          intro heq
          exact ht (heq ▸ List.mem_of_getElem? hi)
        rw [List.zip_cons_cons, List.lookup_cons, beq_false_of_ne hne]
        exact ih hnodup hi hr

end Scatter
