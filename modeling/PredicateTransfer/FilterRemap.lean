import PredicateTransfer.Arrow
import PredicateTransfer.Lib.Fallible
import PredicateTransfer.Lib.ThreeValued

/-!
# Filters under another schema

A filter that is offered to a child refers to columns of the parent. Whether the child may see a
column is decided by its index, which column of the child is then read by its name; and a name may
repeat. So a remapped filter need not read what the filter reads (`holds_of_tryRemap` says when it
does).
-/

namespace PredicateTransfer

variable {S : Sig}

structure Column where
  name : String
  index : Nat
  deriving DecidableEq, Repr

/-- A deterministic filter: the columns it refers to, and what it makes of their values. -/
structure FilterExpr (S : Sig) where
  columns : List Column
  eval : List (Value S) → ThreeValued.Truth

/-- A filter keeps a row when it is true; a column is read by its index alone. -/
def FilterExpr.holds (f : FilterExpr S) (row : Row S) : Bool :=
  f.eval (f.columns.map fun c => Row.value row c.index) == some true

/-- `Schema::index_of`: the first field of that name. -/
def Schema.indexOf (schema : Schema) (name : String) : Option Nat :=
  schema.findIdx? (·.name == name)

/-- One column of `FilterRemapper::try_remap`. -/
def remapColumn (childSchema : Schema) (allowedIndices : List Nat) (c : Column) : Option Column :=
  if allowedIndices.contains c.index then
    (Schema.indexOf childSchema c.name).map fun newIndex => ⟨c.name, newIndex⟩
  else none

/-- `FilterRemapper::try_remap`. -/
def tryRemap (childSchema : Schema) (allowedIndices : List Nat) (f : FilterExpr S) :
    Option (FilterExpr S) :=
  (f.columns.mapM (remapColumn childSchema allowedIndices)).map fun columns => { f with columns }

/-! ## What a remapped filter reads -/

theorem forall₂_of_mapM {R : Value S → Value S → Prop} {schema : Schema} {allowed : List Nat}
    {row row' : Row S} {columns remapped : List Column}
    (h : ∀ c ∈ columns, ∀ k, Schema.indexOf schema c.name = some k →
      R (Row.value row k) (Row.value row' c.index))
    (hmap : columns.mapM (remapColumn schema allowed) = some remapped) :
    List.Forall₂ R (remapped.map fun c => Row.value row c.index)
      (columns.map fun c => Row.value row' c.index) := by
  have hall := Fallible.mapM_eq_some_iff.mp hmap
  clear hmap
  induction hall with
  | nil => exact .nil
  | @cons c c' _ _ hc _ ih =>
    unfold remapColumn at hc
    split at hc
    · obtain ⟨k, hk, rfl⟩ := Option.map_eq_some_iff.1 hc
      exact .cons (h c List.mem_cons_self k hk) (ih fun d hd => h d (List.mem_cons_of_mem c hd))
    · cases hc

/-- A remapped filter says of the child's row what the filter says of the output row, if the values
it reads there are as good as those of the output row. -/
theorem holds_of_tryRemap {R : Value S → Value S → Prop} {schema : Schema} {allowed : List Nat}
    {f g : FilterExpr S} {row row' : Row S} (hg : tryRemap schema allowed f = some g)
    (heval : ∀ vs ws, List.Forall₂ R vs ws → (f.eval vs == some true) = (f.eval ws == some true))
    (h : ∀ c ∈ f.columns, ∀ k, Schema.indexOf schema c.name = some k →
      R (Row.value row k) (Row.value row' c.index)) : g.holds row = f.holds row' := by
  obtain ⟨columns, hcolumns, rfl⟩ := Option.map_eq_some_iff.1 hg
  exact heval _ _ (forall₂_of_mapM h hcolumns)

/-- A filter is remapped if all its columns are allowed and their names are found. -/
theorem tryRemap_isSome_iff {schema : Schema} {allowed : List Nat} {f : FilterExpr S} :
    (tryRemap schema allowed f).isSome = true ↔
      ∀ c ∈ f.columns, c.index ∈ allowed ∧ (Schema.indexOf schema c.name).isSome = true := by
  have hcolumn : ∀ c : Column, (∃ d, remapColumn schema allowed c = some d) ↔
      c.index ∈ allowed ∧ (Schema.indexOf schema c.name).isSome = true := by
    intro c
    unfold remapColumn
    rw [← Option.isSome_iff_exists]
    by_cases hmem : c.index ∈ allowed <;> simp [hmem]
  rw [tryRemap, Option.isSome_map, Option.isSome_iff_exists]
  simp only [Fallible.mapM_eq_some_iff, ← hcolumn]
  induction f.columns with
  | nil => exact ⟨fun _ c hc => absurd hc List.not_mem_nil, fun _ => ⟨[], .nil⟩⟩
  | cons c columns ih =>
    rw [List.forall_mem_cons]
    constructor
    · rintro ⟨_, h⟩
      cases h with
      | cons hc hcs => exact ⟨⟨_, hc⟩, ih.1 ⟨_, hcs⟩⟩
    · rintro ⟨⟨d, hc⟩, hcs⟩
      obtain ⟨ds, hcs⟩ := ih.2 hcs
      exact ⟨d :: ds, .cons hc hcs⟩

end PredicateTransfer
