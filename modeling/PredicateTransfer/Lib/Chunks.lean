import Mathlib.Tactic

/-!
# Lists handed out in chunks

A source is asked for the next chunk of a list with the offset that it returned the time before,
until it returns none. `Yields` is the whole conversation, so it also says that it ends.

What is to be proved about a source is one call (`yields_of_step`): from an offset at which a list
is left, it hands out the beginning of that list and leaves the end, and some size goes down.
-/

namespace Chunks

variable {ω α β : Type} {fetch : ω → Option (List α × Option ω)} {limit : Nat}

/-- Asked from offset `o` on, the source returns these chunks, each of at most `limit` entries. A
call that fails returns no chunk. -/
inductive Yields (fetch : ω → Option (List α × Option ω)) (limit : Nat) :
    ω → List (List α) → Prop
  | last {o : ω} {chunk : List α} (hfetch : fetch o = some (chunk, none))
      (hlimit : chunk.length ≤ limit) : Yields fetch limit o [chunk]
  | more {o o' : ω} {chunk : List α} {chunks : List (List α)}
      (hfetch : fetch o = some (chunk, some o')) (hlimit : chunk.length ≤ limit)
      (hrest : Yields fetch limit o' chunks) : Yields fetch limit o (chunk :: chunks)

/-- One call at offset `o`, where `l` is left: the beginning of `l` is handed out, and either that
was all or the rest is left at the next offset, with some size gone down. -/
inductive Step (fetch : ω → Option (List α × Option ω)) (limit : Nat) (Left : ω → List α → Prop)
    (size : ω → List α → Nat) (o : ω) (l : List α) : Prop
  | last (hfetch : fetch o = some (l, none)) (hlimit : l.length ≤ limit)
  | more (chunk l' : List α) (o' : ω) (hfetch : fetch o = some (chunk, some o'))
      (hlimit : chunk.length ≤ limit) (hleft : Left o' l') (hl : l = chunk ++ l')
      (hsize : size o' l' < size o l)

/-- **A source that advances hands out its list.** -/
theorem yields_of_step {Left : ω → List α → Prop} {size : ω → List α → Nat}
    (hstep : ∀ o l, Left o l → Step fetch limit Left size o l) {o : ω} {l : List α}
    (ho : Left o l) : ∃ chunks, Yields fetch limit o chunks ∧ chunks.flatten = l := by
  induction hn : size o l using Nat.strong_induction_on generalizing o l with
  | _ n ih =>
    cases hstep o l ho with
    | last hfetch hlimit => exact ⟨[l], .last hfetch hlimit, by simp⟩
    | more chunk l' o' hfetch hlimit hleft hl hsize =>
      obtain ⟨chunks, hyields, hflat⟩ := ih (size o' l') (hn ▸ hsize) hleft rfl
      exact ⟨chunk :: chunks, .more hfetch hlimit hyields, by
        rw [List.flatten_cons, hflat, hl]⟩

/-- The chunks of a source whose entries are filtered chunk by chunk. -/
theorem Yields.filter {o : ω} {chunks : List (List α)} (h : Yields fetch limit o chunks)
    (p : α → Bool) :
    Yields (fun o => (fetch o).map fun x => (x.1.filter p, x.2)) limit o
      (chunks.map (List.filter p)) := by
  induction h with
  | last hfetch hlimit =>
    refine .last ?_ ((List.length_filter_le _ _).trans hlimit)
    simp [hfetch]
  | more hfetch hlimit _ ih =>
    refine .more ?_ ((List.length_filter_le _ _).trans hlimit) ih
    simp [hfetch]

end Chunks
