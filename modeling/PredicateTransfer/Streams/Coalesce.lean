import Mathlib.Tactic
import PredicateTransfer.Lib.Runs

/-!
# Coalescing batches

`LimitedBatchCoalescer` joins small batches to larger ones, and passes on no more rows than its
limit. Arrow's `BatchCoalescer` below it is given by its contract (`BatchCoalescer`).

Two streams drive it: that of a filter, which stops at the limit (`FilterExecStream`), and that of a
repartition (`CoalescedStream`). What a turn of either does is a `Coalescing.Turn`, so both keep the
same invariant. The first ends, with the first rows that pass the filter, as many as the limit says
(`filter_stream_rows`); the second has at its end the rows of its input.
-/

namespace PredicateTransfer

open Runs

variable {ι ρ σ ε : Type}

/-! ## The coalescer -/

/-- Arrow's `BatchCoalescer`: given the buffered rows and a batch, the completed batches and what is
buffered then. -/
structure BatchCoalescer (ρ : Type) where
  push : List ρ → List ρ → List (List ρ) × List ρ
  push_flatten : ∀ buffered batch,
    (push buffered batch).1.flatten ++ (push buffered batch).2 = buffered ++ batch
  push_ne_nil : ∀ buffered batch, ∀ b ∈ (push buffered batch).1, b ≠ []

structure LimitedBatchCoalescer (ρ : Type) where
  completed : List (List ρ)
  buffered : List ρ
  totalRows : Nat
  fetch : Option Nat
  finished : Bool

inductive PushBatchStatus where
  | continue'
  | limitReached
  deriving DecidableEq, Repr

namespace LimitedBatchCoalescer

def new (fetch : Option Nat) : LimitedBatchCoalescer ρ := ⟨[], [], 0, fetch, false⟩

variable (A : BatchCoalescer ρ) (c : LimitedBatchCoalescer ρ) (batch : List ρ)

/-- Push to the inner coalescer. -/
def pushInner : LimitedBatchCoalescer ρ :=
  { c with
    completed := c.completed ++ (A.push c.buffered batch).1
    buffered := (A.push c.buffered batch).2
    totalRows := c.totalRows + batch.length }

def pushBatch : Except String (LimitedBatchCoalescer ρ × PushBatchStatus) :=
  if c.finished then .error "LimitedBatchCoalescer: cannot push batch after finish"
  else match c.fetch with
    | some fetch =>
      if fetch ≤ c.totalRows then .ok (c, .limitReached)
      else if fetch ≤ c.totalRows + batch.length then
        .ok (c.pushInner A (batch.take (fetch - c.totalRows)), .limitReached)
      else .ok (c.pushInner A batch, .continue')
    | none => .ok (c.pushInner A batch, .continue')

def finish : LimitedBatchCoalescer ρ :=
  { c with
    completed := c.completed ++ if c.buffered.isEmpty then [] else [c.buffered]
    buffered := []
    finished := true }

/-- The rows that it has not passed on yet. -/
def rows : List ρ := c.completed.flatten ++ c.buffered

end LimitedBatchCoalescer

/-- The first rows, up to the limit. -/
def takeFetch (fetch : Option Nat) (xs : List ρ) : List ρ :=
  match fetch with
  | none => xs
  | some fetch => xs.take fetch

/-! ## What the coalescer keeps -/

namespace LimitedBatchCoalescer

variable {A : BatchCoalescer ρ} {c c' : LimitedBatchCoalescer ρ} {batch : List ρ}

theorem rows_pushInner : (c.pushInner A batch).rows = c.rows ++ batch := by
  rw [rows, pushInner, List.flatten_append, List.append_assoc, A.push_flatten, rows,
    List.append_assoc]

theorem rows_finish : c.finish.rows = c.rows := by
  rw [rows, finish, rows]
  cases hbuffered : c.buffered <;> simp

/-- Pushing adds the rows that the limit leaves room for. -/
theorem pushBatch_eq_ok (pushed : List ρ) {status : PushBatchStatus}
    (htotal : c.totalRows = (takeFetch c.fetch pushed).length)
    (h : c.pushBatch A batch = .ok (c', status)) :
    ∃ more, c'.rows = c.rows ++ more ∧
      takeFetch c.fetch pushed ++ more = takeFetch c.fetch (pushed ++ batch) ∧
      c'.totalRows = c.totalRows + more.length ∧ c'.fetch = c.fetch ∧ c'.finished = c.finished ∧
      (status = .limitReached → ∃ fetch, c.fetch = some fetch ∧ c'.totalRows = fetch) := by
  unfold pushBatch at h
  split_ifs at h
  split at h
  · rename_i fetch hfetch
    rw [hfetch, takeFetch, List.length_take] at htotal
    rw [hfetch]
    simp only [takeFetch]
    split_ifs at h with hreached hnow
    · cases h
      refine ⟨[], by simp, ?_, by simp, hfetch, rfl, fun _ => ⟨fetch, rfl, by omega⟩⟩
      rw [List.append_nil, List.take_append_of_le_length (by omega)]
    · cases h
      refine ⟨batch.take (fetch - c.totalRows), rows_pushInner, ?_, rfl, hfetch, rfl,
        fun _ => ⟨fetch, rfl, ?_⟩⟩
      · rw [List.take_append, show c.totalRows = pushed.length by omega]
      · simp only [pushInner, List.length_take]
        omega
    · cases h
      refine ⟨batch, rows_pushInner, ?_, rfl, hfetch, rfl, fun h => (by cases h)⟩
      rw [List.take_append, List.take_of_length_le (show batch.length ≤ fetch - pushed.length by
        omega)]
  · rename_i hfetch
    cases h
    exact ⟨batch, rows_pushInner, by simp [hfetch, takeFetch], rfl, rfl, rfl,
      fun h => (by cases h)⟩

theorem pushBatch_ne_error {msg : String} (h : c.finished = false) :
    c.pushBatch A batch ≠ .error msg := by
  simp only [pushBatch, h, Bool.false_eq_true, if_false]
  split
  · split_ifs <;> simp
  · simp

/-- The batches and rows that it has. -/
def weight (c : LimitedBatchCoalescer ρ) : Nat := c.completed.length + c.buffered.length

theorem length_le_flatten {bs : List (List ρ)} (h : ∀ b ∈ bs, b ≠ []) :
    bs.length ≤ bs.flatten.length := by
  induction bs with
  | nil => simp
  | cons b bs ih =>
    have hb := List.length_pos_iff.2 (h b (by simp))
    have hrest := ih fun b hb => h b (by simp [hb])
    simp only [List.flatten_cons, List.length_append, List.length_cons]
    omega

theorem weight_pushInner : (c.pushInner A batch).weight ≤ c.weight + batch.length := by
  have hflatten := congrArg List.length (A.push_flatten c.buffered batch)
  have hle := length_le_flatten (A.push_ne_nil c.buffered batch)
  simp only [List.length_append] at hflatten
  simp only [weight, pushInner, List.length_append]
  omega

theorem weight_pushBatch {status : PushBatchStatus} (h : c.pushBatch A batch = .ok (c', status)) :
    c'.weight ≤ c.weight + batch.length := by
  unfold pushBatch at h
  split_ifs at h
  split at h
  · split_ifs at h
    · cases h
      omega
    · cases h
      refine weight_pushInner.trans ?_
      exact Nat.add_le_add_left (List.length_take_le' _ _) _
    · cases h
      exact weight_pushInner
  · cases h
    exact weight_pushInner

theorem weight_finish : c.finish.weight ≤ c.weight := by
  rw [weight, finish, weight]
  cases hbuffered : c.buffered <;> simp

end LimitedBatchCoalescer

/-! ## A stream over the coalescer -/

/-- What a stream over the coalescer has. -/
structure Coalescing (ι σ ε : Type) where
  input : List ι
  batchCoalescer : LimitedBatchCoalescer σ
  /-- What it has returned. -/
  out : List (Except ε (List σ))

/-- The rows that the stream has returned. -/
def returnedRows (out : List (Except ε (List σ))) : List σ :=
  (out.filterMap Except.toOption).flatten

theorem returnedRows_append_ok (out : List (Except ε (List σ))) (batch : List σ) :
    returnedRows (out ++ [.ok batch]) = returnedRows out ++ batch := by
  simp [returnedRows, Except.toOption]

theorem returnedRows_append_error (out : List (Except ε (List σ))) (e : ε) :
    returnedRows (out ++ [.error e]) = returnedRows out := by
  simp [returnedRows, Except.toOption]

namespace Coalescing

/-- The rows of the items; one that fails has none. -/
def rowsOfAll (rowsOf : ι → Except ε (List σ)) (items : List ι) : List σ :=
  items.flatMap fun item => (rowsOf item).toOption.getD []

/-- What a turn does: it returns a completed batch, hands on an error, pushes the rows of an item,
and stops there if the limit is reached, or stops at the end of its input. -/
inductive Turn (A : BatchCoalescer σ) (rowsOf : ι → Except ε (List σ)) (s : Coalescing ι σ ε) :
    Coalescing ι σ ε → Prop
  | emit {batch : List σ} {completed : List (List σ)}
      (hcompleted : s.batchCoalescer.completed = batch :: completed) :
      Turn A rowsOf s
        ⟨s.input, { s.batchCoalescer with completed := completed }, s.out ++ [.ok batch]⟩
  | fail {item : ι} {rest : List ι} {e : ε} (hfinished : s.batchCoalescer.finished = false)
      (hinput : s.input = item :: rest) (hitem : rowsOf item = .error e) :
      Turn A rowsOf s ⟨rest, s.batchCoalescer, s.out ++ [.error e]⟩
  | push {item : ι} {rest : List ι} {rows : List σ} {c : LimitedBatchCoalescer σ}
      {status : PushBatchStatus} (hfinished : s.batchCoalescer.finished = false)
      (hinput : s.input = item :: rest) (hitem : rowsOf item = .ok rows)
      (hpush : s.batchCoalescer.pushBatch A rows = .ok (c, status)) :
      Turn A rowsOf s ⟨rest, c, s.out⟩
  | stop {item : ι} {rest : List ι} {rows : List σ} {c : LimitedBatchCoalescer σ}
      (hfinished : s.batchCoalescer.finished = false)
      (hinput : s.input = item :: rest) (hitem : rowsOf item = .ok rows)
      (hpush : s.batchCoalescer.pushBatch A rows = .ok (c, .limitReached)) :
      Turn A rowsOf s ⟨rest, c.finish, s.out⟩
  | finish (hcompleted : s.batchCoalescer.completed = []) (hinput : s.input = []) :
      Turn A rowsOf s ⟨s.input, s.batchCoalescer.finish, s.out⟩

/-- The stream has returned the first rows of what it has read, but for those that it still has. -/
structure Inv (rowsOf : ι → Except ε (List σ)) (fetch : Option Nat) (input read : List ι)
    (s : Coalescing ι σ ε) : Prop where
  input_eq : read ++ s.input = input
  fetch_eq : s.batchCoalescer.fetch = fetch
  rows : returnedRows s.out ++ s.batchCoalescer.rows = takeFetch fetch (rowsOfAll rowsOf read)
  total : s.batchCoalescer.totalRows = (takeFetch fetch (rowsOfAll rowsOf read)).length
  /-- It stops at the end of its input, or when it has as many rows as it may return. -/
  finished : s.batchCoalescer.finished = true → s.batchCoalescer.buffered = [] ∧
    (s.input = [] ∨ ∃ limit, fetch = some limit ∧ s.batchCoalescer.totalRows = limit)

variable {A : BatchCoalescer σ} {rowsOf : ι → Except ε (List σ)} {fetch : Option Nat}
  {input read : List ι} {s s' : Coalescing ι σ ε}

theorem rowsOfAll_append_singleton (item : ι) :
    rowsOfAll rowsOf (read ++ [item]) =
      rowsOfAll rowsOf read ++ (rowsOf item).toOption.getD [] := by
  simp [rowsOfAll]

theorem inv_start : Inv rowsOf fetch input [] ⟨input, .new fetch, []⟩ := by
  refine ⟨rfl, rfl, ?_, ?_, fun h => (by cases h)⟩ <;>
    cases fetch <;> simp [LimitedBatchCoalescer.new, LimitedBatchCoalescer.rows, rowsOfAll,
      takeFetch, returnedRows]

/-- A batch is read and pushed. -/
theorem Inv.push {item : ι} {rest : List ι} {rows : List σ} {c : LimitedBatchCoalescer σ}
    {status : PushBatchStatus} (h : Inv rowsOf fetch input read s)
    (hfinished : s.batchCoalescer.finished = false) (hinput : s.input = item :: rest)
    (hitem : rowsOf item = .ok rows)
    (hpush : s.batchCoalescer.pushBatch A rows = .ok (c, status)) :
    Inv rowsOf fetch input (read ++ [item]) ⟨rest, c, s.out⟩ ∧
      (status = .limitReached → ∃ limit, fetch = some limit ∧ c.totalRows = limit) := by
  have hread : rowsOfAll rowsOf (read ++ [item]) = rowsOfAll rowsOf read ++ rows := by
    rw [rowsOfAll_append_singleton, hitem]
    rfl
  obtain ⟨more, hmore, htake, htotal, hfetch, hfin, hlimit⟩ :=
    LimitedBatchCoalescer.pushBatch_eq_ok (rowsOfAll rowsOf read)
      (by rw [h.fetch_eq]; exact h.total) hpush
  rw [h.fetch_eq] at htake hlimit
  refine ⟨⟨?_, hfetch.trans h.fetch_eq, ?_, ?_, fun h => ?_⟩, hlimit⟩
  · rw [List.append_assoc, List.singleton_append, ← hinput, h.input_eq]
  · rw [hmore, ← List.append_assoc, h.rows, htake, hread]
  · rw [htotal, h.total, hread, ← htake, List.length_append]
  · rw [hfin, hfinished] at h
    cases h

theorem Inv.turn (h : Inv rowsOf fetch input read s) (hturn : Turn A rowsOf s s') :
    ∃ read', Inv rowsOf fetch input read' s' := by
  cases hturn with
  | emit hcompleted =>
    refine ⟨read, h.input_eq, h.fetch_eq, ?_, h.total, h.finished⟩
    rw [← h.rows, returnedRows_append_ok]
    simp [LimitedBatchCoalescer.rows, hcompleted]
  | @fail item rest e hfinished hinput hitem =>
    have hread : rowsOfAll rowsOf (read ++ [item]) = rowsOfAll rowsOf read := by
      rw [rowsOfAll_append_singleton, hitem]
      exact List.append_nil _
    refine ⟨read ++ [item], ?_, h.fetch_eq, ?_, ?_, fun h => ?_⟩
    · rw [List.append_assoc, List.singleton_append, ← hinput, h.input_eq]
    · rw [returnedRows_append_error, hread, h.rows]
    · rw [hread, h.total]
    · rw [hfinished] at h
      cases h
  | push hfinished hinput hitem hpush =>
    exact ⟨_, (h.push hfinished hinput hitem hpush).1⟩
  | stop hfinished hinput hitem hpush =>
    obtain ⟨hc, hlimit⟩ := h.push hfinished hinput hitem hpush
    refine ⟨_, hc.input_eq, hc.fetch_eq, ?_, hc.total, fun _ => ⟨rfl, .inr (hlimit rfl)⟩⟩
    rw [LimitedBatchCoalescer.rows_finish]
    exact hc.rows
  | finish _ hinput =>
    refine ⟨read, h.input_eq, h.fetch_eq, ?_, h.total, fun _ => ⟨rfl, .inl hinput⟩⟩
    rw [LimitedBatchCoalescer.rows_finish, h.rows]

/-- At its end the stream has returned the first rows of its input, up to the limit. -/
theorem Inv.returned (h : Inv rowsOf fetch input read s)
    (hcompleted : s.batchCoalescer.completed = []) (hfinished : s.batchCoalescer.finished = true) :
    returnedRows s.out = takeFetch fetch (rowsOfAll rowsOf input) := by
  obtain ⟨hbuffered, hstop⟩ := h.finished hfinished
  have hrows := h.rows
  rw [LimitedBatchCoalescer.rows, hcompleted, hbuffered, List.flatten_nil, List.append_nil,
    List.append_nil] at hrows
  rw [hrows, ← h.input_eq, rowsOfAll, rowsOfAll, List.flatMap_append]
  rcases hstop with hinput | ⟨limit, rfl, hlimit⟩
  · rw [hinput, List.flatMap_nil, List.append_nil]
  · -- As many rows as it may return are there, so the rest of the input does not matter.
    have htotal := h.total
    simp only [takeFetch, rowsOfAll, List.length_take] at htotal ⊢
    rw [List.take_append_of_le_length (by omega)]

/-- A bound on the turns that are left, if an item has at most as many rows as its size says. -/
def weight (size : ι → Nat) (s : Coalescing ι σ ε) : Nat :=
  s.batchCoalescer.weight + (if s.batchCoalescer.finished then 0 else 1) +
    (s.input.map fun item => 1 + size item).sum

theorem weight_of_not_finished {size : ι → Nat} (h : s.batchCoalescer.finished = false) :
    weight size s = s.batchCoalescer.weight + 1 + (s.input.map fun item => 1 + size item).sum := by
  rw [weight, h]
  rfl

theorem weight_le {size : ι → Nat} {c : LimitedBatchCoalescer σ}
    {out : List (Except ε (List σ))} :
    weight size ⟨input, c, out⟩ ≤ c.weight + 1 + (input.map fun item => 1 + size item).sum := by
  simp only [weight]
  split_ifs <;> omega

/-- A turn uses up some of the weight, if it does not finish the coalescer again. -/
theorem Turn.weight_lt {size : ι → Nat} (h : Turn A rowsOf s s')
    (hsize : ∀ item rows, rowsOf item = .ok rows → rows.length ≤ size item)
    (hopen : s.batchCoalescer.completed = [] → s.batchCoalescer.finished = false) :
    weight size s' < weight size s := by
  cases h with
  | emit hcompleted =>
    simp only [weight, LimitedBatchCoalescer.weight, hcompleted, List.length_cons]
    omega
  | fail _ hinput _ =>
    simp only [weight, hinput, List.map_cons, List.sum_cons]
    omega
  | push hfinished hinput hitem hpush =>
    have hrows := hsize _ _ hitem
    have hweight := LimitedBatchCoalescer.weight_pushBatch hpush
    refine weight_le.trans_lt ?_
    rw [weight_of_not_finished hfinished, hinput, List.map_cons, List.sum_cons]
    omega
  | @stop _ _ _ c hfinished hinput hitem hpush =>
    have hrows := hsize _ _ hitem
    have hweight := LimitedBatchCoalescer.weight_pushBatch hpush
    have hfinish := LimitedBatchCoalescer.weight_finish (c := c)
    refine weight_le.trans_lt ?_
    rw [weight_of_not_finished hfinished, hinput, List.map_cons, List.sum_cons]
    omega
  | finish hcompleted _ =>
    have hfinish := LimitedBatchCoalescer.weight_finish (c := s.batchCoalescer)
    rw [weight_of_not_finished (hopen hcompleted)]
    show s.batchCoalescer.finish.weight + 0 + (s.input.map fun item => 1 + size item).sum < _
    omega

end Coalescing

/-! ## The stream of a filter -/

/-- What the stream of a filter is given: the coalescer, the predicate and the projection. -/
structure FilterExec (ρ σ ε : Type) where
  coalescer : BatchCoalescer σ
  /-- The predicate on a batch, as a boolean array. -/
  evaluate : List ρ → Except ε (List (Option Bool))
  project : ρ → σ
  internal : String → ε

structure FilterExecStream (ρ σ ε : Type) where
  input : List (Except ε (List ρ))
  batchCoalescer : LimitedBatchCoalescer σ
  /-- What it has returned. -/
  out : List (Except ε (List σ))

/-- `filter_record_batch`. -/
def FilterExec.filterRecordBatch (batch : List σ) (filter : List (Option Bool)) : List σ :=
  (batch.zip filter).filterMap fun x => if x.2 = some true then some x.1 else none

namespace FilterExec

variable (F : FilterExec ρ σ ε)

/-- A batch after the predicate and the projection. -/
def filterAndProject (batch : List ρ) : Except ε (List σ) :=
  (F.evaluate batch).map (FilterExec.filterRecordBatch (batch.map F.project))

/-- One turn of the loop of `poll_next`, none at the end of the stream. -/
def turn (s : FilterExecStream ρ σ ε) : Option (FilterExecStream ρ σ ε) :=
  match s.batchCoalescer.completed with
  | batch :: completed => some { s with
      batchCoalescer := { s.batchCoalescer with completed := completed }
      out := s.out ++ [.ok batch] }
  | [] =>
    if s.batchCoalescer.finished then none
    else match s.input with
      | [] => some { s with batchCoalescer := s.batchCoalescer.finish }
      | .error e :: input => some { s with input := input, out := s.out ++ [.error e] }
      | .ok batch :: input =>
        match F.filterAndProject batch with
        | .error e => some { s with input := input, out := s.out ++ [.error e] }
        | .ok batch =>
          match s.batchCoalescer.pushBatch F.coalescer batch with
          | .error msg =>
            some { s with input := input, out := s.out ++ [.error (F.internal msg)] }
          | .ok (c, .continue') => some { s with input := input, batchCoalescer := c }
          | .ok (c, .limitReached) => some { s with input := input, batchCoalescer := c.finish }

/-- The rows that pass the filter. -/
def passed : List (Except ε (List ρ)) → List σ
  | [] => []
  | .ok batch :: input => ((F.filterAndProject batch).toOption.getD []) ++ passed input
  | .error _ :: input => passed input

def start (fetch : Option Nat) (input : List (Except ε (List ρ))) : FilterExecStream ρ σ ε :=
  ⟨input, .new fetch, []⟩

def step (s : FilterExecStream ρ σ ε) (_ : Unit) : Option (FilterExecStream ρ σ ε) := F.turn s

end FilterExec

/-- What it has of a stream over the coalescer. -/
def FilterExecStream.coalescing (s : FilterExecStream ρ σ ε) :
    Coalescing (Except ε (List ρ)) σ ε := ⟨s.input, s.batchCoalescer, s.out⟩

namespace FilterExec

variable {F : FilterExec ρ σ ε} {fetch : Option Nat} {input : List (Except ε (List ρ))}
  {s s' : FilterExecStream ρ σ ε}

/-- The rows of an item that pass. -/
def rowsOf (F : FilterExec ρ σ ε) (item : Except ε (List ρ)) : Except ε (List σ) :=
  item.bind F.filterAndProject

theorem passed_eq_rowsOfAll : F.passed input = Coalescing.rowsOfAll F.rowsOf input := by
  induction input with
  | nil => rfl
  | cons item input ih =>
    rw [Coalescing.rowsOfAll, List.flatMap_cons, ← Coalescing.rowsOfAll, ← ih]
    cases item <;> rfl

theorem coalescing_turn (hturn : F.turn s = some s') :
    Coalescing.Turn F.coalescer F.rowsOf s.coalescing s'.coalescing := by
  unfold FilterExec.turn at hturn
  split at hturn
  · rename_i batch completed hcompleted
    cases hturn
    exact .emit hcompleted
  · rename_i hcompleted
    split_ifs at hturn with hfinished
    rw [Bool.not_eq_true] at hfinished
    split at hturn
    · rename_i hinput
      cases hturn
      exact .finish hcompleted hinput
    · rename_i e rest hinput
      cases hturn
      exact .fail hfinished hinput rfl
    · rename_i batch rest hinput
      split at hturn
      · rename_i e he
        cases hturn
        exact .fail hfinished hinput he
      · rename_i rows hrows
        split at hturn
        · rename_i msg hmsg
          exact absurd hmsg (LimitedBatchCoalescer.pushBatch_ne_error hfinished)
        · rename_i c hpush
          cases hturn
          exact .push hfinished hinput hrows hpush
        · rename_i c hpush
          cases hturn
          exact .stop hfinished hinput hrows hpush

theorem finished_of_turn_eq_none (hturn : F.turn s = none) :
    s.batchCoalescer.completed = [] ∧ s.batchCoalescer.finished = true := by
  unfold FilterExec.turn at hturn
  split at hturn
  · cases hturn
  · rename_i hcompleted
    split_ifs at hturn with hfinished
    · exact ⟨hcompleted, hfinished⟩
    · split at hturn
      · cases hturn
      · cases hturn
      · split at hturn
        · cases hturn
        · split at hturn <;> cases hturn

/-! ### The stream ends -/

theorem length_filterAndProject {batch : List ρ} {rows : List σ}
    (h : F.filterAndProject batch = .ok rows) : rows.length ≤ batch.length := by
  unfold filterAndProject at h
  cases heval : F.evaluate batch with
  | error e =>
    rw [heval] at h
    cases h
  | ok mask =>
    rw [heval] at h
    cases h
    refine (List.length_filterMap_le _ _).trans ?_
    simp

theorem length_rowsOf {item : Except ε (List ρ)} {rows : List σ} (h : F.rowsOf item = .ok rows) :
    rows.length ≤ (item.toOption.getD []).length := by
  cases item with
  | error e => cases h
  | ok batch => exact length_filterAndProject h

theorem not_finished_of_turn (hturn : F.turn s = some s')
    (hcompleted : s.batchCoalescer.completed = []) : s.batchCoalescer.finished = false := by
  by_contra hfinished
  rw [Bool.not_eq_false] at hfinished
  simp [FilterExec.turn, hcompleted, hfinished] at hturn

theorem weight_turn (hturn : F.turn s = some s') :
    s'.coalescing.weight (fun item => (item.toOption.getD []).length) <
      s.coalescing.weight fun item => (item.toOption.getD []).length :=
  (coalescing_turn hturn).weight_lt (fun _ _ => length_rowsOf) (not_finished_of_turn hturn)

end FilterExec

/-- **A filter with a limit.** Its stream ends after at most one turn for every row and every batch,
and one more, and then it has returned the first rows of its input that pass the filter, as many as
the limit allows. -/
theorem filter_stream_rows {F : FilterExec ρ σ ε} {fetch : Option Nat}
    {input : List (Except ε (List ρ))} {turns : List Unit} {s : FilterExecStream ρ σ ε}
    (h : run F.step (fun _ _ => True) (FilterExec.start fetch input) turns = some s) :
    turns.length ≤ 1 + (input.map fun item => 1 + (item.toOption.getD []).length).sum ∧
      (F.turn s = none → returnedRows s.out = takeFetch fetch (F.passed input)) := by
  refine ⟨?_, fun hturn => ?_⟩
  · obtain ⟨m, -, hle⟩ := bounded_of_run
      (I := fun s m => s.coalescing.weight (fun item => (item.toOption.getD []).length) = m) rfl
      (fun hm hstep => ⟨_, hm ▸ FilterExec.weight_turn hstep, rfl⟩) h
    refine (Nat.le_of_add_right_le hle).trans ?_
    simp [Coalescing.weight, FilterExecStream.coalescing, FilterExec.start,
      LimitedBatchCoalescer.weight, LimitedBatchCoalescer.new]
  · obtain ⟨read, hinv⟩ := Reaches.invariant
      (I := fun s => ∃ read, Coalescing.Inv F.rowsOf fetch input read s.coalescing)
      (reaches_of_run h) ⟨[], Coalescing.inv_start⟩ fun hinv _ hstep =>
        hinv.elim fun _ hinv => hinv.turn (FilterExec.coalescing_turn hstep)
    obtain ⟨hcompleted, hfinished⟩ := FilterExec.finished_of_turn_eq_none hturn
    rw [FilterExec.passed_eq_rowsOfAll]
    exact hinv.returned hcompleted hfinished

/-- A coalescer that passes every batch on, if it has rows. -/
def passOn (ρ : Type) : BatchCoalescer ρ where
  push buffered batch := if (buffered ++ batch).isEmpty then ([], []) else ([buffered ++ batch], [])
  push_flatten buffered batch := by
    split_ifs with h
    · simpa using (List.isEmpty_iff.1 h).symm
    · simp
  push_ne_nil := by
    intro buffered batch b hb
    split_ifs at hb with h
    · cases hb
    · rw [List.mem_singleton.1 hb]
      exact fun hnil => h (List.isEmpty_iff.2 hnil)

/-- The even rows. -/
def evenRows : FilterExec Nat Nat String where
  coalescer := passOn Nat
  evaluate batch := .ok (batch.map fun r => some (r % 2 == 0))
  project := id
  internal := id

theorem filter_stream_rows_even :
    run evenRows.step (fun _ _ => True) (FilterExec.start (some 2) [.ok [1, 2, 4], .ok [6]])
        [(), ()] = some ⟨[.ok [6]], ⟨[], [], 2, some 2, true⟩, [.ok [2, 4]]⟩ ∧
      returnedRows [(.ok [2, 4] : Except String (List Nat))] =
        takeFetch (some 2) (evenRows.passed [.ok [1, 2, 4], .ok [6]]) := by
  have hrun : run evenRows.step (fun _ _ => True)
      (FilterExec.start (some 2) [.ok [1, 2, 4], .ok [6]]) [(), ()] =
        some ⟨[.ok [6]], ⟨[], [], 2, some 2, true⟩, [.ok [2, 4]]⟩ := rfl
  exact ⟨hrun, (filter_stream_rows hrun).2 rfl⟩

/-! ## The stream of a repartition -/

/-- `PerPartitionStream` with its coalescer, over what `poll_next_inner` returns. -/
structure CoalescedStream (ρ ε : Type) where
  input : List (Except ε (List ρ))
  batchCoalescer : LimitedBatchCoalescer ρ
  /-- The variable of `poll_next_and_coalesce`; every poll starts with false. -/
  completed : Bool
  /-- What it has returned. -/
  out : List (Except ε (List ρ))

namespace CoalescedStream

variable (A : BatchCoalescer ρ) (internal : String → ε)

def start (input : List (Except ε (List ρ))) : CoalescedStream ρ ε := ⟨input, .new none, false, []⟩

/-- One turn of the loop of `poll_next_and_coalesce`, none at the end of the stream. -/
def turn (s : CoalescedStream ρ ε) : Option (CoalescedStream ρ ε) :=
  match s.batchCoalescer.completed with
  | batch :: completed => some { s with
      batchCoalescer := { s.batchCoalescer with completed := completed }
      completed := false
      out := s.out ++ [.ok batch] }
  | [] =>
    if s.completed then none
    else match s.input with
      | [] => some { s with batchCoalescer := s.batchCoalescer.finish, completed := true }
      | .error e :: input => some { s with input := input, out := s.out ++ [.error e] }
      | .ok batch :: input =>
        match s.batchCoalescer.pushBatch A batch with
        | .error msg => some { s with input := input, out := s.out ++ [.error (internal msg)] }
        | .ok (c, _) => some { s with input := input, batchCoalescer := c }

def step (s : CoalescedStream ρ ε) (_ : Unit) : Option (CoalescedStream ρ ε) := turn A internal s

/-- What it has of a stream over the coalescer. -/
def coalescing (s : CoalescedStream ρ ε) : Coalescing (Except ε (List ρ)) ρ ε :=
  ⟨s.input, s.batchCoalescer, s.out⟩

/-- A poll that has seen the end of the input has finished the coalescer. -/
structure Inv (input : List (Except ε (List ρ))) (s : CoalescedStream ρ ε) : Prop where
  coalescing : ∃ read, Coalescing.Inv id none input read s.coalescing
  completed : s.completed = true → s.batchCoalescer.finished = true

variable {A : BatchCoalescer ρ} {internal : String → ε} {input : List (Except ε (List ρ))}
  {s s' : CoalescedStream ρ ε}

theorem inv_start : Inv input (start input) := ⟨⟨[], Coalescing.inv_start⟩, fun h => (by cases h)⟩

/-- Without a limit it stops at the end of its input only. -/
theorem Inv.not_finished {item : Except ε (List ρ)} {rest : List (Except ε (List ρ))}
    (h : Inv input s) (hinput : s.input = item :: rest) : s.batchCoalescer.finished = false := by
  obtain ⟨read, hread⟩ := h.coalescing
  by_contra hfinished
  rw [Bool.not_eq_false] at hfinished
  rcases (hread.finished hfinished).2 with hnil | ⟨limit, hlimit, -⟩
  · exact absurd (hinput.symm.trans hnil) (List.cons_ne_nil _ _)
  · cases hlimit

theorem Inv.turn (h : Inv input s) (hturn : turn A internal s = some s') : Inv input s' := by
  obtain ⟨read, hread⟩ := h.coalescing
  unfold CoalescedStream.turn at hturn
  split at hturn
  · rename_i batch completed hcompleted
    cases hturn
    exact ⟨hread.turn (A := A) (.emit hcompleted), fun h => (by cases h)⟩
  · rename_i hcompleted
    split_ifs at hturn with hdone
    split at hturn
    · rename_i hinput
      cases hturn
      exact ⟨hread.turn (A := A) (.finish hcompleted hinput), fun _ => rfl⟩
    · rename_i e rest hinput
      cases hturn
      exact ⟨hread.turn (A := A) (.fail (h.not_finished hinput) hinput rfl), h.completed⟩
    · rename_i batch rest hinput
      split at hturn
      · rename_i msg hmsg
        exact absurd hmsg (LimitedBatchCoalescer.pushBatch_ne_error (h.not_finished hinput))
      · rename_i c status hpush
        cases hturn
        exact ⟨hread.turn (.push (h.not_finished hinput) hinput rfl hpush),
          fun h => absurd h hdone⟩

theorem finished_of_turn_eq_none (hturn : turn A internal s = none) :
    s.batchCoalescer.completed = [] ∧ s.completed = true := by
  unfold CoalescedStream.turn at hturn
  split at hturn
  · cases hturn
  · rename_i hcompleted
    split_ifs at hturn with hdone
    · exact ⟨hcompleted, hdone⟩
    · split at hturn
      · cases hturn
      · cases hturn
      · split at hturn <;> cases hturn

theorem returnedRows_eq_rowsOfAll : returnedRows input = Coalescing.rowsOfAll id input := by
  induction input with
  | nil => rfl
  | cons item input ih =>
    rw [Coalescing.rowsOfAll, List.flatMap_cons, ← Coalescing.rowsOfAll, ← ih]
    cases item <;> rfl

/-- At its end it has returned the rows of its input, in their order. -/
theorem returnedRows_of_end
    (h : Reaches (step A internal) (fun _ _ => True) (start input) s)
    (hturn : turn A internal s = none) : returnedRows s.out = returnedRows input := by
  have hinv := Reaches.invariant (I := Inv input) h inv_start fun hinv _ hstep => hinv.turn hstep
  obtain ⟨read, hread⟩ := hinv.coalescing
  obtain ⟨hcompleted, hdone⟩ := finished_of_turn_eq_none hturn
  exact (hread.returned hcompleted (hinv.completed hdone)).trans returnedRows_eq_rowsOfAll.symm

end CoalescedStream

end PredicateTransfer
