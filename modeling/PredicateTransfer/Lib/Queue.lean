import Mathlib.Data.List.Basic

/-!
# A queue with two ends

What a channel between tasks is for: elements go in at one end and come out in order at the other,
until one of the ends goes.
-/

namespace AsyncQueue

/-- What a poll returns. -/
inductive Poll (α : Type) where
  | ready (a : α)
  | pending
  deriving DecidableEq, Repr

/-- A queue with its two ends. -/
structure Queue (α : Type) where
  items : List α
  receiver : Bool
  senders : Bool
  deriving DecidableEq, Repr

variable {α : Type}

/-- What may happen to a queue. -/
inductive Queue.Step (q : Queue α) : Queue α → Prop
  | stay : Step q q
  | push (x : α) (h : q.receiver = true) (h' : q.senders = true) :
      Step q { q with items := q.items ++ [x] }
  | pop {x : α} {items : List α} (h : q.items = x :: items) : Step q { q with items := items }
  | dropReceiver : Step q { q with items := [], receiver := false }
  | dropSenders : Step q { q with senders := false }

end AsyncQueue
