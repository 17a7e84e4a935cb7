/-
`src/queue.c`: the queue the threads hand work over with.

Every operation holds the mutex for its whole body, so it is one step of the thread that calls it. `items` is what the
node chain holds, head first; the queue copies nothing and owns nothing.

- `push_trypop`: what was pushed is taken in order.
- `pop` returns -1 only on an empty queue that was shut down (`pop_fails_iff`); otherwise it waits for an item.
-/
import Mathlib

namespace WsServer

structure Queue (α : Type) where
  items : List α
  shutdown : Bool
deriving DecidableEq, Repr

variable {α : Type}

def createQueue : Queue α := ⟨[], false⟩

def push (q : Queue α) (item : α) : Queue α := { q with items := q.items ++ [item] }

def shutdownQueue (q : Queue α) : Queue α := { q with shutdown := true }

def queueIsShutdown (q : Queue α) : Bool := q.shutdown

def queueSize (q : Queue α) : ℕ := q.items.length

/-- `none` is the return of -1 -/
def trypop (q : Queue α) : Option (α × Queue α) :=
  match q.items with
  | [] => none
  | x :: xs => some (x, { q with items := xs })

/-- what `pop` does when it is scheduled -/
inductive PopRc (α : Type) where
  | blocked
  | failed
  | item (x : α) (q : Queue α)

def pop (q : Queue α) : PopRc α :=
  match q.items with
  | [] => if q.shutdown then .failed else .blocked
  | x :: xs => .item x { q with items := xs }

@[simp] theorem push_items (q : Queue α) (x : α) : (push q x).items = q.items ++ [x] := rfl
@[simp] theorem push_shutdown (q : Queue α) (x : α) : (push q x).shutdown = q.shutdown := rfl
@[simp] theorem shutdownQueue_items (q : Queue α) : (shutdownQueue q).items = q.items := rfl

theorem trypop_eq_none {q : Queue α} : trypop q = none ↔ q.items = [] := by
  unfold trypop; split <;> simp [*]

theorem trypop_eq_some {q q' : Queue α} {x : α} :
    trypop q = some (x, q') ↔ q.items = x :: q'.items ∧ q'.shutdown = q.shutdown := by
  obtain ⟨items, sd⟩ := q
  obtain ⟨items', sd'⟩ := q'
  cases items with
  | nil => simp [trypop]
  | cons y ys =>
    simp only [trypop, Option.some.injEq, Prod.mk.injEq, Queue.mk.injEq, List.cons.injEq]
    constructor
    · rintro ⟨rfl, rfl, rfl⟩; exact ⟨⟨rfl, rfl⟩, rfl⟩
    · rintro ⟨⟨rfl, rfl⟩, rfl⟩; exact ⟨rfl, rfl, rfl⟩

/-- first in, first out: an item pushed behind others is taken after them -/
theorem push_trypop (q : Queue α) (x : α) :
    trypop (push q x) = match trypop q with
      | none => some (x, { q with items := [] })
      | some (y, q') => some (y, push q' x) := by
  obtain ⟨items, sd⟩ := q
  cases items <;> rfl

theorem pop_fails_iff {q : Queue α} : pop q = .failed ↔ q.items = [] ∧ q.shutdown = true := by
  unfold pop
  split
  · split_ifs <;> simp [*]
  · simp [*]

end WsServer
