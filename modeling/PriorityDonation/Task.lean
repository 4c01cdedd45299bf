import PriorityDonation.Bounds.Basic

/-!
# Tasks

A task has an identity chosen by its owner and a record in the donation graph. Besides the base
priority the record keeps the last effective priority worked out, which holds good while the
record is not dirty, and the queues the task holds and awaits, each list oldest first.
-/

namespace PriorityDonation

structure TaskId where
  val : UInt64
deriving DecidableEq, Repr

namespace TaskId

instance : Ord TaskId := ⟨fun a b => compare a.val b.val⟩

instance : Std.TransOrd TaskId where
  eq_swap := Std.OrientedOrd.eq_swap (α := UInt64)
  isLE_trans := Std.TransOrd.isLE_trans (α := UInt64)

instance : Std.LawfulEqOrd TaskId where
  eq_of_compare {a b} h := by
    cases a
    cases b
    exact congrArg mk (Std.LawfulEqOrd.eq_of_compare (α := UInt64) h)

instance : ToString TaskId := ⟨fun id => s!"T{id.val}"⟩

end TaskId

structure Task where
  id : TaskId
  base : Priority
  cached : Priority
  dirty : Bool
  /-- The slots of the queues the task holds. -/
  held : List Nat
  /-- The slots of the queues the task waits on. -/
  awaiting : List Nat
deriving DecidableEq, Repr

namespace Task

/-- A task without ties to any queue. -/
def fresh (id : TaskId) (base : Priority) : Task where
  id := id
  base := base
  cached := base
  dirty := false
  held := []
  awaiting := []

instance : Inhabited Task := ⟨fresh ⟨0⟩ 0⟩

def withBase (task : Task) (base : Priority) : Task := { task with base }

def withCached (task : Task) (cached : Priority) : Task := { task with cached }

def mark (task : Task) : Task := { task with dirty := true }

/-- Takes the base priority as the effective one. -/
def settle (task : Task) : Task := { task with cached := task.base, dirty := false }

/-- The task now holds the queue, and so no longer waits on it. -/
def acquire (task : Task) (queue : Nat) : Task :=
  { task with
    held := if queue ∈ task.held then task.held else task.held ++ [queue]
    awaiting := task.awaiting.filter (· ≠ queue) }

def release (task : Task) (queue : Nat) : Task :=
  { task with held := task.held.filter (· ≠ queue) }

def await (task : Task) (queue : Nat) : Task :=
  { task with
    awaiting := if queue ∈ task.awaiting then task.awaiting else task.awaiting ++ [queue] }

def leave (task : Task) (queue : Nat) : Task :=
  { task with awaiting := task.awaiting.filter (· ≠ queue) }

/-- Cuts the task off from every queue. -/
def sever (task : Task) : Task := { task with held := [], awaiting := [] }

def clean (task : Task) : Task := { task with dirty := false }

end Task

end PriorityDonation
