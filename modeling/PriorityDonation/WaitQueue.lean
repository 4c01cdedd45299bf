import PriorityDonation.Bounds.Basic

/-!
# Wait queues

A wait queue belongs to a resource: at most one task holds it and the others wait for it in order
of arrival. A queue that transfers priority donates to its holder, and keeps the last donation
worked out, which holds good while the queue is not dirty. A queue that does not transfer donates
nothing and never becomes dirty.

A handle names a slot and a generation. When a slot is used again the generation moves on, so that
a handle to the earlier queue no longer resolves.
-/

namespace PriorityDonation

structure QueueHandle where
  slot : Nat
  generation : UInt32
deriving DecidableEq, Repr

instance : ToString QueueHandle := ⟨fun queue => s!"Q{queue.slot}.{queue.generation}"⟩

structure WaitQueue where
  generation : UInt32
  live : Bool
  transfers : Bool
  /-- The slots of the waiting tasks, in order of arrival. -/
  waiters : List Nat
  /-- The slot of the task that holds the queue. -/
  holder : Option Nat
  cached : Priority
  dirty : Bool
deriving DecidableEq, Repr

namespace WaitQueue

/-- A queue that nobody holds or waits on. -/
def fresh (generation : UInt32) (transfers : Bool) (floor : Priority) : WaitQueue where
  generation := generation
  live := true
  transfers := transfers
  waiters := []
  holder := none
  cached := floor
  dirty := false

instance : Inhabited WaitQueue := ⟨{ fresh 0 false 0 with live := false }⟩

def withHolder (queue : WaitQueue) (holder : Option Nat) : WaitQueue := { queue with holder }

def withCached (queue : WaitQueue) (cached : Priority) : WaitQueue := { queue with cached }

def mark (queue : WaitQueue) : WaitQueue := { queue with dirty := true }

/-- Takes the floor as the donation. -/
def settle (queue : WaitQueue) (floor : Priority) : WaitQueue :=
  { queue with cached := floor, dirty := false }

def enqueue (queue : WaitQueue) (task : Nat) : WaitQueue :=
  { queue with waiters := queue.waiters ++ [task] }

def dequeue (queue : WaitQueue) (task : Nat) : WaitQueue :=
  { queue with waiters := queue.waiters.filter (· ≠ task) }

/-- The task gives the queue up, if it holds it. -/
def releaseFrom (queue : WaitQueue) (task : Nat) : WaitQueue :=
  if queue.holder = some task then queue.withHolder none else queue

def destroy (queue : WaitQueue) : WaitQueue := { queue with live := false, dirty := false }

end WaitQueue

end PriorityDonation
