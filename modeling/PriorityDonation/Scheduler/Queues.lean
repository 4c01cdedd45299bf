import PriorityDonation.Scheduler.Basic

/-!
# Calls on wait queues

A guarded call first asks that interrupts be disabled, then that its handle name a live queue, and
only then looks at its other arguments.
-/

namespace PriorityDonation.Scheduler

open Call

/-- Begins a guarded call on a queue and yields the slot of the queue. -/
def enterQueue (call : GuardedCall) (queue : QueueHandle) : Call Nat := do
  requireDisabled call
  resolve queue

/-- The task that holds the queue in a slot. -/
def holderOf (s : Scheduler) (slot : Nat) : Option TaskId :=
  (s.graph.queue slot).holder.map fun t => (s.graph.task t).id

/-- The tasks that wait on the queue in a slot, in order of arrival. -/
def waitersOf (s : Scheduler) (slot : Nat) : List TaskId :=
  (s.graph.queue slot).waiters.map fun t => (s.graph.task t).id

/-- Creates a queue. Whether it transfers priority is fixed for its lifetime. -/
def newWaitQueue (transfers : Bool) : Call QueueHandle := do
  let floor ← inspect (·.bounds.lowest)
  let queue ← onGraph (Graph.createQueue transfers floor)
  report [.queueCreated queue transfers]
  return queue

/-- Destroys a queue that nobody waits on. A holder is detached. -/
def destroyWaitQueue (queue : QueueHandle) : Call Unit := do
  let slot ← enterQueue .destroyWaitQueue queue
  if ← inspect fun s => !(s.graph.queue slot).waiters.isEmpty then
    refuse (.queueBusy queue) [.queueBusy queue]
  else
    updateGraph (·.destroyQueue slot)
    report [.queueDestroyed queue]

/-- Puts a task at the end of a queue. -/
def waitForAccess (queue : QueueHandle) (task : TaskId) : Call Unit := do
  let slot ← enterQueue .waitForAccess queue
  let t ← attach task
  if ← inspect fun s => decide (t ∈ (s.graph.queue slot).waiters) then
    refuse (.alreadyWaiting task queue) [.alreadyWaiting task queue]
  else
    updateGraph (·.enqueue slot t)
    report [.waits task queue]

/-- Makes a task the holder of a queue, whether or not it waited for it. -/
def acquire (queue : QueueHandle) (task : TaskId) : Call Unit := do
  let slot ← enterQueue .acquire queue
  let t ← attach task
  let previous ← inspect (·.holderOf slot)
  updateGraph (·.setHolder slot t)
  match previous with
  | none => report [.acquired queue task]
  | some holder => if holder ≠ task then report [.handedOver queue holder task]

/-- Grants a queue to its best waiter, which leaves the waiters and becomes the holder. Without
waiters nothing happens. -/
def nextThread (queue : QueueHandle) : Call (Option TaskId) := do
  let slot ← enterQueue .nextThread queue
  let floor ← inspect (·.bounds.lowest)
  match ← onGraph (Graph.pick floor slot) with
  | none => return none
  | some t =>
      let previous ← inspect (·.holderOf slot)
      updateGraph fun g => ((g.dequeue slot t).setHolder slot t).count
        fun c => { c with handoffs := c.handoffs + 1 }
      let task ← inspect fun s => (s.graph.task t).id
      report [.granted queue previous task]
      return some task

/-- The waiter that `nextThread` would choose. -/
def peekNext (queue : QueueHandle) : Call (Option TaskId) := do
  let slot ← enterQueue .peekNext queue
  let floor ← inspect (·.bounds.lowest)
  match ← onGraph (Graph.pick floor slot) with
  | none => return none
  | some t => inspect fun s => some (s.graph.task t).id

def holder (queue : QueueHandle) : Call (Option TaskId) := do
  let slot ← enterQueue .holder queue
  inspect (·.holderOf slot)

def waiters (queue : QueueHandle) : Call (List TaskId) := do
  let slot ← enterQueue .waiters queue
  inspect (·.waitersOf slot)

/-- The priority a queue donates to its holder. -/
def queuePriority (queue : QueueHandle) : Call Priority := do
  let slot ← enterQueue .queuePriority queue
  let floor ← inspect (·.bounds.lowest)
  onGraph (Graph.evaluate floor (.queue slot))

/-- Grants a queue up to `limit` times, stopping when nobody waits. -/
def grantUpTo (limit : Nat) (queue : QueueHandle) : Call (List TaskId) :=
  match limit with
  | 0 => return []
  | limit + 1 => do
      match ← nextThread queue with
      | none => return []
      | some task => return task :: (← grantUpTo limit queue)

/-- Grants a queue until nobody waits on it, and lists the tasks in the order of the grants. -/
def drain (queue : QueueHandle) : Call (List TaskId) := do
  let waiting ← inspect fun s => (s.graph.queue queue.slot).waiters.length
  grantUpTo (waiting + 1) queue

end PriorityDonation.Scheduler
