import PriorityDonation.Scheduler.Basic

/-!
# Calls on tasks
-/

namespace PriorityDonation.Scheduler

open Call

/-- The base priority of a task. -/
def priority (task : TaskId) : Call Priority := do
  requireDisabled .priority
  let t ← attach task
  inspect fun s => (s.graph.task t).base

def effectivePriority (task : TaskId) : Call Priority := do
  requireDisabled .effectivePriority
  let t ← attach task
  let floor ← inspect (·.bounds.lowest)
  onGraph (Graph.evaluate floor (.task t))

/-- Sets the base priority of a task. A priority out of bounds is refused, never clamped. -/
def setPriority (task : TaskId) (priority : Priority) : Call Unit := do
  requireDisabled .setPriority
  let bounds ← inspect (·.bounds)
  if priority ∈ bounds then
    let t ← attach task
    let previous ← inspect fun s => (s.graph.task t).base
    updateGraph (·.setBase t priority)
    if previous ≠ priority then report [.baseChanged task previous priority]
  else
    refuse (.invalidPriority priority) [.priorityRefused priority task bounds]

/-- Moves the base priority of a task by `delta` if there is `room` for it, and tells whether it
moved. The call disables interrupts by itself. -/
def adjustPriority (task : TaskId) (delta : Priority) (room : Bounds → Priority → Bool) :
    Call Bool :=
  withoutInterrupts interruptControl do
    let t ← attach task
    let current ← inspect fun s => (s.graph.task t).base
    if ← inspect fun s => room s.bounds current then
      updateGraph (·.setBase t (current + delta))
      report [.baseChanged task current (current + delta)]
      return true
    else return false

/-- Raises a task by one, unless it is at the top. -/
def increasePriority (task : TaskId) : Call Bool :=
  adjustPriority task 1 fun bounds current => current < bounds.highest

/-- Lowers a task by one, unless it is at the bottom. -/
def decreasePriority (task : TaskId) : Call Bool :=
  adjustPriority task (-1) fun bounds current => bounds.lowest < current

def isTracked (task : TaskId) : Call Bool :=
  inspect fun s => (s.graph.lookup? task).isSome

/-- Forgets a task. What it held has no holder afterwards and it waits nowhere. Tells whether the
task was tracked at all. -/
def exitTask (task : TaskId) : Call Bool := do
  requireDisabled .exitTask
  match ← inspect (·.graph.lookup? task) with
  | none => return false
  | some t =>
      let (held, awaiting) ← onGraph (Graph.retire t)
      report [.exited task held awaiting]
      return true

/-- The base priority of a task that is tracked already. -/
def trackedPriority (task : TaskId) : Call Priority := do
  requireDisabled .trackedPriority
  match ← inspect (·.graph.lookup? task) with
  | none => refuse (.unknownTask task) []
  | some t => inspect fun s => (s.graph.task t).base

end PriorityDonation.Scheduler
