import PriorityDonation.Task
import PriorityDonation.WaitQueue

/-!
# Faults

The ways in which a call to a scheduler is refused.
-/

namespace PriorityDonation

inductive Fault
  /-- The base priority asked for lies outside the bounds. -/
  | invalidPriority (priority : Priority)
  /-- The call was made with interrupts enabled. -/
  | interruptsEnabled
  /-- The handle names no live queue. -/
  | unknownQueue (queue : QueueHandle)
  | unknownTask (task : TaskId)
  | alreadyWaiting (task : TaskId) (queue : QueueHandle)
  /-- The queue has waiters and cannot be destroyed. -/
  | queueBusy (queue : QueueHandle)
deriving DecidableEq, Repr

def Fault.message : Fault → String
  | invalidPriority priority => s!"priority {priority} out of range"
  | interruptsEnabled => "called with interrupts enabled"
  | unknownQueue queue => s!"no such wait queue {queue}"
  | unknownTask task => s!"task {task} is not tracked"
  | alreadyWaiting task queue => s!"task {task} already waits on {queue}"
  | queueBusy queue => s!"wait queue {queue} still has waiters"

end PriorityDonation
