import PriorityDonation.Scheduler.Queues

/-!
# Counts and tables

The tables report, for each task or waiter, the effective priority worked out for it at that point
of the table. Working out a priority changes no tie and no base, so the rest of a row may be read
once all of them are known.
-/

namespace PriorityDonation.Scheduler

open Call

def statistics : Call Counters := inspect (·.graph.counters)

def resetStatistics : Call Unit := updateGraph (·.count fun _ => {})

def taskCount : Call Nat := inspect (·.graph.taskCount)

def queueCount : Call Nat := inspect (·.graph.queueCount)

/-- Reports every tracked task in the order of the task identities. -/
def listTasks : Call Unit := do
  requireDisabled .listTasks
  let floor ← inspect (·.bounds.lowest)
  let slots ← inspect (·.graph.index.values)
  let effective ← onGraph (Graph.evaluateAll floor (slots.map .task))
  let rows ← inspect fun s => (slots.zip effective).map fun (slot, effective) =>
    let task := s.graph.task slot
    Event.taskRow task.id task.base effective task.held.length task.awaiting.length
  report (.taskTableTitle :: .taskTableColumns :: rows)

/-- Reports one queue: its holder and its donation, then its waiters in order of arrival. -/
def dumpQueue (queue : QueueHandle) : Call Unit := do
  let slot ← enterQueue .dumpQueue queue
  let floor ← inspect (·.bounds.lowest)
  let donation ← onGraph (Graph.evaluate floor (.queue slot))
  let holder ← inspect (·.holderOf slot)
  let transfers ← inspect fun s => (s.graph.queue slot).transfers
  let waiters ← inspect fun s => (s.graph.queue slot).waiters
  let effective ← onGraph (Graph.evaluateAll floor (waiters.map .task))
  let rows ← inspect fun s =>
    (waiters.zip effective).zipIdx.map fun ((slot, effective), position) =>
      Event.waiterRow position (s.graph.task slot).id effective
  report (.queueTitle queue holder donation transfers :: rows)

end PriorityDonation.Scheduler
