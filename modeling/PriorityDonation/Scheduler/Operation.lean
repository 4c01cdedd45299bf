import PriorityDonation.Scheduler.Priorities
import PriorityDonation.Scheduler.Tables

/-!
# Operations

The calls to a scheduler as data, so that histories can be written down, run and reasoned about.
-/

namespace PriorityDonation

inductive Operation
  | newWaitQueue (transfers : Bool)
  | destroyWaitQueue (queue : QueueHandle)
  | waitForAccess (queue : QueueHandle) (task : TaskId)
  | acquire (queue : QueueHandle) (task : TaskId)
  | nextThread (queue : QueueHandle)
  | peekNext (queue : QueueHandle)
  | holder (queue : QueueHandle)
  | waiters (queue : QueueHandle)
  | queuePriority (queue : QueueHandle)
  | priority (task : TaskId)
  | effectivePriority (task : TaskId)
  | setPriority (task : TaskId) (priority : Priority)
  | increasePriority (task : TaskId)
  | decreasePriority (task : TaskId)
  | isTracked (task : TaskId)
  | exitTask (task : TaskId)
  | trackedPriority (task : TaskId)
  | bounds
  | statistics
  | resetStatistics
  | taskCount
  | queueCount
  | listTasks
  | dumpQueue (queue : QueueHandle)
deriving DecidableEq, Repr

/-- What an operation answers. -/
inductive Reply
  | done
  | flag (value : Bool)
  | count (value : Nat)
  | priority (value : Priority)
  | task (value : Option TaskId)
  | tasks (value : List TaskId)
  | queue (value : QueueHandle)
  | bounds (value : Bounds)
  | statistics (value : Counters)
deriving DecidableEq, Repr

def Operation.perform : Operation → Call Reply
  | newWaitQueue transfers => .queue <$> Scheduler.newWaitQueue transfers
  | destroyWaitQueue queue => (fun _ => .done) <$> Scheduler.destroyWaitQueue queue
  | waitForAccess queue task => (fun _ => .done) <$> Scheduler.waitForAccess queue task
  | acquire queue task => (fun _ => .done) <$> Scheduler.acquire queue task
  | nextThread queue => .task <$> Scheduler.nextThread queue
  | peekNext queue => .task <$> Scheduler.peekNext queue
  | holder queue => .task <$> Scheduler.holder queue
  | waiters queue => .tasks <$> Scheduler.waiters queue
  | queuePriority queue => .priority <$> Scheduler.queuePriority queue
  | priority task => .priority <$> Scheduler.priority task
  | effectivePriority task => .priority <$> Scheduler.effectivePriority task
  | setPriority task base => (fun _ => .done) <$> Scheduler.setPriority task base
  | increasePriority task => .flag <$> Scheduler.increasePriority task
  | decreasePriority task => .flag <$> Scheduler.decreasePriority task
  | isTracked task => .flag <$> Scheduler.isTracked task
  | exitTask task => .flag <$> Scheduler.exitTask task
  | trackedPriority task => .priority <$> Scheduler.trackedPriority task
  | bounds => .bounds <$> Call.inspect (·.bounds)
  | statistics => .statistics <$> Scheduler.statistics
  | resetStatistics => (fun _ => .done) <$> Scheduler.resetStatistics
  | taskCount => .count <$> Scheduler.taskCount
  | queueCount => .count <$> Scheduler.queueCount
  | listTasks => (fun _ => .done) <$> Scheduler.listTasks
  | dumpQueue queue => (fun _ => .done) <$> Scheduler.dumpQueue queue

end PriorityDonation
