import PriorityDonation.Bounds.CommandLine
import PriorityDonation.Log.Line
import PriorityDonation.Task
import PriorityDonation.WaitQueue

/-!
# Events

What a scheduler reports while it works, one case per kind of message. Each kind has its level and
its wording here; the scheduler only says what happened.
-/

namespace PriorityDonation

/-- The calls that must be made with interrupts disabled. -/
inductive GuardedCall
  | destroyWaitQueue
  | waitForAccess
  | acquire
  | nextThread
  | peekNext
  | holder
  | waiters
  | queuePriority
  | priority
  | effectivePriority
  | setPriority
  | exitTask
  | trackedPriority
  | listTasks
  | dumpQueue
deriving DecidableEq, Repr

def GuardedCall.name : GuardedCall → String
  | destroyWaitQueue => "destroy_wait_queue"
  | waitForAccess => "wait_for_access"
  | acquire => "acquire"
  | nextThread => "next_thread"
  | peekNext => "peek_next"
  | holder => "holder"
  | waiters => "waiters"
  | queuePriority => "queue_priority"
  | priority => "priority"
  | effectivePriority => "effective_priority"
  | setPriority => "set_priority"
  | exitTask => "exit_task"
  | trackedPriority => "tracked_priority"
  | listTasks => "list_tasks"
  | dumpQueue => "dump_queue"

inductive Event
  | limitRead (limit : Limit) (priority : Priority)
  | boundsRejected (error : BoundsError)
  | interruptsEnabled (call : GuardedCall)
  | queueUnknown (queue : QueueHandle)
  | attached (task : TaskId) (slot : Nat) (base : Priority)
  | queueCreated (queue : QueueHandle) (transfers : Bool)
  | queueBusy (queue : QueueHandle)
  | queueDestroyed (queue : QueueHandle)
  | alreadyWaiting (task : TaskId) (queue : QueueHandle)
  | waits (task : TaskId) (queue : QueueHandle)
  | acquired (queue : QueueHandle) (task : TaskId)
  | handedOver (queue : QueueHandle) (previous task : TaskId)
  | granted (queue : QueueHandle) (previous : Option TaskId) (task : TaskId)
  | priorityRefused (priority : Priority) (task : TaskId) (bounds : Bounds)
  | baseChanged (task : TaskId) (previous base : Priority)
  | exited (task : TaskId) (held awaiting : Nat)
  /-- The two lines above the table of tasks. -/
  | taskTableTitle
  | taskTableColumns
  | taskRow (task : TaskId) (base effective : Priority) (held awaiting : Nat)
  | queueTitle (queue : QueueHandle) (holder : Option TaskId) (donation : Priority)
      (transfers : Bool)
  | waiterRow (position : Nat) (task : TaskId) (effective : Priority)
deriving DecidableEq, Repr

namespace Event

def level : Event → Level
  | boundsRejected .. | interruptsEnabled .. | queueUnknown .. | queueBusy .. | alreadyWaiting ..
  | priorityRefused .. => .error
  | exited _ held awaiting => if held = 0 ∧ awaiting = 0 then .trace else .warn
  | taskTableTitle | taskTableColumns | taskRow .. | queueTitle .. | waiterRow .. => .info
  | limitRead .. | queueCreated .. | queueDestroyed .. | acquired .. | handedOver ..
  | granted .. => .debug
  | attached .. | waits .. | baseChanged .. => .trace

/-- One line of the table of tasks. The task itself is written as it is, without padding. -/
def taskColumns (task base effective held awaiting : String) : String :=
  task ++ " " ++ Text.alignLeft 5 base ++ " " ++ Text.alignLeft 5 effective ++ " " ++
    Text.alignLeft 5 held ++ " " ++ Text.alignLeft 8 awaiting

def message : Event → String
  | limitRead limit priority => s!"Sched config: {limit.key}={priority}"
  | boundsRejected error => s!"Sched: rejected configuration: {error.message}"
  | interruptsEnabled call => s!"Sched: {call.name} called with interrupts enabled"
  | queueUnknown queue => s!"Sched: stale or unknown wait queue {queue}"
  | attached task slot base => s!"Sched: attached {task} at slot {slot} (base {base})"
  | queueCreated queue transfers =>
      s!"Sched: new wait queue {queue} (transfers priority: {transfers})"
  | queueBusy queue => s!"Sched: cannot destroy {queue} while tasks wait on it"
  | queueDestroyed queue => s!"Sched: destroyed wait queue {queue}"
  | alreadyWaiting task queue => s!"Sched: {task} is already waiting on {queue}"
  | waits task queue => s!"Sched: {task} waits on {queue}"
  | acquired queue task => s!"Sched: {queue} acquired by {task}"
  | handedOver queue previous task => s!"Sched: {queue} handed from {previous} to {task}"
  | granted queue (some previous) task =>
      s!"Sched: {queue} released by {previous}, granted to {task}"
  | granted queue none task => s!"Sched: {queue} granted to {task}"
  | priorityRefused priority task bounds =>
      s!"Sched: priority {priority} for {task} outside [{bounds.lowest}, {bounds.highest}]"
  | baseChanged task previous base => s!"Sched: {task} base priority {previous} -> {base}"
  | exited task held awaiting =>
      if held = 0 ∧ awaiting = 0 then s!"Sched: {task} exited"
      else s!"Sched: {task} exited holding {held} queue(s) and waiting on {awaiting}"
  | taskTableTitle => "=== Donation Task List ==="
  | taskTableColumns => taskColumns (Text.alignLeft 8 "Task") "Base" "Eff" "Held" "Awaiting"
  | taskRow task base effective held awaiting =>
      taskColumns (toString task) (toString base) (toString effective) (toString held)
        (toString awaiting)
  | queueTitle queue (some holder) donation transfers =>
      s!"=== {queue} held by {holder} (donation {donation}, transfers {transfers}) ==="
  | queueTitle queue none donation transfers =>
      s!"=== {queue} free (donation {donation}, transfers {transfers}) ==="
  | waiterRow position task effective =>
      "  #" ++ Text.alignLeft 3 (toString position) ++ s!" {task} eff {effective}"

def record (event : Event) : Record := ⟨event.level, [event.message]⟩

end Event

/-- What there is to report of a command line: the assignments taken, in order. -/
def BoundsReading.events (reading : BoundsReading) : List Event :=
  reading.assigned.map fun (limit, priority) => .limitRead limit priority

end PriorityDonation
