import PriorityDonation.Arena
import PriorityDonation.Task
import PriorityDonation.WaitQueue
import Std.Data.TreeMap

/-!
# The donation graph

Tasks and wait queues refer to each other by slot. A queue knows its holder and its waiters, a task
the queues it holds and those it awaits, so every tie is recorded at both ends. Priority flows from
the waiters of a queue to the queue, and from a queue to its holder. The donors of a node are the
nodes it takes priority from, and its beneficiaries those it gives priority to.

The graph also counts the work done on it.
-/

namespace PriorityDonation

/-- A node of the donation graph, named by its slot. -/
inductive Node
  | task (slot : Nat)
  | queue (slot : Nat)
deriving DecidableEq, Repr

structure Counters where
  /-- Nodes that became dirty. -/
  invalidations : Nat := 0
  /-- Effective priorities worked out anew from the queues held. -/
  taskRebuilds : Nat := 0
  /-- Donations worked out anew from the waiters. -/
  queueRebuilds : Nat := 0
  /-- Rebuilds that lifted a task above its base priority. -/
  donations : Nat := 0
  /-- Queues granted to a waiter. -/
  handoffs : Nat := 0
deriving DecidableEq, Repr

def Counters.rebuilds (counters : Counters) : Nat :=
  counters.taskRebuilds + counters.queueRebuilds

structure Graph where
  tasks : Arena Task := {}
  queues : Arena WaitQueue := {}
  /-- The slot of each tracked task. -/
  index : Std.TreeMap TaskId Nat := {}
  counters : Counters := {}

namespace Graph

variable (g : Graph)

def task (slot : Nat) : Task := g.tasks.get slot

def queue (slot : Nat) : WaitQueue := g.queues.get slot

def modifyTask (slot : Nat) (f : Task → Task) : Graph :=
  { g with tasks := g.tasks.modify slot f }

def modifyQueue (slot : Nat) (f : WaitQueue → WaitQueue) : Graph :=
  { g with queues := g.queues.modify slot f }

def count (f : Counters → Counters) : Graph := { g with counters := f g.counters }

def donors : Node → List Node
  | .task t => (g.task t).held.map .queue
  | .queue q => (g.queue q).waiters.map .task

def beneficiaries : Node → List Node
  | .task t => (g.task t).awaiting.map .queue
  | .queue q => (g.queue q).holder.toList.map .task

/-- The slot of a tracked task. -/
def lookup? (id : TaskId) : Option Nat := g.index[id]?

/-- The slot of the live queue that a handle names. -/
def resolve? (handle : QueueHandle) : Option Nat :=
  let queue := g.queue handle.slot
  if queue.live ∧ queue.generation = handle.generation then some handle.slot else none

def taskCount : Nat := g.index.size

def queueCount : Nat := g.queues.occupied

@[simp] theorem task_modifyTask (slot other : Nat) (f : Task → Task) :
    (g.modifyTask slot f).task other =
      if slot = other ∧ other < g.tasks.size then f (g.task other) else g.task other :=
  g.tasks.get_modify slot other f

@[simp] theorem queue_modifyTask (slot other : Nat) (f : Task → Task) :
    (g.modifyTask slot f).queue other = g.queue other := rfl

@[simp] theorem queue_modifyQueue (slot other : Nat) (f : WaitQueue → WaitQueue) :
    (g.modifyQueue slot f).queue other =
      if slot = other ∧ other < g.queues.size then f (g.queue other) else g.queue other :=
  g.queues.get_modify slot other f

@[simp] theorem task_modifyQueue (slot other : Nat) (f : WaitQueue → WaitQueue) :
    (g.modifyQueue slot f).task other = g.task other := rfl

@[simp] theorem task_count (f : Counters → Counters) (slot : Nat) :
    (g.count f).task slot = g.task slot := rfl

@[simp] theorem queue_count (f : Counters → Counters) (slot : Nat) :
    (g.count f).queue slot = g.queue slot := rfl

theorem task_of_size_le {g : Graph} {slot : Nat} (h : g.tasks.size ≤ slot) :
    g.task slot = default := Arena.get_of_size_le h

theorem queue_of_size_le {g : Graph} {slot : Nat} (h : g.queues.size ≤ slot) :
    g.queue slot = default := Arena.get_of_size_le h

end Graph

end PriorityDonation
