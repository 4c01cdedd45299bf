import PriorityDonation.Graph.Evaluation
import PriorityDonation.Graph.Invalidation

/-!
# Transitions of the donation graph

Every transition changes both ends of a tie together and then marks what the change makes
doubtful. Tasks are tracked from their first mention until they retire, and the slots of retired
tasks and destroyed queues are used again, the last one freed first.
-/

namespace PriorityDonation.Graph

/-- The slot of a task, which is tracked from now on if it was not before. -/
def attach (id : TaskId) (base : Priority) : StateM Graph Nat := fun g =>
  match g.lookup? id with
  | some slot => (slot, g)
  | none =>
      let (slot, tasks) := g.tasks.allocate fun _ => .fresh id base
      (slot, { g with tasks, index := g.index.insert id slot })

def createQueue (transfers : Bool) (floor : Priority) : StateM Graph QueueHandle := fun g =>
  let (slot, queues) := g.queues.allocate fun earlier =>
    .fresh (earlier.elim 0 (·.generation + 1)) transfers floor
  let generation := (queues.get slot).generation
  (⟨slot, generation⟩, { g with queues })

/-- Detaches the holder of a queue, if there is one. -/
def clearHolder (g : Graph) (q : Nat) : Graph :=
  match (g.queue q).holder with
  | none => g
  | some t =>
      ((g.modifyQueue q (·.withHolder none)).modifyTask t (·.release q)).invalidate (.task t)

/-- Puts a task at the end of a queue. A holder that queues up gives the queue up first. -/
def enqueue (g : Graph) (q t : Nat) : Graph :=
  let g := if (g.queue q).holder = some t then g.clearHolder q else g
  ((g.modifyQueue q (·.enqueue t)).modifyTask t (·.await q)).invalidate (.queue q)

/-- Takes a task out of the waiters of a queue. -/
def dequeue (g : Graph) (q t : Nat) : Graph :=
  ((g.modifyQueue q (·.dequeue t)).modifyTask t (·.leave q)).invalidate (.queue q)

/-- Makes a task the holder of a queue. It stops waiting there, and any other holder is detached. -/
def setHolder (g : Graph) (q t : Nat) : Graph :=
  let g := if t ∈ (g.queue q).waiters then g.dequeue q t else g
  let g := if (g.queue q).holder = some t then g else g.clearHolder q
  ((g.modifyQueue q (·.withHolder (some t))).modifyTask t (·.acquire q)).invalidate (.task t)

def setBase (g : Graph) (t : Nat) (base : Priority) : Graph :=
  if (g.task t).base = base then g
  else (g.modifyTask t (·.withBase base)).invalidate (.task t)

/-- Takes a queue out of use. Its holder is detached; it should have no waiters. -/
def destroyQueue (g : Graph) (q : Nat) : Graph :=
  let g := (g.clearHolder q).modifyQueue q WaitQueue.destroy
  { g with queues := g.queues.release q }

/-- Takes a task out of the graph, and tells how many queues it held and how many it awaited. What
it held has no holder afterwards; the donation of such a queue does not depend on its holder. -/
def retire (t : Nat) : StateM Graph (Nat × Nat) := fun g =>
  let task := g.task t
  let g := g.modifyTask t Task.sever
  let g := task.held.foldl (fun g q => g.modifyQueue q (·.releaseFrom t)) g
  let g := task.awaiting.foldl
    (fun g q => (g.modifyQueue q (·.dequeue t)).invalidate (.queue q)) g
  let g := g.modifyTask t Task.clean
  ((task.held.length, task.awaiting.length),
    { g with tasks := g.tasks.release t, index := g.index.erase task.id })

/-- The waiter of highest effective priority, the earliest to arrive among equals. -/
def pick (floor : Priority) (q : Nat) : StateM Graph (Option Nat) := fun g =>
  let waiters := (g.queue q).waiters
  let (priorities, g) := evaluateAll floor (waiters.map .task) g
  (((waiters.zip priorities).maxOn? Prod.snd).map Prod.fst, g)

end PriorityDonation.Graph
