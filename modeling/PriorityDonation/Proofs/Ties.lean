import PriorityDonation.Graph.Transitions

/-!
# The ties of a graph

Marking and evaluation touch nothing but caches, flags and counters. `SameTies` says that two
graphs agree on all the rest: who is tracked where, the base priorities, the queues in use, and
every tie between a task and a queue.
-/

namespace PriorityDonation

/-- The record without its cache and flag. -/
def Task.bare (task : Task) : Task := { task with cached := 0, dirty := false }

/-- The record without its cache and flag. -/
def WaitQueue.bare (queue : WaitQueue) : WaitQueue := { queue with cached := 0, dirty := false }

theorem Task.eq_of_bare {x y : Task} (bare : x.bare = y.bare) (cached : x.cached = y.cached)
    (dirty : x.dirty = y.dirty) : x = y := by
  cases x
  cases y
  simp_all [Task.bare]

theorem WaitQueue.eq_of_bare {x y : WaitQueue} (bare : x.bare = y.bare)
    (cached : x.cached = y.cached) (dirty : x.dirty = y.dirty) : x = y := by
  cases x
  cases y
  simp_all [WaitQueue.bare]

namespace Graph

structure SameTies (g h : Graph) : Prop where
  index : h.index = g.index
  taskSlots : h.tasks.size = g.tasks.size
  freeTasks : h.tasks.free = g.tasks.free
  queueSlots : h.queues.size = g.queues.size
  freeQueues : h.queues.free = g.queues.free
  task (t : Nat) : (h.task t).bare = (g.task t).bare
  queue (q : Nat) : (h.queue q).bare = (g.queue q).bare

namespace SameTies

variable {g h k : Graph}

theorem refl (g : Graph) : SameTies g g :=
  ⟨rfl, rfl, rfl, rfl, rfl, fun _ => rfl, fun _ => rfl⟩

theorem trans (a : SameTies g h) (b : SameTies h k) : SameTies g k :=
  ⟨b.index.trans a.index, b.taskSlots.trans a.taskSlots, b.freeTasks.trans a.freeTasks,
    b.queueSlots.trans a.queueSlots, b.freeQueues.trans a.freeQueues,
    fun t => (b.task t).trans (a.task t), fun q => (b.queue q).trans (a.queue q)⟩

theorem symm (a : SameTies g h) : SameTies h g :=
  ⟨a.index.symm, a.taskSlots.symm, a.freeTasks.symm, a.queueSlots.symm, a.freeQueues.symm,
    fun t => (a.task t).symm, fun q => (a.queue q).symm⟩

variable (a : SameTies g h)
include a

theorem id (t : Nat) : (h.task t).id = (g.task t).id := (congrArg Task.id (a.task t) :)

theorem base (t : Nat) : (h.task t).base = (g.task t).base := (congrArg Task.base (a.task t) :)

theorem held (t : Nat) : (h.task t).held = (g.task t).held := (congrArg Task.held (a.task t) :)

theorem awaiting (t : Nat) : (h.task t).awaiting = (g.task t).awaiting :=
  (congrArg Task.awaiting (a.task t) :)

theorem generation (q : Nat) : (h.queue q).generation = (g.queue q).generation :=
  (congrArg WaitQueue.generation (a.queue q) :)

theorem live (q : Nat) : (h.queue q).live = (g.queue q).live :=
  (congrArg WaitQueue.live (a.queue q) :)

theorem transfers (q : Nat) : (h.queue q).transfers = (g.queue q).transfers :=
  (congrArg WaitQueue.transfers (a.queue q) :)

theorem waiters (q : Nat) : (h.queue q).waiters = (g.queue q).waiters :=
  (congrArg WaitQueue.waiters (a.queue q) :)

theorem holder (q : Nat) : (h.queue q).holder = (g.queue q).holder :=
  (congrArg WaitQueue.holder (a.queue q) :)

theorem lookup? (id : TaskId) : h.lookup? id = g.lookup? id := by
  simp only [Graph.lookup?, a.index]

theorem resolve? (handle : QueueHandle) : h.resolve? handle = g.resolve? handle := by
  simp only [Graph.resolve?, a.live, a.generation]

theorem donors (n : Node) : h.donors n = g.donors n := by
  cases n <;> simp only [Graph.donors, a.held, a.waiters]

theorem beneficiaries (n : Node) : h.beneficiaries n = g.beneficiaries n := by
  cases n <;> simp only [Graph.beneficiaries, a.awaiting, a.holder]

end SameTies

theorem sameTies_modifyTask (g : Graph) (t : Nat) {f : Task → Task}
    (hf : ∀ x : Task, (f x).bare = x.bare) : SameTies g (g.modifyTask t f) where
  index := rfl
  taskSlots := by simp [modifyTask]
  freeTasks := rfl
  queueSlots := rfl
  freeQueues := rfl
  task t' := by
    rw [task_modifyTask]
    split
    · exact hf _
    · rfl
  queue _ := rfl

theorem sameTies_modifyQueue (g : Graph) (q : Nat) {f : WaitQueue → WaitQueue}
    (hf : ∀ x : WaitQueue, (f x).bare = x.bare) : SameTies g (g.modifyQueue q f) where
  index := rfl
  taskSlots := rfl
  freeTasks := rfl
  queueSlots := by simp [modifyQueue]
  freeQueues := rfl
  task _ := rfl
  queue q' := by
    rw [queue_modifyQueue]
    split
    · exact hf _
    · rfl

theorem sameTies_count (g : Graph) (f : Counters → Counters) : SameTies g (g.count f) :=
  ⟨rfl, rfl, rfl, rfl, rfl, fun _ => rfl, fun _ => rfl⟩

theorem sameTies_mark (g : Graph) (n : Node) : SameTies g (g.mark n) := by
  cases n with
  | task t =>
    have marked := g.sameTies_modifyTask t (f := Task.mark) fun _ => rfl
    unfold mark
    exact marked.trans (sameTies_count _ _)
  | queue q =>
    have marked := g.sameTies_modifyQueue q (f := WaitQueue.mark) fun _ => rfl
    unfold mark
    exact marked.trans (sameTies_count _ _)

theorem sameTies_finish (g : Graph) (n : Node) (priority : Priority) :
    SameTies g (g.finish n priority) := by
  cases n with
  | task t =>
    have stored := g.sameTies_modifyTask t (f := (·.withCached priority)) fun _ => rfl
    simp only [finish]
    split
    · exact stored.trans (sameTies_count _ _)
    · exact stored
  | queue q => exact g.sameTies_modifyQueue q fun _ => rfl

end Graph

end PriorityDonation
