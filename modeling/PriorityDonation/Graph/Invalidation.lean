import PriorityDonation.Graph.Basic
import PriorityDonation.Walk

/-!
# Invalidation

A change makes the cached priority of a node doubtful, and with it those of its beneficiaries, of
theirs, and so on. The walk marks all of them dirty. It stops at a node that is dirty already,
because whatever lies behind such a node has been marked with it, and at a queue that does not
transfer, because nothing flows through it. Each node is marked at most once, so the walk ends on
every graph, also on one where priority flows in a circle.
-/

namespace PriorityDonation

/-- What the walk may still do at a task: mark it and look at each queue it awaits. -/
def Task.markingWork (task : Task) : Nat := if task.dirty then 0 else task.awaiting.length + 1

def WaitQueue.markingWork (queue : WaitQueue) : Nat :=
  if queue.dirty then 0 else queue.holder.toList.length + 1

namespace Graph

/-- Whether the walk has something to mark at a node. -/
def markable (g : Graph) : Node → Bool
  | .task t => !(g.task t).dirty
  | .queue q => (g.queue q).transfers && !(g.queue q).dirty

/-- Marks one node. -/
def mark (g : Graph) (node : Node) : Graph :=
  let marked := match node with
    | .task t => g.modifyTask t Task.mark
    | .queue q => g.modifyQueue q WaitQueue.mark
  marked.count fun c => { c with invalidations := c.invalidations + 1 }

def markingWork (g : Graph) : Nat :=
  g.tasks.total Task.markingWork + g.queues.total WaitQueue.markingWork

theorem markingWork_mark_task (g : Graph) (t : Nat) (h : (g.task t).dirty = false) :
    (g.mark (.task t)).markingWork + (g.task t).awaiting.length ≤ g.markingWork := by
  by_cases ht : t < g.tasks.size
  · have := g.tasks.total_modify_add_le Task.markingWork (k := (g.task t).awaiting.length)
      Task.mark ht (by
        change (g.task t).mark.markingWork + _ ≤ (g.task t).markingWork
        simp [Task.markingWork, Task.mark, h])
    change (g.tasks.modify t Task.mark).total _ + g.queues.total _ + _ ≤ _
    simp only [markingWork]
    omega
  · have := g.tasks.total_modify_of_size_le Task.markingWork Task.mark (Nat.le_of_not_lt ht)
    change (g.tasks.modify t Task.mark).total _ + g.queues.total _ + _ ≤ _
    rw [this, task_of_size_le (Nat.le_of_not_lt ht)]
    exact Nat.le_refl _

theorem markingWork_mark_queue (g : Graph) (q : Nat) (h : (g.queue q).dirty = false) :
    (g.mark (.queue q)).markingWork + (g.queue q).holder.toList.length ≤ g.markingWork := by
  by_cases hq : q < g.queues.size
  · have := g.queues.total_modify_add_le WaitQueue.markingWork
      (k := (g.queue q).holder.toList.length) WaitQueue.mark hq (by
        change (g.queue q).mark.markingWork + _ ≤ (g.queue q).markingWork
        simp [WaitQueue.markingWork, WaitQueue.mark, h])
    change g.tasks.total _ + (g.queues.modify q WaitQueue.mark).total _ + _ ≤ _
    simp only [markingWork]
    omega
  · have := g.queues.total_modify_of_size_le WaitQueue.markingWork WaitQueue.mark
      (Nat.le_of_not_lt hq)
    change g.tasks.total _ + (g.queues.modify q WaitQueue.mark).total _ + _ ≤ _
    rw [this, queue_of_size_le (Nat.le_of_not_lt hq)]
    exact Nat.le_refl _

/-- Marking a node pays for a look at each of its beneficiaries. -/
theorem markingWork_mark {g : Graph} {node : Node} (h : g.markable node = true) :
    (g.mark node).markingWork + (g.beneficiaries node).length ≤ g.markingWork := by
  cases node with
  | task t =>
    simp only [markable, Bool.not_eq_true'] at h
    simpa [beneficiaries] using g.markingWork_mark_task t h
  | queue q =>
    simp only [markable, Bool.and_eq_true, Bool.not_eq_true'] at h
    simpa [beneficiaries] using g.markingWork_mark_queue q h.2

end Graph

/-- The state of the walk: nodes still to be looked at. -/
structure Marking where
  graph : Graph
  pending : List Node

namespace Marking

/-- Looks at the node in front. The beneficiaries of a marked node are looked at first to last,
before the nodes that were pending already. On a stack, where each is pushed in turn, the last one
would come first. The flags and the counters in the end are the same for every order, as
`Graph.invalidation_marks_downstream` shows. -/
def step : Marking → Marking ⊕ Graph
  | ⟨g, []⟩ => .inr g
  | ⟨g, node :: pending⟩ =>
      if g.markable node then
        let next := g.beneficiaries node
        .inl ⟨g.mark node, next ++ pending⟩
      else .inl ⟨g, pending⟩

def walk : Walk Marking Graph where
  step := step
  work marking := marking.graph.markingWork + marking.pending.length
  work_lt {s s'} h := by
    obtain ⟨g, _ | ⟨node, pending⟩⟩ := s
    · simp [step] at h
    · by_cases hm : g.markable node = true
      · have := Graph.markingWork_mark hm
        simp only [step, hm, if_true, Sum.inl.injEq] at h
        subst h
        simp only [List.length_append, List.length_cons]
        omega
      · simp only [step, hm] at h
        simp only [Bool.false_eq_true, if_false, Sum.inl.injEq] at h
        subst h
        simp

end Marking

/-- Marks a node and everything that takes priority from it, near or far. -/
def Graph.invalidate (g : Graph) (node : Node) : Graph := Marking.walk.run ⟨g, [node]⟩

end PriorityDonation
