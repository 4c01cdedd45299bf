import PriorityDonation.Graph.Basic
import PriorityDonation.Walk

/-!
# Effective priorities

The effective priority of a task is the largest of its base priority and the donations of the
queues it holds. The donation of a queue that transfers is the largest of the floor and the
effective priorities of its waiters; any other queue donates the floor.

Evaluation answers from the caches of nodes that are not dirty and rebuilds the others, donors
first. The walk keeps its own stack, so the length of a donation chain is limited by memory alone.
A node is cleaned and given its smallest possible value before its donors are visited: where
priority flows in a circle, the walk comes back to a node that is clean and takes the value it
finds there. So each dirty node is opened at most once, and the walk ends on every graph.
-/

namespace PriorityDonation

/-- What evaluation may still do at a task: open it and visit each queue it holds. -/
def Task.rebuildWork (task : Task) : Nat := if task.dirty then task.held.length + 1 else 0

def WaitQueue.rebuildWork (queue : WaitQueue) : Nat :=
  if queue.dirty then queue.waiters.length + 1 else 0

/-- A node being rebuilt: the donors not yet visited, and the largest priority so far. -/
structure Frame where
  node : Node
  rest : List Node
  best : Priority
deriving DecidableEq, Repr

def Frame.work (frame : Frame) : Nat := frame.rest.length + 1

/-- The outcome of visiting a node: its priority, or a rebuild that has to be gone through. -/
inductive Visit
  | known (priority : Priority)
  | rebuild (frame : Frame)
deriving DecidableEq, Repr

namespace Graph

/-- Visits a node. A task that holds nothing has its base priority, whatever its cache says. -/
def visit (floor : Priority) (node : Node) : StateM Graph Visit := fun g =>
  match node with
  | .task t =>
      let task := g.task t
      if task.held.isEmpty then (.known task.base, g.modifyTask t Task.settle)
      else if !task.dirty then (.known task.cached, g)
      else
        (.rebuild ⟨node, g.donors node, task.base⟩,
          (g.modifyTask t Task.settle).count fun c => { c with taskRebuilds := c.taskRebuilds + 1 })
  | .queue q =>
      let queue := g.queue q
      if !queue.transfers then (.known floor, g)
      else if !queue.dirty then (.known queue.cached, g)
      else
        (.rebuild ⟨node, g.donors node, floor⟩,
          (g.modifyQueue q (·.settle floor)).count
            fun c => { c with queueRebuilds := c.queueRebuilds + 1 })

/-- Stores the priority of a node whose donors have all been visited. -/
def finish (g : Graph) (node : Node) (priority : Priority) : Graph :=
  match node with
  | .task t =>
      let lifted := decide ((g.task t).base < priority)
      let stored := g.modifyTask t (·.withCached priority)
      if lifted then stored.count fun c => { c with donations := c.donations + 1 } else stored
  | .queue q => g.modifyQueue q (·.withCached priority)

def rebuildWork (g : Graph) : Nat :=
  g.tasks.total Task.rebuildWork + g.queues.total WaitQueue.rebuildWork

end Graph

/-- The state of the walk: the nodes being rebuilt, innermost first. -/
structure Rebuild where
  graph : Graph
  stack : List Frame

namespace Rebuild

/-- Visits the next donor of the innermost node, or finishes that node. An empty stack has nothing
to rebuild and yields the floor; evaluation never starts from one. -/
def step (floor : Priority) : Rebuild → Rebuild ⊕ (Priority × Graph)
  | ⟨g, []⟩ => .inr (floor, g)
  | ⟨g, ⟨node, donor :: rest, best⟩ :: stack⟩ =>
      match g.visit floor donor with
      | (.known priority, g) => .inl ⟨g, ⟨node, rest, max best priority⟩ :: stack⟩
      | (.rebuild frame, g) => .inl ⟨g, frame :: ⟨node, rest, best⟩ :: stack⟩
  | ⟨g, ⟨node, [], best⟩ :: stack⟩ =>
      let g := g.finish node best
      match stack with
      | [] => .inr (best, g)
      | ⟨parent, rest, above⟩ :: stack => .inl ⟨g, ⟨parent, rest, max above best⟩ :: stack⟩

def work (rebuild : Rebuild) : Nat :=
  rebuild.graph.rebuildWork + rebuild.stack.foldr (fun frame total => frame.work + total) 0

end Rebuild

namespace Graph

theorem rebuildWork_modifyTask {g : Graph} {t k : Nat} {f : Task → Task}
    (ht : t < g.tasks.size) (h : (f (g.task t)).rebuildWork + k ≤ (g.task t).rebuildWork) :
    (g.modifyTask t f).rebuildWork + k ≤ g.rebuildWork := by
  have := g.tasks.total_modify_add_le Task.rebuildWork f ht h
  change (g.tasks.modify t f).total _ + g.queues.total _ + k ≤ _
  simp only [rebuildWork]
  omega

theorem rebuildWork_modifyQueue {g : Graph} {q k : Nat} {f : WaitQueue → WaitQueue}
    (hq : q < g.queues.size) (h : (f (g.queue q)).rebuildWork + k ≤ (g.queue q).rebuildWork) :
    (g.modifyQueue q f).rebuildWork + k ≤ g.rebuildWork := by
  have := g.queues.total_modify_add_le WaitQueue.rebuildWork f hq h
  change g.tasks.total _ + (g.queues.modify q f).total _ + k ≤ _
  simp only [rebuildWork]
  omega

theorem rebuildWork_modifyTask_le (g : Graph) (t : Nat) {f : Task → Task}
    (h : (f (g.task t)).rebuildWork ≤ (g.task t).rebuildWork) :
    (g.modifyTask t f).rebuildWork ≤ g.rebuildWork := by
  by_cases ht : t < g.tasks.size
  · exact rebuildWork_modifyTask (k := 0) ht h
  · have := g.tasks.total_modify_of_size_le Task.rebuildWork f (Nat.le_of_not_lt ht)
    change (g.tasks.modify t f).total _ + g.queues.total _ ≤ _
    rw [this]
    exact Nat.le_refl _

theorem rebuildWork_modifyQueue_le (g : Graph) (q : Nat) {f : WaitQueue → WaitQueue}
    (h : (f (g.queue q)).rebuildWork ≤ (g.queue q).rebuildWork) :
    (g.modifyQueue q f).rebuildWork ≤ g.rebuildWork := by
  by_cases hq : q < g.queues.size
  · exact rebuildWork_modifyQueue (k := 0) hq h
  · have := g.queues.total_modify_of_size_le WaitQueue.rebuildWork f (Nat.le_of_not_lt hq)
    change g.tasks.total _ + (g.queues.modify q f).total _ ≤ _
    rw [this]
    exact Nat.le_refl _

@[simp] theorem rebuildWork_count (g : Graph) (f : Counters → Counters) :
    (g.count f).rebuildWork = g.rebuildWork := rfl

theorem rebuildWork_finish (g : Graph) (node : Node) (priority : Priority) :
    (g.finish node priority).rebuildWork ≤ g.rebuildWork := by
  cases node with
  | task t =>
    have := g.rebuildWork_modifyTask_le t (f := (·.withCached priority)) (Nat.le_refl _)
    simp only [finish]
    split <;> simpa using this
  | queue q => exact g.rebuildWork_modifyQueue_le q (Nat.le_refl _)

/-- A visit that answers at once leaves no more work than there was. -/
theorem rebuildWork_visit_known {g g' : Graph} {floor priority : Priority} {node : Node}
    (h : g.visit floor node = (.known priority, g')) : g'.rebuildWork ≤ g.rebuildWork := by
  cases node with
  | task t =>
    simp only [visit] at h
    split at h
    · cases h
      refine g.rebuildWork_modifyTask_le t ?_
      simp [Task.rebuildWork, Task.settle]
    · split at h <;> cases h
      exact Nat.le_refl _
  | queue q =>
    simp only [visit] at h
    split at h
    · cases h
      exact Nat.le_refl _
    · split at h <;> cases h
      exact Nat.le_refl _

/-- Opening a node uses up the work it stood for. -/
theorem rebuildWork_visit_rebuild {g g' : Graph} {floor : Priority} {node : Node} {frame : Frame}
    (h : g.visit floor node = (.rebuild frame, g')) :
    g'.rebuildWork + frame.work ≤ g.rebuildWork := by
  cases node with
  | task t =>
    simp only [visit] at h
    split at h
    · cases h
    · rename_i hheld
      split at h
      · cases h
      · rename_i hdirty
        cases h
        have ht : t < g.tasks.size := by
          apply Decidable.byContradiction
          intro ht
          exact hheld (by rw [task_of_size_le (Nat.le_of_not_lt ht)]; rfl)
        rw [rebuildWork_count]
        refine rebuildWork_modifyTask ht ?_
        simp_all [Task.rebuildWork, Task.settle, Frame.work, donors]
  | queue q =>
    simp only [visit] at h
    split at h
    · cases h
    · rename_i htransfers
      split at h
      · cases h
      · rename_i hdirty
        cases h
        have hq : q < g.queues.size := by
          apply Decidable.byContradiction
          intro hq
          exact htransfers (by rw [queue_of_size_le (Nat.le_of_not_lt hq)]; rfl)
        rw [rebuildWork_count]
        refine rebuildWork_modifyQueue (f := (·.settle floor)) hq ?_
        simp_all [WaitQueue.rebuildWork, WaitQueue.settle, Frame.work, donors]

end Graph

namespace Rebuild

theorem work_step_lt {floor : Priority} {s s' : Rebuild} (h : step floor s = .inl s') :
    s'.work < s.work := by
  obtain ⟨g, _ | ⟨⟨node, _ | ⟨donor, rest⟩, best⟩, stack⟩⟩ := s
  · simp [step] at h
  · simp only [step] at h
    cases stack with
    | nil => cases h
    | cons parent stack =>
      cases h
      have := g.rebuildWork_finish node best
      simp only [work, List.foldr_cons, Frame.work, List.length_nil]
      omega
  · simp only [step] at h
    split at h
    · rename_i hv
      cases h
      have := Graph.rebuildWork_visit_known hv
      simp only [work, List.foldr_cons, Frame.work, List.length_cons]
      omega
    · rename_i hv
      cases h
      have := Graph.rebuildWork_visit_rebuild hv
      simp only [work, List.foldr_cons, Frame.work, List.length_cons] at this ⊢
      omega

def walk (floor : Priority) : Walk Rebuild (Priority × Graph) where
  step := step floor
  work := work
  work_lt := work_step_lt

end Rebuild

namespace Graph

/-- The effective priority of a task or the donation of a queue. -/
def evaluate (floor : Priority) (node : Node) : StateM Graph Priority := fun g =>
  match g.visit floor node with
  | (.known priority, g) => (priority, g)
  | (.rebuild frame, g) => (Rebuild.walk floor).run ⟨g, [frame]⟩

/-- Evaluates nodes one after the other. -/
def evaluateAll (floor : Priority) (nodes : List Node) : StateM Graph (List Priority) :=
  nodes.mapM (evaluate floor)

end Graph

end PriorityDonation
