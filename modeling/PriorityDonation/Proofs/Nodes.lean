import Mathlib.Logic.Relation
import Mathlib.Tactic.ByContra
import PriorityDonation.Proofs.Ties

/-!
# Tasks and queues as nodes

Marking and evaluation treat tasks and queues alike, so the lemmas about them read a graph node by
node. A queue that does not transfer priority blocks what comes from its waiters. A node keeps its
priority in its cache unless it has one that follows from its own record: a task that holds nothing
has its base priority, and a blocked queue donates the floor.
-/

namespace PriorityDonation.Graph

variable (g : Graph)

/-- A slot that belongs to a tracked task. -/
def Tracked (t : Nat) : Prop := t < g.tasks.size ∧ t ∉ g.tasks.free

/-- A tracked task or a live queue. -/
def InUse : Node → Prop
  | .task t => g.Tracked t
  | .queue q => (g.queue q).live = true

/-- A node whose record exists. -/
def Present : Node → Prop
  | .task t => t < g.tasks.size
  | .queue q => q < g.queues.size

def dirty : Node → Bool
  | .task t => (g.task t).dirty
  | .queue q => (g.queue q).dirty

def cached : Node → Priority
  | .task t => (g.task t).cached
  | .queue q => (g.queue q).cached

/-- Whether priority flows through a node. -/
def conducts : Node → Bool
  | .task _ => true
  | .queue q => (g.queue q).transfers

/-- Whether the priority of a node is kept in its cache. -/
def caches : Node → Bool
  | .task t => !(g.task t).held.isEmpty
  | .queue q => (g.queue q).transfers

/-- The priority of a node without donors. -/
def seed (floor : Priority) : Node → Priority
  | .task t => (g.task t).base
  | .queue _ => floor

/-- The priority that a node shows while it is not dirty. -/
def value (floor : Priority) (n : Node) : Priority :=
  if g.caches n then g.cached n else g.seed floor n

/-- Priority flows from the first node to the second. -/
def Feeds (a b : Node) : Prop := g.conducts b = true ∧ a ∈ g.donors b

/-- Priority flows from the first node to the second, along any number of ties. -/
def Upstream : Node → Node → Prop := Relation.ReflTransGen g.Feeds

/-- Priority flows in a circle through the node. -/
def OnCycle (n : Node) : Prop := Relation.TransGen g.Feeds n n

/-- No circle lies upstream of the node. -/
def AcyclicAbove (n : Node) : Prop := ∀ m, g.Upstream m n → ¬ g.OnCycle m

/-- The nodes whose priorities a node takes into account. -/
def sources (n : Node) : List Node := if g.conducts n then g.donors n else []

theorem dirty_modifyTask (t : Nat) (f : Task → Task) (n : Node) :
    (g.modifyTask t f).dirty n =
      if n = .task t ∧ t < g.tasks.size then (f (g.task t)).dirty else g.dirty n := by
  cases n <;> simp only [dirty, task_modifyTask, queue_modifyTask] <;> grind

theorem dirty_modifyQueue (q : Nat) (f : WaitQueue → WaitQueue) (n : Node) :
    (g.modifyQueue q f).dirty n =
      if n = .queue q ∧ q < g.queues.size then (f (g.queue q)).dirty else g.dirty n := by
  cases n <;> simp only [dirty, task_modifyQueue, queue_modifyQueue] <;> grind

theorem cached_modifyTask (t : Nat) (f : Task → Task) (n : Node) :
    (g.modifyTask t f).cached n =
      if n = .task t ∧ t < g.tasks.size then (f (g.task t)).cached else g.cached n := by
  cases n <;> simp only [cached, task_modifyTask, queue_modifyTask] <;> grind

theorem cached_modifyQueue (q : Nat) (f : WaitQueue → WaitQueue) (n : Node) :
    (g.modifyQueue q f).cached n =
      if n = .queue q ∧ q < g.queues.size then (f (g.queue q)).cached else g.cached n := by
  cases n <;> simp only [cached, task_modifyQueue, queue_modifyQueue] <;> grind

theorem dirty_modifyTask_of_eq (t : Nat) {f : Task → Task} (hf : ∀ x, (f x).dirty = x.dirty)
    (n : Node) : (g.modifyTask t f).dirty n = g.dirty n := by
  rw [dirty_modifyTask]
  split
  · rename_i h
    rw [h.1, hf, dirty]
  · rfl

theorem dirty_modifyQueue_of_eq (q : Nat) {f : WaitQueue → WaitQueue}
    (hf : ∀ x, (f x).dirty = x.dirty) (n : Node) :
    (g.modifyQueue q f).dirty n = g.dirty n := by
  rw [dirty_modifyQueue]
  split
  · rename_i h
    rw [h.1, hf, dirty]
  · rfl

theorem cached_modifyTask_of_eq (t : Nat) {f : Task → Task} (hf : ∀ x, (f x).cached = x.cached)
    (n : Node) : (g.modifyTask t f).cached n = g.cached n := by
  rw [cached_modifyTask]
  split
  · rename_i h
    rw [h.1, hf, cached]
  · rfl

theorem cached_modifyQueue_of_eq (q : Nat) {f : WaitQueue → WaitQueue}
    (hf : ∀ x, (f x).cached = x.cached) (n : Node) :
    (g.modifyQueue q f).cached n = g.cached n := by
  rw [cached_modifyQueue]
  split
  · rename_i h
    rw [h.1, hf, cached]
  · rfl

@[simp] theorem dirty_count (f : Counters → Counters) (n : Node) :
    (g.count f).dirty n = g.dirty n := by cases n <;> rfl

@[simp] theorem cached_count (f : Counters → Counters) (n : Node) :
    (g.count f).cached n = g.cached n := by cases n <;> rfl

variable {g} {h : Graph}

theorem feeds_iff {a b : Node} : g.Feeds a b ↔ a ∈ g.sources b := by
  unfold Feeds sources
  split <;> simp_all

theorem markable_eq (n : Node) : g.markable n = (g.conducts n && !g.dirty n) := by
  cases n <;> rfl

theorem markable_eq_false {n : Node} :
    g.markable n = false ↔ (g.conducts n = true → g.dirty n = true) := by
  rw [markable_eq]
  cases g.conducts n <;> cases g.dirty n <;> simp

theorem caches_of_feeds {a b : Node} (hf : g.Feeds a b) : g.caches b = true := by
  cases b with
  | task t =>
    have hne : (g.task t).held ≠ [] := fun h => by simpa [donors, h] using hf.2
    simpa [caches] using hne
  | queue q => exact hf.1

theorem conducts_of_caches {n : Node} (h : g.caches n = true) : g.conducts n = true := by
  cases n with
  | task t => rfl
  | queue q => exact h

theorem sources_of_not_caches {n : Node} (h : g.caches n = false) : g.sources n = [] := by
  cases hs : g.sources n with
  | nil => rfl
  | cons a rest =>
    have hf : g.Feeds a n := feeds_iff.mpr (hs ▸ List.mem_cons_self)
    simp [caches_of_feeds hf] at h

theorem AcyclicAbove.of_feeds {a b : Node} (hb : g.AcyclicAbove b) (hf : g.Feeds a b) :
    g.AcyclicAbove a :=
  fun m hm => hb m (hm.tail hf)

theorem task_of_not_present {t : Nat} (h : ¬ g.Present (.task t)) : g.task t = default :=
  task_of_size_le (Nat.le_of_not_lt h)

theorem queue_of_not_present {q : Nat} (h : ¬ g.Present (.queue q)) : g.queue q = default :=
  queue_of_size_le (Nat.le_of_not_lt h)

theorem present_of_dirty {n : Node} (hn : g.dirty n = true) : g.Present n := by
  by_contra h
  cases n with
  | task t => simp [dirty, task_of_not_present h, default, Task.fresh] at hn
  | queue q => simp [dirty, queue_of_not_present h, default, WaitQueue.fresh] at hn

theorem present_of_caches {n : Node} (hn : g.caches n = true) : g.Present n := by
  by_contra h
  cases n with
  | task t => simp [caches, task_of_not_present h, default, Task.fresh] at hn
  | queue q => simp [caches, queue_of_not_present h, default, WaitQueue.fresh] at hn

namespace SameTies

variable (a : SameTies g h)
include a

theorem conducts (n : Node) : h.conducts n = g.conducts n := by
  cases n with
  | task t => rfl
  | queue q => exact a.transfers q

theorem caches (n : Node) : h.caches n = g.caches n := by
  cases n with
  | task t => simp only [Graph.caches, a.held]
  | queue q => exact a.transfers q

theorem seed (floor : Priority) (n : Node) : h.seed floor n = g.seed floor n := by
  cases n with
  | task t => exact a.base t
  | queue q => rfl

theorem sources (n : Node) : h.sources n = g.sources n := by
  simp only [Graph.sources, a.conducts, a.donors]

theorem feeds : h.Feeds = g.Feeds := by
  funext x y
  simp only [Graph.Feeds, a.conducts, a.donors]

theorem upstream : h.Upstream = g.Upstream := by
  simp only [Graph.Upstream, a.feeds]

theorem acyclicAbove (n : Node) : h.AcyclicAbove n ↔ g.AcyclicAbove n := by
  simp only [Graph.AcyclicAbove, Graph.OnCycle, a.feeds, a.upstream]

theorem tracked (t : Nat) : h.Tracked t ↔ g.Tracked t := by
  simp only [Graph.Tracked, a.taskSlots, a.freeTasks]

theorem inUse (n : Node) : h.InUse n ↔ g.InUse n := by
  cases n with
  | task t => exact a.tracked t
  | queue q => simp only [Graph.InUse, a.live]

theorem present (n : Node) : h.Present n ↔ g.Present n := by
  cases n with
  | task t => simp only [Graph.Present, a.taskSlots]
  | queue q => simp only [Graph.Present, a.queueSlots]

theorem value {floor : Priority} {n : Node} (hc : h.cached n = g.cached n) :
    h.value floor n = g.value floor n := by
  simp only [Graph.value, a.caches, a.seed, hc]

/-- Two graphs with the same ties, flags, caches and counters are the same. -/
theorem eq (dirty : ∀ n, h.dirty n = g.dirty n)
    (cached : ∀ n, h.cached n = g.cached n) (counters : h.counters = g.counters) : h = g := by
  have htasks : h.tasks = g.tasks := Arena.eq_of_get a.taskSlots a.freeTasks fun t =>
    Task.eq_of_bare (a.task t) (cached (.task t)) (dirty (.task t))
  have hqueues : h.queues = g.queues := Arena.eq_of_get a.queueSlots a.freeQueues fun q =>
    WaitQueue.eq_of_bare (a.queue q) (cached (.queue q)) (dirty (.queue q))
  have hindex := a.index
  cases g
  cases h
  simp_all

end SameTies

end PriorityDonation.Graph
