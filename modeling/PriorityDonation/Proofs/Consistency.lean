import PriorityDonation.Proofs.Marking

/-!
# Graphs whose two ends agree

Every tie of the graph is recorded twice, once with the task and once with the queue. In a
consistent graph the two records agree, the index lists exactly the tracked tasks, the free lists
hold exactly the slots out of use, and ties run between tracked tasks and live queues only. An
`Edit` is one of the small changes of which the transitions are made; it names the node whose
priority it makes doubtful.
-/

namespace PriorityDonation.Graph

/-- Two graphs with the same tasks and the same queues in the same slots. -/
structure SameRoster (g h : Graph) : Prop where
  index : h.index = g.index
  taskSlots : h.tasks.size = g.tasks.size
  freeTasks : h.tasks.free = g.tasks.free
  queueSlots : h.queues.size = g.queues.size
  freeQueues : h.queues.free = g.queues.free
  id (t : Nat) : (h.task t).id = (g.task t).id
  generation (q : Nat) : (h.queue q).generation = (g.queue q).generation
  live (q : Nat) : (h.queue q).live = (g.queue q).live
  transfers (q : Nat) : (h.queue q).transfers = (g.queue q).transfers

/-- The index and the free lists tell which slots are in use. -/
structure Rostered (g : Graph) : Prop where
  /-- The index lists the tracked tasks, each at its own slot. -/
  lookup_iff (id : TaskId) (t : Nat) :
    g.lookup? id = some t ↔ g.Tracked t ∧ (g.task t).id = id
  freeTasks_nodup : g.tasks.free.Nodup
  freeTasks_lt : ∀ t ∈ g.tasks.free, t < g.tasks.size
  freeQueues_nodup : g.queues.free.Nodup
  /-- The free queue slots are those whose queue is not live. -/
  mem_freeQueues (q : Nat) :
    q ∈ g.queues.free ↔ q < g.queues.size ∧ (g.queue q).live = false

/-- The ends of the ties agree. -/
structure Tied (g : Graph) : Prop where
  holder_iff (q t : Nat) : (g.queue q).holder = some t ↔ q ∈ (g.task t).held
  waiter_iff (q t : Nat) : t ∈ (g.queue q).waiters ↔ q ∈ (g.task t).awaiting
  held_inUse (q t : Nat) : q ∈ (g.task t).held → g.Tracked t ∧ (g.queue q).live = true
  awaiting_inUse (q t : Nat) : q ∈ (g.task t).awaiting → g.Tracked t ∧ (g.queue q).live = true
  held_nodup (t : Nat) : (g.task t).held.Nodup
  awaiting_nodup (t : Nat) : (g.task t).awaiting.Nodup
  waiters_nodup (q : Nat) : (g.queue q).waiters.Nodup
  /-- No task waits on a queue that it holds. -/
  held_not_awaiting (q t : Nat) : q ∈ (g.task t).held → q ∉ (g.task t).awaiting

structure Consistent (g : Graph) : Prop extends g.Rostered, g.Tied

/-- Changes the record of a queue and that of a task. -/
def retie (g : Graph) (q t : Nat) (f : WaitQueue → WaitQueue) (f' : Task → Task) : Graph :=
  (g.modifyQueue q f).modifyTask t f'

/-- One change of a tie or of a base priority, and the node that it makes doubtful. -/
inductive Edit (bounds : Bounds) (g : Graph) : Graph → Node → Prop
  /-- The holder of a queue gives it up. -/
  | drop {q t : Nat} : (g.queue q).holder = some t →
      Edit bounds g (g.retie q t (·.withHolder none) (·.release q)) (.task t)
  /-- A task joins a queue. -/
  | join {q t : Nat} : (g.queue q).live = true → g.Tracked t → (g.queue q).holder ≠ some t →
      t ∉ (g.queue q).waiters →
      Edit bounds g (g.retie q t (·.enqueue t) (·.await q)) (.queue q)
  /-- A waiter leaves a queue. -/
  | leave {q t : Nat} : t ∈ (g.queue q).waiters →
      Edit bounds g (g.retie q t (·.dequeue t) (·.leave q)) (.queue q)
  /-- A task takes a queue that nobody else holds. -/
  | take {q t : Nat} : (g.queue q).live = true → g.Tracked t → t ∉ (g.queue q).waiters →
      (∀ t', (g.queue q).holder = some t' → t' = t) →
      Edit bounds g (g.retie q t (·.withHolder (some t)) (·.acquire q)) (.task t)
  /-- A task gets a base priority. -/
  | rebase {t : Nat} {base : Priority} : g.Tracked t → base ∈ bounds →
      Edit bounds g (g.modifyTask t (·.withBase base)) (.task t)

variable {bounds : Bounds} {g h e : Graph} {v : Node} {q t : Nat}

theorem lt_of_live (hq : (g.queue q).live = true) : q < g.queues.size := by
  by_contra h
  simp [queue_of_size_le (Nat.le_of_not_lt h), default, WaitQueue.fresh] at hq

theorem task_retie (ht : t < g.tasks.size) (f : WaitQueue → WaitQueue) (f' : Task → Task)
    (t' : Nat) : (g.retie q t f f').task t' = if t' = t then f' (g.task t) else g.task t' := by
  rw [retie, task_modifyTask, task_modifyQueue]
  split
  · rename_i h
    rw [if_pos h.1.symm, h.1]
  · rename_i h
    rw [if_neg]
    rintro rfl
    exact h ⟨rfl, ht⟩

theorem queue_retie (hq : q < g.queues.size) (f : WaitQueue → WaitQueue) (f' : Task → Task)
    (q' : Nat) : (g.retie q t f f').queue q' = if q' = q then f (g.queue q) else g.queue q' := by
  rw [retie, queue_modifyTask, queue_modifyQueue]
  split
  · rename_i h
    rw [if_pos h.1.symm, h.1]
  · rename_i h
    rw [if_neg]
    rintro rfl
    exact h ⟨rfl, hq⟩

theorem sameRoster_retie (g : Graph) (q t : Nat) {f : WaitQueue → WaitQueue} {f' : Task → Task}
    (hf : ∀ x : WaitQueue, (f x).generation = x.generation ∧ (f x).live = x.live ∧
      (f x).transfers = x.transfers)
    (hf' : ∀ x : Task, (f' x).id = x.id) : SameRoster g (g.retie q t f f') where
  index := rfl
  taskSlots := by simp [retie, modifyTask, modifyQueue]
  freeTasks := rfl
  queueSlots := by simp [retie, modifyTask, modifyQueue]
  freeQueues := rfl
  id t' := by
    simp only [retie, task_modifyTask, task_modifyQueue]
    split
    · exact hf' _
    · rfl
  generation q' := by
    simp only [retie, queue_modifyTask, queue_modifyQueue]
    split
    · exact (hf _).1
    · rfl
  live q' := by
    simp only [retie, queue_modifyTask, queue_modifyQueue]
    split
    · exact (hf _).2.1
    · rfl
  transfers q' := by
    simp only [retie, queue_modifyTask, queue_modifyQueue]
    split
    · exact (hf _).2.2
    · rfl

theorem dirty_retie (g : Graph) (q t : Nat) {f : WaitQueue → WaitQueue} {f' : Task → Task}
    (hf : ∀ x, (f x).dirty = x.dirty) (hf' : ∀ x, (f' x).dirty = x.dirty) (n : Node) :
    (g.retie q t f f').dirty n = g.dirty n := by
  rw [retie, dirty_modifyTask_of_eq _ _ hf', dirty_modifyQueue_of_eq _ _ hf]

theorem cached_retie (g : Graph) (q t : Nat) {f : WaitQueue → WaitQueue} {f' : Task → Task}
    (hf : ∀ x, (f x).cached = x.cached) (hf' : ∀ x, (f' x).cached = x.cached) (n : Node) :
    (g.retie q t f f').cached n = g.cached n := by
  rw [retie, cached_modifyTask_of_eq _ _ hf', cached_modifyQueue_of_eq _ _ hf]

namespace SameRoster

variable (a : SameRoster g h)
include a

theorem tracked (t : Nat) : h.Tracked t ↔ g.Tracked t := by
  simp only [Graph.Tracked, a.taskSlots, a.freeTasks]

theorem inUse (n : Node) : h.InUse n ↔ g.InUse n := by
  cases n with
  | task t => exact a.tracked t
  | queue q => simp only [Graph.InUse, a.live]

theorem conducts (n : Node) : h.conducts n = g.conducts n := by
  cases n with
  | task t => rfl
  | queue q => exact a.transfers q

theorem lookup? (id : TaskId) : h.lookup? id = g.lookup? id := by
  simp only [Graph.lookup?, a.index]

theorem rostered (c : g.Rostered) : h.Rostered where
  lookup_iff id t := by
    rw [a.lookup?, a.tracked, a.id]
    exact c.lookup_iff id t
  freeTasks_nodup := a.freeTasks ▸ c.freeTasks_nodup
  freeTasks_lt := by
    rw [a.freeTasks, a.taskSlots]
    exact c.freeTasks_lt
  freeQueues_nodup := a.freeQueues ▸ c.freeQueues_nodup
  mem_freeQueues q := by
    rw [a.freeQueues, a.queueSlots, a.live]
    exact c.mem_freeQueues q

end SameRoster

/-- Only the tie between one queue and one task is to be looked at when their records change. -/
theorem Tied.retie {f : WaitQueue → WaitQueue} {f' : Task → Task} (c : g.Tied)
    (hq : (g.queue q).live = true) (ht : g.Tracked t)
    (roster : SameRoster g (g.retie q t f f'))
    (holder : ∀ t', t' ≠ t → ((f (g.queue q)).holder = some t' ↔ (g.queue q).holder = some t'))
    (held : ∀ q', q' ≠ q → (q' ∈ (f' (g.task t)).held ↔ q' ∈ (g.task t).held))
    (holds : (f (g.queue q)).holder = some t ↔ q ∈ (f' (g.task t)).held)
    (waiters : ∀ t', t' ≠ t → (t' ∈ (f (g.queue q)).waiters ↔ t' ∈ (g.queue q).waiters))
    (awaiting : ∀ q', q' ≠ q → (q' ∈ (f' (g.task t)).awaiting ↔ q' ∈ (g.task t).awaiting))
    (waits : t ∈ (f (g.queue q)).waiters ↔ q ∈ (f' (g.task t)).awaiting)
    (heldNodup : (f' (g.task t)).held.Nodup) (awaitingNodup : (f' (g.task t)).awaiting.Nodup)
    (waitersNodup : (f (g.queue q)).waiters.Nodup)
    (apart : q ∈ (f' (g.task t)).held → q ∉ (f' (g.task t)).awaiting) :
    (g.retie q t f f').Tied := by
  have htask := task_retie (q := q) ht.1 f f'
  have hqueue := queue_retie (t := t) (lt_of_live hq) f f'
  have := c.holder_iff
  have := c.waiter_iff
  have := c.held_inUse
  have := c.awaiting_inUse
  have := c.held_not_awaiting
  refine ⟨?_, ?_, ?_, ?_, ?_, ?_, ?_, ?_⟩
  · intro q' t'
    rw [htask, hqueue]
    grind
  · intro q' t'
    rw [htask, hqueue]
    grind
  · intro q' t'
    rw [roster.tracked, roster.live, htask]
    grind
  · intro q' t'
    rw [roster.tracked, roster.live, htask]
    grind
  · intro t'
    rw [htask]
    split
    · exact heldNodup
    · exact c.held_nodup t'
  · intro t'
    rw [htask]
    split
    · exact awaitingNodup
    · exact c.awaiting_nodup t'
  · intro q'
    rw [hqueue]
    split
    · exact waitersNodup
    · exact c.waiters_nodup q'
  · intro q' t'
    rw [htask]
    grind

/-- A graph with the same ties, between slots in use. -/
theorem Tied.transport (c : g.Tied) (held : ∀ t, (h.task t).held = (g.task t).held)
    (awaiting : ∀ t, (h.task t).awaiting = (g.task t).awaiting)
    (holder : ∀ q, (h.queue q).holder = (g.queue q).holder)
    (waiters : ∀ q, (h.queue q).waiters = (g.queue q).waiters)
    (inUse : ∀ q t, q ∈ (g.task t).held ∨ q ∈ (g.task t).awaiting →
      h.Tracked t ∧ (h.queue q).live = true) : h.Tied where
  holder_iff q t := by
    rw [holder, held]
    exact c.holder_iff q t
  waiter_iff q t := by
    rw [waiters, awaiting]
    exact c.waiter_iff q t
  held_inUse q t hq := inUse q t (Or.inl (held t ▸ hq))
  awaiting_inUse q t hq := inUse q t (Or.inr (awaiting t ▸ hq))
  held_nodup t := held t ▸ c.held_nodup t
  awaiting_nodup t := awaiting t ▸ c.awaiting_nodup t
  waiters_nodup q := waiters q ▸ c.waiters_nodup q
  held_not_awaiting q t := by
    rw [held, awaiting]
    exact c.held_not_awaiting q t

theorem Tied.inUse_of_tie (c : g.Tied) (hq : q ∈ (g.task t).held ∨ q ∈ (g.task t).awaiting) :
    g.Tracked t ∧ (g.queue q).live = true :=
  hq.elim (c.held_inUse q t) (c.awaiting_inUse q t)

theorem SameTies.sameRoster (a : SameTies g h) : SameRoster g h :=
  ⟨a.index, a.taskSlots, a.freeTasks, a.queueSlots, a.freeQueues, a.id, a.generation, a.live,
    a.transfers⟩

theorem present_of_inUse {n : Node} (hn : g.InUse n) : g.Present n := by
  cases n with
  | task t => exact hn.1
  | queue q => exact lt_of_live hn

namespace Consistent

variable (c : g.Consistent)
include c

theorem inUse_of_beneficiary {a b : Node} (hb : b ∈ g.beneficiaries a) : g.InUse b := by
  cases a with
  | task t =>
    obtain ⟨q, hq, rfl⟩ := List.mem_map.mp hb
    exact (c.awaiting_inUse q t hq).2
  | queue q =>
    obtain ⟨t, ht, rfl⟩ := List.mem_map.mp hb
    exact (c.held_inUse q t ((c.holder_iff q t).mp (Option.mem_toList.mp ht))).1

/-- The flows are the same, read from either end. -/
theorem gives_eq_feeds : g.Gives = g.Feeds := by
  funext a b
  apply propext
  cases a with
  | task t =>
    cases b with
    | task t' => simp [Gives, Feeds, beneficiaries, donors]
    | queue q => simp [Gives, Feeds, beneficiaries, donors, c.waiter_iff]
  | queue q =>
    cases b with
    | task t => simp [Gives, Feeds, beneficiaries, donors, c.holder_iff]
    | queue q' => simp [Gives, Feeds, beneficiaries, donors]

theorem tracked_of_holder (hq : (g.queue q).holder = some t) : g.Tracked t :=
  (c.held_inUse q t ((c.holder_iff q t).mp hq)).1

theorem tracked_of_waiter (ht : t ∈ (g.queue q).waiters) : g.Tracked t :=
  (c.awaiting_inUse q t ((c.waiter_iff q t).mp ht)).1

theorem inUse_of_donor {a b : Node} (ha : a ∈ g.donors b) : g.InUse a := by
  cases b with
  | task t =>
    obtain ⟨q, hq, rfl⟩ := List.mem_map.mp ha
    exact (c.held_inUse q t hq).2
  | queue q =>
    obtain ⟨t, ht, rfl⟩ := List.mem_map.mp ha
    exact c.tracked_of_waiter ht

theorem congr (a : SameTies g h) : h.Consistent where
  toRostered := a.sameRoster.rostered c.toRostered
  toTied := c.toTied.transport a.held a.awaiting a.holder a.waiters fun q t hq => by
    rw [a.tracked, a.live]
    exact c.inUse_of_tie hq

theorem held_of_not_tracked (ht : ¬ g.Tracked t) : (g.task t).held = [] :=
  List.eq_nil_iff_forall_not_mem.mpr fun q hq => ht (c.held_inUse q t hq).1

theorem awaiting_of_not_tracked (ht : ¬ g.Tracked t) : (g.task t).awaiting = [] :=
  List.eq_nil_iff_forall_not_mem.mpr fun q hq => ht (c.awaiting_inUse q t hq).1

theorem holder_of_not_live (hq : (g.queue q).live = false) : (g.queue q).holder = none := by
  cases hh : (g.queue q).holder with
  | none => rfl
  | some t =>
    have hl := (c.held_inUse q t ((c.holder_iff q t).mp hh)).2
    simp [hq] at hl

theorem waiters_of_not_live (hq : (g.queue q).live = false) : (g.queue q).waiters = [] := by
  refine List.eq_nil_iff_forall_not_mem.mpr fun t ht => ?_
  have hl := (c.awaiting_inUse q t ((c.waiter_iff q t).mp ht)).2
  simp [hq] at hl

end Consistent

theorem sameRoster_rebase (g : Graph) (t : Nat) (base : Priority) :
    SameRoster g (g.modifyTask t (·.withBase base)) := by
  refine ⟨rfl, by simp [modifyTask], rfl, rfl, rfl, fun t' => ?_, fun _ => rfl, fun _ => rfl,
    fun _ => rfl⟩
  rw [task_modifyTask]
  split <;> rfl

theorem Edit.sameRoster (he : g.Edit bounds e v) : SameRoster g e := by
  cases he with
  | drop | join | leave | take =>
    exact g.sameRoster_retie _ _ (fun _ => ⟨rfl, rfl, rfl⟩) (fun _ => rfl)
  | rebase => exact g.sameRoster_rebase _ _

theorem Edit.consistent (c : g.Consistent) (he : g.Edit bounds e v) : e.Consistent := by
  refine ⟨he.sameRoster.rostered c.toRostered, ?_⟩
  have roster := he.sameRoster
  cases he with
  | @drop q t hq =>
    obtain ⟨ht, hl⟩ := c.held_inUse q t ((c.holder_iff q t).mp hq)
    refine c.toTied.retie hl ht roster ?_ ?_ ?_ ?_ ?_ ?_ ?_ ?_ ?_ ?_
    · grind [WaitQueue.withHolder]
    · grind [Task.release]
    · grind [WaitQueue.withHolder, Task.release]
    · exact fun _ _ => Iff.rfl
    · exact fun _ _ => Iff.rfl
    · exact c.waiter_iff q t
    · exact (c.held_nodup t).filter _
    · exact c.awaiting_nodup t
    · exact c.waiters_nodup q
    · grind [Task.release]
  | @join q t hl ht hh hw =>
    have hheld : q ∉ (g.task t).held := fun h => hh ((c.holder_iff q t).mpr h)
    have hawaiting : q ∉ (g.task t).awaiting := fun h => hw ((c.waiter_iff q t).mpr h)
    refine c.toTied.retie hl ht roster ?_ ?_ ?_ ?_ ?_ ?_ ?_ ?_ ?_ ?_
    · exact fun _ _ => Iff.rfl
    · exact fun _ _ => Iff.rfl
    · exact c.holder_iff q t
    · grind [WaitQueue.enqueue]
    · grind [Task.await]
    · grind [WaitQueue.enqueue, Task.await]
    · exact c.held_nodup t
    · have := c.awaiting_nodup t
      grind [Task.await, List.nodup_append]
    · have := c.waiters_nodup q
      grind [WaitQueue.enqueue, List.nodup_append]
    · exact fun h => absurd h hheld
  | @leave q t hw =>
    obtain ⟨ht, hl⟩ := c.awaiting_inUse q t ((c.waiter_iff q t).mp hw)
    refine c.toTied.retie hl ht roster ?_ ?_ ?_ ?_ ?_ ?_ ?_ ?_ ?_ ?_
    · exact fun _ _ => Iff.rfl
    · exact fun _ _ => Iff.rfl
    · exact c.holder_iff q t
    · grind [WaitQueue.dequeue]
    · grind [Task.leave]
    · grind [WaitQueue.dequeue, Task.leave]
    · exact c.held_nodup t
    · exact (c.awaiting_nodup t).filter _
    · exact (c.waiters_nodup q).filter _
    · grind [Task.leave]
  | @take q t hl ht hw hh =>
    have hawaiting : q ∉ (g.task t).awaiting := fun h => hw ((c.waiter_iff q t).mpr h)
    refine c.toTied.retie hl ht roster ?_ ?_ ?_ ?_ ?_ ?_ ?_ ?_ ?_ ?_
    · grind [WaitQueue.withHolder]
    · grind [Task.acquire]
    · grind [WaitQueue.withHolder, Task.acquire]
    · exact fun _ _ => Iff.rfl
    · grind [Task.acquire]
    · grind [WaitQueue.withHolder, Task.acquire]
    · have := c.held_nodup t
      grind [Task.acquire, List.nodup_append]
    · exact (c.awaiting_nodup t).filter _
    · exact c.waiters_nodup q
    · grind [Task.acquire]
  | @rebase t base ht hb =>
    refine c.toTied.transport (fun t' => ?_) (fun t' => ?_) (fun _ => rfl) (fun _ => rfl) ?_
    · rw [task_modifyTask]
      split <;> rfl
    · rw [task_modifyTask]
      split <;> rfl
    · intro q t' hq
      rw [roster.tracked, roster.live]
      exact c.inUse_of_tie hq

end PriorityDonation.Graph
