import PriorityDonation.Proofs.Ledger

/-!
# What a scheduler refuses

Most operations are guarded: they are refused while interrupts are enabled, whatever else is wrong
with them. Next the handle has to name a live queue, and only then the other arguments count.
`Refuses` says which fault an operation meets with, and an operation fails in no other case.

A refused operation leaves the scheduler as it was. This is plain to see for all of them but
`waitForAccess`, which attaches its task before it looks for it among the waiters. A task that was
not tracked gets a slot that nobody occupies, and no queue lists such a slot. So a task that is
refused was tracked already, and nothing was attached.
-/

namespace PriorityDonation

namespace Operation

/-- Whether an operation has to be called with interrupts disabled. -/
def guarded : Operation → Bool
  | destroyWaitQueue _ | waitForAccess _ _ | acquire _ _ | nextThread _ | peekNext _ | holder _
  | waiters _ | queuePriority _ | priority _ | effectivePriority _ | setPriority _ _ | exitTask _
  | trackedPriority _ | listTasks | dumpQueue _ => true
  | _ => false

/-- The queue that an operation is called on. -/
def queue? : Operation → Option QueueHandle
  | destroyWaitQueue queue | waitForAccess queue _ | acquire queue _ | nextThread queue
  | peekNext queue | holder queue | waiters queue | queuePriority queue | dumpQueue queue =>
      some queue
  | _ => none

/-- Whether an operation has other arguments that may be wrong. -/
def checks : Operation → Bool
  | destroyWaitQueue _ | waitForAccess _ _ | setPriority _ _ | trackedPriority _ => true
  | _ => false

theorem guarded_of_queue? {operation : Operation} {queue : QueueHandle}
    (h : operation.queue? = some queue) : operation.guarded = true := by
  cases operation <;> first | rfl | cases h

end Operation

/-- The slot of a handle exists, and the queue in it is live and of the handle's generation. -/
structure Graph.Names (g : Graph) (queue : QueueHandle) : Prop where
  lt_size : queue.slot < g.queues.size
  live : (g.queue queue.slot).live = true
  generation : (g.queue queue.slot).generation = queue.generation

/-- What is wrong with the other arguments of an operation. -/
inductive Scheduler.Objects (s : Scheduler) : Operation → Fault → Prop
  | alreadyWaiting {queue : QueueHandle} {task : TaskId} {t : Nat} :
      s.graph.lookup? task = some t → t ∈ (s.graph.queue queue.slot).waiters →
      Objects s (.waitForAccess queue task) (.alreadyWaiting task queue)
  | queueBusy {queue : QueueHandle} : (s.graph.queue queue.slot).waiters ≠ [] →
      Objects s (.destroyWaitQueue queue) (.queueBusy queue)
  | invalidPriority {task : TaskId} {base : Priority} :
      base < s.bounds.lowest ∨ s.bounds.highest < base →
      Objects s (.setPriority task base) (.invalidPriority base)
  | unknownTask {task : TaskId} : s.graph.lookup? task = none →
      Objects s (.trackedPriority task) (.unknownTask task)

/-- Which fault an operation meets with. -/
inductive Scheduler.Refuses (s : Scheduler) (operation : Operation) : Fault → Prop
  | interruptsEnabled : operation.guarded = true → s.interrupts.enabled = true →
      Refuses s operation .interruptsEnabled
  | unknownQueue {queue : QueueHandle} : s.interrupts.enabled = false →
      operation.queue? = some queue → ¬ s.graph.Names queue →
      Refuses s operation (.unknownQueue queue)
  | argument {fault : Fault} : s.interrupts.enabled = false →
      (∀ queue, operation.queue? = some queue → s.graph.Names queue) →
      s.Objects operation fault → Refuses s operation fault

/-- An outcome is a fault in the cases given and in no other, and a fault changes nothing. -/
structure Scheduler.Fails {α : Type} (s : Scheduler) (refused : Fault → Prop)
    (outcome : Except Fault α × Scheduler) : Prop where
  error_iff (fault : Fault) : outcome.1 = .error fault ↔ refused fault
  unchanged (fault : Fault) : outcome.1 = .error fault → outcome.2 = s

namespace Graph

variable {g : Graph} {queue : QueueHandle} {q : Nat}

theorem Names.resolve? (names : g.Names queue) : g.resolve? queue = some queue.slot :=
  if_pos ⟨names.live, names.generation⟩

theorem names_of_resolve? (hq : g.resolve? queue = some q) : g.Names queue ∧ q = queue.slot := by
  obtain ⟨rfl, hlive, hgeneration⟩ := resolve?_eq_some hq
  exact ⟨⟨lt_of_live hlive, hlive, hgeneration⟩, rfl⟩

theorem resolve?_eq_none (h : ¬ g.Names queue) : g.resolve? queue = none := by
  cases hq : g.resolve? queue with
  | none => rfl
  | some q => exact absurd (names_of_resolve? hq).1 h

end Graph

namespace Scheduler

variable {α : Type} {s : Scheduler} {operation : Operation} {fault : Fault} {queue : QueueHandle}

theorem refuses_of_enabled (hg : operation.guarded = true) (enabled : s.interrupts.enabled = true) :
    s.Refuses operation fault ↔ fault = .interruptsEnabled := by
  constructor
  · rintro (_ | disabled | disabled)
    · rfl
    · simp [enabled] at disabled
    · simp [enabled] at disabled
  · rintro rfl
    exact .interruptsEnabled hg enabled

theorem refuses_of_unnamed (disabled : s.interrupts.enabled = false)
    (hq : operation.queue? = some queue) (unnamed : ¬ s.graph.Names queue) :
    s.Refuses operation fault ↔ fault = .unknownQueue queue := by
  constructor
  · rintro (⟨_, enabled⟩ | ⟨_, hq', _⟩ | ⟨_, named, _⟩)
    · simp [disabled] at enabled
    · rw [Option.some.inj (hq.symm.trans hq')]
    · exact absurd (named queue hq) unnamed
  · rintro rfl
    exact .unknownQueue disabled hq unnamed

theorem refuses_of_named (disabled : s.interrupts.enabled = false)
    (named : ∀ queue, operation.queue? = some queue → s.graph.Names queue) :
    s.Refuses operation fault ↔ s.Objects operation fault := by
  constructor
  · rintro (⟨_, enabled⟩ | ⟨_, hq, unnamed⟩ | ⟨_, _, objects⟩)
    · simp [disabled] at enabled
    · exact absurd (named _ hq) unnamed
    · exact objects
  · exact .argument disabled named

theorem Objects.checks (h : s.Objects operation fault) : operation.checks = true := by
  cases h <;> rfl

theorem Objects.unique {other : Fault} (h : s.Objects operation fault)
    (hother : s.Objects operation other) : other = fault := by
  cases h <;> cases hother <;> rfl

theorem Refuses.guarded (h : s.Refuses operation fault) : operation.guarded = true := by
  cases h with
  | interruptsEnabled hg => exact hg
  | unknownQueue _ hq => exact Operation.guarded_of_queue? hq
  | argument _ _ objects => cases objects <;> rfl

namespace Fails

variable {refused : Fault → Prop} {outcome : Except Fault α × Scheduler}

theorem of_ok {a : α} (h : outcome.1 = .ok a) (never : ∀ fault, ¬ refused fault) :
    s.Fails refused outcome := by
  refine ⟨fun fault => ?_, fun fault hfault => ?_⟩
  · simp [h, never fault]
  · simp [h] at hfault

theorem of_error (only : ∀ other, refused other ↔ other = fault) :
    s.Fails refused ((.error fault, s) : Except Fault α × Scheduler) := by
  refine ⟨fun other => ?_, fun _ _ => rfl⟩
  rw [only, Except.error.injEq, eq_comm]

/-- At most one thing can be wrong with the other arguments. -/
theorem objected (objects : s.Objects operation fault) :
    s.Fails (s.Objects operation) ((.error fault, s) : Except Fault α × Scheduler) :=
  .of_error fun _ => ⟨objects.unique, fun h => h ▸ objects⟩

/-- Nothing can be wrong with the other arguments. -/
theorem accepted {a : α} (hchecks : operation.checks = false) (h : outcome.1 = .ok a) :
    s.Fails (s.Objects operation) outcome := by
  refine .of_ok h fun fault objects => ?_
  have checks := objects.checks
  simp [hchecks] at checks

theorem unguarded {a : α} (hg : operation.guarded = false) (h : outcome.1 = .ok a) :
    s.Fails (s.Refuses operation) outcome := by
  refine .of_ok h fun fault refuses => ?_
  have guarded := refuses.guarded
  simp [hg] at guarded

theorem guarded (hg : operation.guarded = true) (hq : operation.queue? = none)
    (hbody : s.Fails (s.Objects operation) outcome) :
    s.Fails (s.Refuses operation) (s.guarded outcome) := by
  cases hflag : s.interrupts.enabled with
  | true =>
    rw [Scheduler.guarded, if_pos hflag]
    exact .of_error fun _ => refuses_of_enabled hg hflag
  | false =>
    rw [guarded_of_disabled hflag]
    refine ⟨fun fault => (hbody.error_iff fault).trans ?_, hbody.unchanged⟩
    exact (refuses_of_named hflag fun _ h => by simp [hq] at h).symm

theorem onQueue {body : Nat → Except Fault α × Scheduler} (hq : operation.queue? = some queue)
    (hbody : s.Fails (s.Objects operation) (body queue.slot)) :
    s.Fails (s.Refuses operation) (s.onQueue queue body) := by
  cases hflag : s.interrupts.enabled with
  | true =>
    rw [Scheduler.onQueue, Scheduler.guarded, if_pos hflag]
    exact .of_error fun _ => refuses_of_enabled (Operation.guarded_of_queue? hq) hflag
  | false =>
    by_cases named : s.graph.Names queue
    · rw [onQueue_of_some hflag named.resolve?]
      refine ⟨fun fault => (hbody.error_iff fault).trans ?_, hbody.unchanged⟩
      exact (refuses_of_named hflag fun _ h => Option.some.inj (hq.symm.trans h) ▸ named).symm
    · rw [onQueue_of_none hflag (Graph.resolve?_eq_none named)]
      exact .of_error fun _ => refuses_of_unnamed hflag hq named

end Fails

/-- A slot that was taken into use for a task is in no queue. -/
theorem slotOf_mem_waiters (c : s.graph.Consistent) (task : TaskId) (q : Nat) :
    s.slotOf task ∈ ((s.attaching task).queue q).waiters ↔
      ∃ t, s.graph.lookup? task = some t ∧ t ∈ (s.graph.queue q).waiters := by
  rw [queue_attaching]
  cases ht : s.graph.lookup? task with
  | none =>
    have a := Graph.attach_attached c.toRostered s.bounds.initial ht
    have hfresh : s.slotOf task ∉ (s.graph.queue q).waiters :=
      fun hw => a.not_tracked (c.tracked_of_waiter hw)
    simp [hfresh]
  | some t => simp [(slotOf_of_some ht).1]

theorem not_mem_bounds {bounds : Bounds} {base : Priority} :
    base ∉ bounds ↔ base < bounds.lowest ∨ bounds.highest < base := by
  rw [Bounds.mem_iff]
  grind [Int32.not_le, Int32.not_lt]

theorem waitForAccess_fails (c : s.graph.Consistent) (queue : QueueHandle) (task : TaskId) :
    s.Fails (s.Refuses (.waitForAccess queue task))
      ((Operation.waitForAccess queue task).perform.effect s) := by
  rw [Operation.perform, Call.effect_map, effect_waitForAccess, map_onQueue]
  refine .onQueue rfl ?_
  split
  · rename_i hw
    obtain ⟨t, ht, hmem⟩ := (slotOf_mem_waiters c task queue.slot).mp hw
    rw [(slotOf_of_some ht).2]
    exact .objected (.alreadyWaiting ht hmem)
  · rename_i hw
    refine .of_ok rfl ?_
    rintro fault ⟨ht, hmem⟩
    exact hw ((slotOf_mem_waiters c task queue.slot).mpr ⟨_, ht, hmem⟩)

theorem destroyWaitQueue_fails (queue : QueueHandle) :
    s.Fails (s.Refuses (.destroyWaitQueue queue))
      ((Operation.destroyWaitQueue queue).perform.effect s) := by
  rw [Operation.perform, Call.effect_map, effect_destroyWaitQueue, map_onQueue]
  refine .onQueue rfl ?_
  split
  · rename_i hw
    refine .of_ok rfl ?_
    rintro fault ⟨⟩
    rename_i busy
    exact busy (List.isEmpty_iff.mp hw)
  · rename_i hw
    exact .objected (.queueBusy fun h => hw (List.isEmpty_iff.mpr h))

theorem setPriority_fails (task : TaskId) (base : Priority) :
    s.Fails (s.Refuses (.setPriority task base))
      ((Operation.setPriority task base).perform.effect s) := by
  rw [Operation.perform, Call.effect_map, effect_setPriority, map_guarded]
  refine .guarded rfl rfl ?_
  split
  · rename_i hb
    refine .of_ok rfl ?_
    rintro fault ⟨⟩
    rename_i outside
    exact not_mem_bounds.mpr outside hb
  · rename_i hb
    exact .objected (.invalidPriority (not_mem_bounds.mp hb))

theorem trackedPriority_fails (task : TaskId) :
    s.Fails (s.Refuses (.trackedPriority task))
      ((Operation.trackedPriority task).perform.effect s) := by
  rw [Operation.perform, Call.effect_map, effect_trackedPriority, map_guarded]
  refine .guarded rfl rfl ?_
  cases ht : s.graph.lookup? task with
  | none => exact .objected (.unknownTask ht)
  | some t =>
    refine .of_ok rfl ?_
    rintro fault ⟨⟩
    rename_i untracked
    simp [ht] at untracked

theorem adjustPriority_ok (task : TaskId) (delta : Priority) (room : Bounds → Priority → Bool) :
    ∃ moved, ((Reply.flag <$> adjustPriority task delta room).effect s).1 =
      .ok (.flag moved) := by
  rw [Call.effect_map, effect_adjustPriority]
  simp only
  split
  · exact ⟨true, rfl⟩
  · exact ⟨false, rfl⟩

end Scheduler

open Scheduler

/-- An operation fails just when the scheduler refuses it, and then changes nothing. -/
theorem Operation.fails {s : Scheduler} (operation : Operation) (c : s.graph.Consistent) :
    s.Fails (s.Refuses operation) (operation.perform.effect s) := by
  cases operation with
  | destroyWaitQueue queue => exact destroyWaitQueue_fails queue
  | waitForAccess queue task => exact waitForAccess_fails c queue task
  | setPriority task base => exact setPriority_fails task base
  | trackedPriority task => exact trackedPriority_fails task
  | acquire queue task =>
    rw [Operation.perform, Call.effect_map, effect_acquire, map_onQueue]
    exact .onQueue rfl (.accepted rfl rfl)
  | nextThread queue =>
    rw [Operation.perform, Call.effect_map, effect_nextThread, map_onQueue]
    refine .onQueue rfl ?_
    rcases Graph.pick s.bounds.lowest queue.slot s.graph with ⟨_ | t, g⟩
    · exact .accepted rfl rfl
    · exact .accepted rfl rfl
  | peekNext queue =>
    rw [Operation.perform, Call.effect_map, effect_peekNext, map_onQueue]
    exact .onQueue rfl (.accepted rfl rfl)
  | holder queue =>
    rw [Operation.perform, Call.effect_map, effect_holder, map_onQueue]
    exact .onQueue rfl (.accepted rfl rfl)
  | waiters queue =>
    rw [Operation.perform, Call.effect_map, effect_waiters, map_onQueue]
    exact .onQueue rfl (.accepted rfl rfl)
  | queuePriority queue =>
    rw [Operation.perform, Call.effect_map, effect_queuePriority, map_onQueue]
    exact .onQueue rfl (.accepted rfl rfl)
  | dumpQueue queue =>
    rw [Operation.perform, Call.effect_map, effect_dumpQueue, map_onQueue]
    exact .onQueue rfl (.accepted rfl rfl)
  | priority task =>
    rw [Operation.perform, Call.effect_map, effect_priority, map_guarded]
    exact .guarded rfl rfl (.accepted rfl rfl)
  | effectivePriority task =>
    rw [Operation.perform, Call.effect_map, effect_effectivePriority, map_guarded]
    exact .guarded rfl rfl (.accepted rfl rfl)
  | exitTask task =>
    rw [Operation.perform, Call.effect_map, effect_exitTask, map_guarded]
    refine .guarded rfl rfl ?_
    cases s.graph.lookup? task with
    | none => exact .accepted rfl rfl
    | some t => exact .accepted rfl rfl
  | listTasks =>
    rw [Operation.perform, Call.effect_map, effect_listTasks, map_guarded]
    exact .guarded rfl rfl (.accepted rfl rfl)
  | newWaitQueue transfers =>
    rw [Operation.perform, Call.effect_map, effect_newWaitQueue]
    exact .unguarded rfl rfl
  | increasePriority task =>
    obtain ⟨moved, h⟩ := adjustPriority_ok (s := s) task 1
      fun bounds current => current < bounds.highest
    exact .unguarded rfl h
  | decreasePriority task =>
    obtain ⟨moved, h⟩ := adjustPriority_ok (s := s) task (-1)
      fun bounds current => bounds.lowest < current
    exact .unguarded rfl h
  | isTracked task => exact .unguarded rfl rfl
  | bounds => exact .unguarded rfl rfl
  | statistics => exact .unguarded rfl rfl
  | resetStatistics => exact .unguarded rfl rfl
  | taskCount => exact .unguarded rfl rfl
  | queueCount => exact .unguarded rfl rfl

namespace Scheduler

variable {s : Scheduler}

/-- An operation is refused with a fault exactly when one of its preconditions fails and no earlier
one does, and a refused operation leaves the whole scheduler as it was. -/
theorem refusals_exact (reachable : s.Reachable) (operation : Operation) (fault : Fault) :
    (s.answer (.perform operation) = .error fault ↔ s.Refuses operation fault) ∧
      (s.answer (.perform operation) = .error fault → s.next (.perform operation) = s) := by
  have fails := operation.fails reachable.coherent.toConsistent
  exact ⟨fails.error_iff fault, fails.unchanged fault⟩

/-- A task waits for a queue that another one holds. -/
def contended : Scheduler :=
  after ⟨.standard, Bounds.standard_valid, ⟨false⟩, {}⟩ <| List.map .perform
    [.newWaitQueue true, .acquire ⟨0, 0⟩ ⟨1⟩, .waitForAccess ⟨0, 0⟩ ⟨2⟩]

theorem refusals_exact_contended :
    contended.answer (.perform (.waitForAccess ⟨0, 0⟩ ⟨2⟩)) =
        .error (.alreadyWaiting ⟨2⟩ ⟨0, 0⟩) ∧
      contended.next (.perform (.waitForAccess ⟨0, 0⟩ ⟨2⟩)) = contended := by
  have reachable : contended.Reachable :=
    (Reachable.fresh (build_of_valid Bounds.standard_valid ⟨false⟩)).after _
  obtain ⟨answers, unchanged⟩ := refusals_exact reachable (.waitForAccess ⟨0, 0⟩ ⟨2⟩)
    (.alreadyWaiting ⟨2⟩ ⟨0, 0⟩)
  have refuses : contended.Refuses (.waitForAccess ⟨0, 0⟩ ⟨2⟩) (.alreadyWaiting ⟨2⟩ ⟨0, 0⟩) := by
    have hlookup : contended.graph.lookup? ⟨2⟩ = some 1 := by decide +kernel
    refine .argument (by decide +kernel) ?_ (.alreadyWaiting hlookup (by decide +kernel))
    rintro queue ⟨⟩
    exact ⟨by decide +kernel, by decide +kernel, by decide +kernel⟩
  exact ⟨answers.mpr refuses, unchanged (answers.mpr refuses)⟩

end Scheduler

end PriorityDonation
