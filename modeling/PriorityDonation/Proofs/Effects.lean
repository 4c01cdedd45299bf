import PriorityDonation.Scheduler.Operation

/-!
# What calls answer and change

The effect of a call is its result and the scheduler afterwards, without the events. A call is put
together from a few primitive calls, and its effect from theirs: first the guard, then the handle,
then the rest of the arguments.
-/

namespace PriorityDonation

/-- Once interrupts are disabled, restoring them brings back what there was. -/
@[simp] theorem InterruptFlag.restore_disabled (flag : InterruptFlag) :
    (⟨false⟩ : InterruptFlag).restore flag.enabled = flag := by
  simp [restore]

/-- The scheduler with another graph. -/
def Scheduler.withGraph (s : Scheduler) (g : Graph) : Scheduler := { s with graph := g }

namespace Scheduler

@[simp] theorem graph_withGraph (s : Scheduler) (g : Graph) : (s.withGraph g).graph = g := rfl

@[simp] theorem bounds_withGraph (s : Scheduler) (g : Graph) :
    (s.withGraph g).bounds = s.bounds := rfl

@[simp] theorem interrupts_withGraph (s : Scheduler) (g : Graph) :
    (s.withGraph g).interrupts = s.interrupts := rfl

@[simp] theorem withGraph_withGraph (s : Scheduler) (g h : Graph) :
    (s.withGraph g).withGraph h = s.withGraph h := rfl

@[simp] theorem withGraph_self (s : Scheduler) : s.withGraph s.graph = s := rfl

end Scheduler

namespace Call

variable {α β : Type} {s s' : Scheduler}

def effect (call : Call α) (s : Scheduler) : Except Fault α × Scheduler :=
  ((call.run s).result, (call.run s).scheduler)

@[simp] theorem effect_pure (a : α) : (pure a : Call α).effect s = (.ok a, s) := rfl

theorem effect_bind (call : Call α) (next : α → Call β) :
    (call >>= next).effect s =
      match call.effect s with
      | (.ok a, s') => (next a).effect s'
      | (.error fault, s') => (.error fault, s') := by
  change (Call.bind call next).effect s = _
  simp only [effect, run, Call.bind]
  rcases call s with ⟨_ | a, s', _⟩ <;> rfl

@[simp] theorem effect_map (f : α → β) (call : Call α) :
    (f <$> call).effect s = ((call.effect s).1.map f, (call.effect s).2) := by
  rw [map_eq_pure_bind, effect_bind]
  rcases call.effect s with ⟨_ | a, s'⟩ <;> rfl

@[simp] theorem effect_inspect (f : Scheduler → α) : (inspect f).effect s = (.ok (f s), s) := rfl

@[simp] theorem effect_refuse (fault : Fault) (events : List Event) :
    (refuse fault events : Call α).effect s = (.error fault, s) := rfl

@[simp] theorem effect_report (events : List Event) : (report events).effect s = (.ok (), s) := rfl

@[simp] theorem effect_onGraph (f : StateM Graph α) :
    (onGraph f).effect s = (.ok (f s.graph).1, s.withGraph (f s.graph).2) := rfl

@[simp] theorem effect_updateGraph (f : Graph → Graph) :
    (updateGraph f).effect s = (.ok (), s.withGraph (f s.graph)) := rfl

@[simp] theorem effect_inspect_bind (f : Scheduler → α) (next : α → Call β) :
    (inspect f >>= next).effect s = (next (f s)).effect s := by
  rw [effect_bind, effect_inspect]

@[simp] theorem effect_onGraph_bind (f : StateM Graph α) (next : α → Call β) :
    (onGraph f >>= next).effect s =
      (next (f s.graph).1).effect (s.withGraph (f s.graph).2) := by
  rw [effect_bind, effect_onGraph]

@[simp] theorem effect_updateGraph_bind (f : Graph → Graph) (next : Unit → Call β) :
    (updateGraph f >>= next).effect s = (next ()).effect (s.withGraph (f s.graph)) := by
  rw [effect_bind, effect_updateGraph]

theorem effect_tryFinally' (call : Call α) (last : Option α → Call β) :
    (tryFinally' call last).effect s =
      match call.effect s with
      | (.ok a, s') => (((last (some a)).effect s').1.map (a, ·), ((last (some a)).effect s').2)
      | (.error fault, s') => (.error fault, ((last none).effect s').2) := by
  simp only [effect, run, tryFinally']
  rcases call s with ⟨_ | a, s', _⟩ <;> rfl

/-- What is done last does not change the result, unless it fails itself. -/
theorem effect_tryFinally (call : Call α) (last : Call β) :
    (tryFinally call last).effect s =
      match call.effect s with
      | (.ok a, s') => ((last.effect s').1.map fun _ => a, (last.effect s').2)
      | (.error fault, s') => (.error fault, (last.effect s').2) := by
  rw [tryFinally, effect_map, effect_tryFinally']
  rcases call.effect s with ⟨_ | a, s'⟩
  · rfl
  · simp only
    cases (last.effect s').1 <;> rfl

@[simp] theorem effect_disable : interruptControl.disable.effect s =
    (.ok s.interrupts.enabled, { s with interrupts := ⟨false⟩ }) := rfl

@[simp] theorem effect_restore (wereEnabled : Bool) :
    (interruptControl.restore wereEnabled).effect s =
      (.ok (), { s with interrupts := s.interrupts.restore wereEnabled }) := rfl

/-- A section without interrupts restores the flag to what its body made of it. -/
theorem effect_withoutInterrupts (body : Call α) :
    (withoutInterrupts interruptControl body).effect s =
      ((body.effect { s with interrupts := ⟨false⟩ }).1,
        { (body.effect { s with interrupts := ⟨false⟩ }).2 with
          interrupts := (body.effect { s with interrupts := ⟨false⟩ }).2.interrupts.restore
            s.interrupts.enabled }) := by
  rw [withoutInterrupts, effect_bind, effect_disable]
  simp only [effect_tryFinally, effect_restore]
  rcases body.effect { s with interrupts := ⟨false⟩ } with ⟨_ | a, s'⟩
  · rfl
  · rfl

end Call

namespace Scheduler

open Call

variable {α β : Type} {s : Scheduler} {queue : QueueHandle} {task : TaskId} {slot : Nat}

/-- A guarded call, which makes nothing of its body while interrupts are enabled. -/
def guarded (s : Scheduler) (body : Except Fault α × Scheduler) : Except Fault α × Scheduler :=
  if s.interrupts.enabled then (.error .interruptsEnabled, s) else body

/-- A guarded call on a queue. -/
def onQueue (s : Scheduler) (queue : QueueHandle) (body : Nat → Except Fault α × Scheduler) :
    Except Fault α × Scheduler :=
  s.guarded <| match s.graph.resolve? queue with
    | some slot => body slot
    | none => (.error (.unknownQueue queue), s)

theorem guarded_of_disabled {body : Except Fault α × Scheduler}
    (disabled : s.interrupts.enabled = false) : s.guarded body = body := by
  rw [guarded, disabled]
  rfl

theorem onQueue_of_some {body : Nat → Except Fault α × Scheduler}
    (disabled : s.interrupts.enabled = false) (hq : s.graph.resolve? queue = some slot) :
    s.onQueue queue body = body slot := by
  rw [onQueue, guarded_of_disabled disabled, hq]

theorem onQueue_of_none {body : Nat → Except Fault α × Scheduler}
    (disabled : s.interrupts.enabled = false) (hq : s.graph.resolve? queue = none) :
    s.onQueue queue body = (.error (.unknownQueue queue), s) := by
  rw [onQueue, guarded_of_disabled disabled, hq]

/-- What holds of a scheduler holds after a guarded call if it holds after the body. -/
theorem guarded_induction {P : Scheduler → Prop} {body : Except Fault α × Scheduler} (hs : P s)
    (hbody : P body.2) : P (s.guarded body).2 := by
  unfold guarded
  split
  · exact hs
  · exact hbody

theorem onQueue_induction {P : Scheduler → Prop} {body : Nat → Except Fault α × Scheduler}
    (hs : P s) (hbody : ∀ slot, s.graph.resolve? queue = some slot → P (body slot).2) :
    P (s.onQueue queue body).2 := by
  refine guarded_induction hs ?_
  cases hq : s.graph.resolve? queue with
  | none => exact hs
  | some slot => exact hbody slot hq

theorem map_guarded (f : α → β) (body : Except Fault α × Scheduler) :
    ((s.guarded body).1.map f, (s.guarded body).2) = s.guarded (body.1.map f, body.2) := by
  unfold guarded
  split <;> rfl

theorem map_onQueue (f : α → β) (body : Nat → Except Fault α × Scheduler) :
    ((s.onQueue queue body).1.map f, (s.onQueue queue body).2) =
      s.onQueue queue fun slot => ((body slot).1.map f, (body slot).2) := by
  rw [onQueue, map_guarded, onQueue]
  cases s.graph.resolve? queue <;> rfl

/-- The slot of a task, which is attached if need be. -/
def slotOf (s : Scheduler) (task : TaskId) : Nat :=
  (Graph.attach task s.bounds.initial s.graph).1

/-- The graph once a task is attached. -/
def attaching (s : Scheduler) (task : TaskId) : Graph :=
  (Graph.attach task s.bounds.initial s.graph).2

theorem effect_requireDisabled_bind (call : GuardedCall) (next : Unit → Call β) :
    (requireDisabled call >>= next).effect s = s.guarded ((next ()).effect s) := by
  rw [effect_bind, requireDisabled, effect_inspect_bind, guarded, InterruptFlag.disabled]
  cases s.interrupts.enabled <;> rfl

theorem effect_enterQueue_bind (call : GuardedCall) (queue : QueueHandle)
    (next : Nat → Call β) :
    (enterQueue call queue >>= next).effect s =
      s.onQueue queue fun slot => (next slot).effect s := by
  rw [enterQueue, bind_assoc, effect_requireDisabled_bind, onQueue]
  congr 1
  rw [effect_bind, resolve, effect_inspect_bind]
  cases s.graph.resolve? queue <;> rfl

theorem effect_attach (task : TaskId) :
    (attach task).effect s = (.ok (s.slotOf task), s.withGraph (s.attaching task)) := by
  rw [attach, effect_inspect_bind, effect_inspect_bind, slotOf, attaching]
  cases h : s.graph.lookup? task with
  | none => simp [Except.map]
  | some slot => simp [Graph.attach, h]

@[simp] theorem effect_attach_bind (task : TaskId) (next : Nat → Call β) :
    (attach task >>= next).effect s =
      (next (s.slotOf task)).effect (s.withGraph (s.attaching task)) := by
  rw [effect_bind, effect_attach]

theorem effect_newWaitQueue (transfers : Bool) :
    (newWaitQueue transfers).effect s =
      (.ok (Graph.createQueue transfers s.bounds.lowest s.graph).1,
        s.withGraph (Graph.createQueue transfers s.bounds.lowest s.graph).2) := by
  simp [newWaitQueue, Except.map]

theorem effect_destroyWaitQueue :
    (destroyWaitQueue queue).effect s = s.onQueue queue fun slot =>
      if (s.graph.queue slot).waiters.isEmpty then (.ok (), s.withGraph (s.graph.destroyQueue slot))
      else (.error (.queueBusy queue), s) := by
  rw [destroyWaitQueue, effect_enterQueue_bind]
  congr 1
  funext slot
  rw [effect_inspect_bind]
  cases (s.graph.queue slot).waiters.isEmpty <;> rfl

theorem effect_waitForAccess :
    (waitForAccess queue task).effect s = s.onQueue queue fun slot =>
      if s.slotOf task ∈ ((s.attaching task).queue slot).waiters then
        (.error (.alreadyWaiting task queue), s.withGraph (s.attaching task))
      else (.ok (), s.withGraph ((s.attaching task).enqueue slot (s.slotOf task))) := by
  rw [waitForAccess, effect_enterQueue_bind]
  congr 1
  funext slot
  simp only [effect_attach_bind, effect_inspect_bind, graph_withGraph]
  by_cases h : s.slotOf task ∈ ((s.attaching task).queue slot).waiters <;> simp [h]

theorem effect_acquire :
    (acquire queue task).effect s = s.onQueue queue fun slot =>
      (.ok (), s.withGraph ((s.attaching task).setHolder slot (s.slotOf task))) := by
  rw [acquire, effect_enterQueue_bind]
  congr 1
  funext slot
  simp only [effect_attach_bind, effect_inspect_bind, effect_updateGraph_bind]
  split
  · rfl
  · split <;> rfl

theorem effect_nextThread :
    (nextThread queue).effect s = s.onQueue queue fun slot =>
      match Graph.pick s.bounds.lowest slot s.graph with
      | (none, g) => (.ok none, s.withGraph g)
      | (some t, g) =>
          (.ok (some (((g.dequeue slot t).setHolder slot t).task t).id),
            s.withGraph (((g.dequeue slot t).setHolder slot t).count
              fun c => { c with handoffs := c.handoffs + 1 })) := by
  rw [nextThread, effect_enterQueue_bind]
  congr 1
  funext slot
  simp only [effect_inspect_bind, effect_onGraph_bind]
  rcases Graph.pick s.bounds.lowest slot s.graph with ⟨_ | t, g⟩ <;> simp [Except.map]

theorem effect_peekNext :
    (peekNext queue).effect s = s.onQueue queue fun slot =>
      let picked := Graph.pick s.bounds.lowest slot s.graph
      (.ok (picked.1.map fun t => (picked.2.task t).id), s.withGraph picked.2) := by
  rw [peekNext, effect_enterQueue_bind]
  congr 1
  funext slot
  simp only [effect_inspect_bind, effect_onGraph_bind]
  rcases Graph.pick s.bounds.lowest slot s.graph with ⟨_ | t, g⟩ <;> simp

theorem effect_holder :
    (holder queue).effect s = s.onQueue queue fun slot => (.ok (s.holderOf slot), s) := by
  rw [holder, effect_enterQueue_bind]
  rfl

theorem effect_waiters :
    (waiters queue).effect s = s.onQueue queue fun slot => (.ok (s.waitersOf slot), s) := by
  rw [waiters, effect_enterQueue_bind]
  rfl

theorem effect_queuePriority :
    (queuePriority queue).effect s = s.onQueue queue fun slot =>
      (.ok (Graph.evaluate s.bounds.lowest (.queue slot) s.graph).1,
        s.withGraph (Graph.evaluate s.bounds.lowest (.queue slot) s.graph).2) := by
  rw [queuePriority, effect_enterQueue_bind]
  simp

theorem effect_priority :
    (priority task).effect s = s.guarded
      (.ok ((s.attaching task).task (s.slotOf task)).base, s.withGraph (s.attaching task)) := by
  rw [priority, effect_requireDisabled_bind]
  simp

theorem effect_effectivePriority :
    (effectivePriority task).effect s = s.guarded
      (.ok (Graph.evaluate s.bounds.lowest (.task (s.slotOf task)) (s.attaching task)).1,
        s.withGraph
          (Graph.evaluate s.bounds.lowest (.task (s.slotOf task)) (s.attaching task)).2) := by
  rw [effectivePriority, effect_requireDisabled_bind]
  simp

theorem effect_setPriority (base : Priority) :
    (setPriority task base).effect s = s.guarded
      (if base ∈ s.bounds then
        (.ok (), s.withGraph ((s.attaching task).setBase (s.slotOf task) base))
      else (.error (.invalidPriority base), s)) := by
  rw [setPriority, effect_requireDisabled_bind]
  congr 1
  rw [effect_inspect_bind]
  split
  · simp only [effect_attach_bind, effect_inspect_bind, effect_updateGraph_bind]
    split <;> rfl
  · rfl

theorem effect_adjustPriority (delta : Priority) (room : Bounds → Priority → Bool) :
    (adjustPriority task delta room).effect s =
      let current := ((s.attaching task).task (s.slotOf task)).base
      if room s.bounds current then
        (.ok true, s.withGraph ((s.attaching task).setBase (s.slotOf task) (current + delta)))
      else (.ok false, s.withGraph (s.attaching task)) := by
  have hslot : slotOf { s with interrupts := ⟨false⟩ } task = s.slotOf task := rfl
  have hgraph : attaching { s with interrupts := ⟨false⟩ } task = s.attaching task := rfl
  rw [adjustPriority, effect_withoutInterrupts]
  cases hroom : room s.bounds ((s.attaching task).task (s.slotOf task)).base with
  | false =>
    simp [hslot, hgraph, hroom]
    rfl
  | true =>
    simp [hslot, hgraph, hroom, Except.map]
    rfl

theorem effect_exitTask :
    (exitTask task).effect s = s.guarded
      (match s.graph.lookup? task with
      | none => (.ok false, s)
      | some t => (.ok true, s.withGraph (Graph.retire t s.graph).2)) := by
  rw [exitTask, effect_requireDisabled_bind]
  congr 1
  rw [effect_inspect_bind]
  cases s.graph.lookup? task <;> simp [Except.map]

theorem effect_trackedPriority :
    (trackedPriority task).effect s = s.guarded
      (match s.graph.lookup? task with
      | none => (.error (.unknownTask task), s)
      | some t => (.ok (s.graph.task t).base, s)) := by
  rw [trackedPriority, effect_requireDisabled_bind]
  congr 1
  rw [effect_inspect_bind]
  cases s.graph.lookup? task <;> simp

theorem effect_listTasks :
    listTasks.effect s = s.guarded
      (.ok (), s.withGraph (Graph.evaluateAll s.bounds.lowest
        (s.graph.index.values.map .task) s.graph).2) := by
  rw [listTasks, effect_requireDisabled_bind]
  simp

theorem effect_dumpQueue :
    (dumpQueue queue).effect s = s.onQueue queue fun slot =>
      let g := (Graph.evaluate s.bounds.lowest (.queue slot) s.graph).2
      (.ok (), s.withGraph (Graph.evaluateAll s.bounds.lowest
        ((g.queue slot).waiters.map .task) g).2) := by
  rw [dumpQueue, effect_enterQueue_bind]
  simp

end Scheduler

end PriorityDonation
