import Mathlib.Data.Set.Card
import PriorityDonation.LoggedScheduler
import PriorityDonation.Proofs.DirtyFlags
import PriorityDonation.Proofs.Ledger
import PriorityDonation.Proofs.RowTexts
import PriorityDonation.Proofs.Settlement
import PriorityDonation.Proofs.TableRows

/-!
# What the tables say

A table says of each task what the scheduler would answer about it. The rows are worked out one
after the other, and in a circle each of these walks can find other caches than the one before. But
a walk settles what it was asked for, and no later walk touches that again, so an early row still
holds when the last one has been worked out. The numbers of queues in a row are the lengths of two
lists, and these count each queue once because every tie is recorded at both ends.

A sink that only records gets one line for each event, numbered without a gap. What a table tells is
told here of these lines: each has the text that its row is to have, with nothing cut off, and the
numerals in the text are what the scheduler answers.
-/

namespace PriorityDonation

namespace Logger

/-- The logger once it has numbered some more records. -/
def past (logger : Logger) (count : Nat) : Logger :=
  { logger with emitted := logger.emitted + count }

/-- A sink is installed that takes lines and logs nothing in answer. -/
def Records (logger : Logger) : Prop :=
  ∃ sink, logger.sink = some sink ∧ ∀ level line, sink.answer level line = []

variable {logger : Logger}

theorem take_of_records (records : logger.Records) {event : Event}
    (admits : logger.admits event.level = true) :
    take event.record logger = ([event.delivery logger.emitted], logger.past 1) := by
  obtain ⟨threshold, installed, emitted, dropped⟩ := logger
  obtain ⟨sink, rfl, hquiet⟩ := records
  have hlevel : event.record.level = event.level := rfl
  rw [take, Option.elim_some]
  cases sink.depth <;> simp only [takeWithin, accept, hlevel, admits, if_true, hquiet] <;> rfl

theorem takeAll_of_records (records : logger.Records) {events : List Event}
    (admits : ∀ event ∈ events, logger.admits event.level = true) :
    takeAll (events.map Event.record) logger =
      (Event.deliveries logger.emitted events, logger.past events.length) := by
  induction events generalizing logger with
  | nil => rfl
  | cons event rest ih =>
    obtain ⟨hfirst, hrest⟩ := List.forall_mem_cons.mp admits
    have htake := take_of_records records hfirst
    have hlater : takeAll (rest.map Event.record) (logger.past 1) =
        (Event.deliveries (logger.emitted + 1) rest, (logger.past 1).past rest.length) :=
      ih records hrest
    have hpast : (logger.past 1).past rest.length = logger.past (event :: rest).length := by
      simp only [past, List.length_cons]
      congr 1
      omega
    have hcons : takeAll ((event :: rest).map Event.record) logger =
        ((take event.record logger).1 ++
          (takeAll (rest.map Event.record) (take event.record logger).2).1,
          (takeAll (rest.map Event.record) (take event.record logger).2).2) := by
      rw [List.map_cons, takeAll, List.mapM_cons]
      rfl
    rw [hcons, htake, hlater, hpast]
    rfl

end Logger

open PriorityDonation.Graph Call

theorem Call.run_map {α β : Type} (f : α → β) (call : Call α) (s : Scheduler) :
    (f <$> call).run s =
      ⟨(call.run s).result.map f, (call.run s).scheduler, (call.run s).events⟩ := by
  rw [map_eq_pure_bind]
  change Call.bind call (fun a => Call.pure (f a)) s = _
  simp only [Call.bind, Call.run, Call.pure]
  rcases call s with ⟨_ | a, s', events⟩
  · rfl
  · simp [Except.map]

/-- What an operation reports to a sink that only records. -/
theorem LoggedScheduler.perform_of_records {logger : Logger} (records : logger.Records)
    {s : Scheduler} {operation : Operation} {events : List Event}
    (hevents : (operation.perform.run s).events = events)
    (admits : ∀ event ∈ events, logger.admits event.level = true) :
    let lines := Event.deliveries logger.emitted events
    perform operation ⟨s, logger⟩ = ((s.answer (.perform operation), lines),
      ⟨s.next (.perform operation), logger.past lines.length⟩) := by
  intro lines
  have hrun : perform operation ⟨s, logger⟩ =
      let taken := Logger.takeAll ((operation.perform.run s).events.map Event.record) logger
      ((s.answer (.perform operation), taken.1), ⟨s.next (.perform operation), taken.2⟩) := rfl
  rw [hrun, hevents, Logger.takeAll_of_records records admits, Event.length_deliveries]

namespace Scheduler

variable {s s' : Scheduler} {queue : QueueHandle} {task : TaskId} {q t : Nat}

theorem map_zip_map {α β γ : Type} (l : List α) (f : α → β) (g : α × β → γ) :
    (l.zip (l.map f)).map g = l.map fun a => g (a, f a) := by
  induction l with
  | nil => rfl
  | cons a l ih => simp only [List.map_cons, List.zip_cons_cons, ih]

theorem evaluateAll_tasks (lowest : Priority) (slots : List Nat) (g : Graph) :
    (evaluateAll lowest (slots.map .task) g).1 =
      slots.map fun t => (evaluateAll lowest (slots.map .task) g).2.value lowest (.task t) := by
  rw [(evaluateAll_evaluates lowest (slots.map .task) g).answers, List.map_map]
  rfl

/-- The graph once the tasks of the table have been worked out. -/
def listed (s : Scheduler) : Graph :=
  (evaluateAll s.bounds.lowest (s.graph.index.values.map .task) s.graph).2

/-- The row of an entry of the index, read off when all tasks have been worked out. -/
def listedRow (s : Scheduler) (entry : TaskId × Nat) : Event :=
  taskRowOf s.listed entry.2 (s.listed.value s.bounds.lowest (.task entry.2))

theorem events_listTasks (disabled : s.interrupts.enabled = false) :
    (Operation.listTasks.perform.run s).events =
      .taskTableTitle :: .taskTableColumns :: s.graph.index.toList.map s.listedRow := by
  have hslots : s.graph.index.toList.map s.listedRow = s.graph.index.values.map fun t =>
      taskRowOf s.listed t (s.listed.value s.bounds.lowest (.task t)) := by
    rw [values_index, List.map_map]
    rfl
  have hanswers := evaluateAll_tasks s.bounds.lowest s.graph.index.values s.graph
  have hrows := map_zip_map s.graph.index.values
    (fun t => s.listed.value s.bounds.lowest (.task t)) fun row => taskRowOf s.listed row.1 row.2
  obtain ⟨bounds, valid, ⟨enabled⟩, g⟩ := s
  obtain rfl : enabled = false := disabled
  rw [hslots, Operation.perform, Call.run_map, ← hrows, listed, ← hanswers]
  rfl

theorem effect_perform_listTasks (disabled : s.interrupts.enabled = false) :
    Operation.listTasks.perform.effect s = (.ok .done, s.withGraph s.listed) := by
  rw [Operation.perform, Call.effect_map, effect_listTasks, guarded_of_disabled disabled]
  rfl

theorem sameTies_listed (s : Scheduler) : s.graph.SameTies s.listed :=
  (evaluateAll_evaluates _ _ _).sameTies

theorem settled_listed (hentry : (task, t) ∈ s.graph.index.toList) :
    s.listed.Settled s.bounds.lowest (.task t) := by
  have hnode : Node.task t ∈ s.graph.index.values.map .task := by
    rw [values_index]
    exact List.mem_map_of_mem (List.mem_map_of_mem hentry)
  exact (evaluateAll_evaluates _ _ _).settled hnode

theorem run_enterQueue_bind {α : Type} (disabled : s.interrupts.enabled = false)
    (hq : s.graph.resolve? queue = some q) (call : GuardedCall) (next : Nat → Call α) :
    (enterQueue call queue >>= next).run s = (next q).run s := by
  have henter : enterQueue call queue s = ⟨.ok q, s, []⟩ := by
    simp [enterQueue, requireDisabled, InterruptFlag.disabled, resolve, bind, pure, Call.bind,
      Call.pure, inspect, disabled, hq]
  change Call.bind (enterQueue call queue) next s = _
  simp [Call.bind, henter, Call.run]

theorem map_eq_map_zipIdx {α β : Type} (l : List α) (f : α → β) :
    l.map f = l.zipIdx.map fun item => f item.1 := by
  rw [← Function.comp_def, ← List.map_map, List.zipIdx_map_fst]

/-- The graph once the donation of a queue has been worked out. -/
def donated (s : Scheduler) (q : Nat) : Graph := (evaluate s.bounds.lowest (.queue q) s.graph).2

/-- The graph once the waiters of the queue have been worked out too. -/
def dumped (s : Scheduler) (q : Nat) : Graph :=
  (evaluateAll s.bounds.lowest (((s.donated q).queue q).waiters.map .task) (s.donated q)).2

/-- The line above the waiters, read off when all waiters have been worked out. -/
def dumpedTitle (s : Scheduler) (queue : QueueHandle) (q : Nat) : Event :=
  .queueTitle queue (s.holderOf q) ((s.dumped q).value s.bounds.lowest (.queue q))
    (s.graph.queue q).transfers

/-- The row of a waiter, read off when all waiters have been worked out. -/
def dumpedRow (s : Scheduler) (q : Nat) (item : Nat × Nat) : Event :=
  waiterRowOf (s.dumped q) item ((s.dumped q).value s.bounds.lowest (.task item.1))

theorem sameTies_donated (s : Scheduler) (q : Nat) : s.graph.SameTies (s.donated q) :=
  sameTies_evaluate s.bounds.lowest (.queue q) s.graph

theorem sameTies_dumped (s : Scheduler) (q : Nat) : s.graph.SameTies (s.dumped q) :=
  (sameTies_donated s q).trans (evaluateAll_evaluates _ _ _).sameTies

/-- The donation is settled before the first row is worked out. -/
theorem settled_dumped_queue (s : Scheduler) (q : Nat) :
    (s.dumped q).Settled s.bounds.lowest (.queue q) ∧
      (s.dumped q).value s.bounds.lowest (.queue q) =
        (s.donated q).value s.bounds.lowest (.queue q) :=
  (evaluateAll_evaluates _ _ _).keeps_settled (settled_evaluate s.bounds.lowest (.queue q) s.graph)

theorem settled_dumped_task (hw : t ∈ (s.graph.queue q).waiters) :
    (s.dumped q).Settled s.bounds.lowest (.task t) := by
  rw [← (sameTies_donated s q).waiters] at hw
  exact (evaluateAll_evaluates _ _ _).settled (List.mem_map_of_mem hw)

theorem events_dumpQueue (disabled : s.interrupts.enabled = false)
    (hq : s.graph.resolve? queue = some q) :
    ((Operation.dumpQueue queue).perform.run s).events =
      s.dumpedTitle queue q :: (s.graph.queue q).waiters.zipIdx.map (s.dumpedRow q) := by
  have ties := sameTies_donated s q
  have hholder : (s.withGraph (s.donated q)).holderOf q = s.holderOf q := by
    simp only [holderOf, graph_withGraph, ties.holder, ties.id]
  have hdonation : (evaluate s.bounds.lowest (.queue q) s.graph).1 =
      (s.dumped q).value s.bounds.lowest (.queue q) :=
    (evaluate_fst _ _ _).trans (settled_dumped_queue s q).2.symm
  have htitle : s.dumpedTitle queue q = .queueTitle queue
      ((s.withGraph (s.donated q)).holderOf q) (evaluate s.bounds.lowest (.queue q) s.graph).1
      ((s.donated q).queue q).transfers := by
    rw [dumpedTitle, hholder, hdonation, ties.transfers]
  let waiters := ((s.donated q).queue q).waiters
  have hanswers : (evaluateAll s.bounds.lowest (waiters.map .task) (s.donated q)).1 =
      waiters.zipIdx.map fun item => (s.dumped q).value s.bounds.lowest (.task item.1) :=
    (evaluateAll_tasks _ _ _).trans (map_eq_map_zipIdx _ _)
  have hrows := map_zip_map waiters.zipIdx
    (fun item => (s.dumped q).value s.bounds.lowest (.task item.1)) fun row =>
      waiterRowOf (s.dumped q) row.1 row.2
  have hnumbered := map_zipIdx_zip
    (fun t priority position => waiterRowOf (s.dumped q) (t, position) priority) waiters
    (waiters.zipIdx.map fun item => (s.dumped q).value s.bounds.lowest (.task item.1)) 0
  have hdumped : (s.graph.queue q).waiters.zipIdx.map (s.dumpedRow q) =
      waiters.zipIdx.map fun item => waiterRowOf (s.dumped q) item
        ((s.dumped q).value s.bounds.lowest (.task item.1)) := by
    rw [← ties.waiters]
    rfl
  rw [Operation.perform, Call.run_map, dumpQueue, run_enterQueue_bind disabled hq, htitle,
    hdumped, ← hrows, ← hnumbered, ← hanswers]
  rfl

theorem effect_perform_dumpQueue (disabled : s.interrupts.enabled = false)
    (hq : s.graph.resolve? queue = some q) :
    (Operation.dumpQueue queue).perform.effect s = (.ok .done, s.withGraph (s.dumped q)) := by
  rw [Operation.perform, Call.effect_map, effect_dumpQueue, onQueue_of_some disabled hq]
  rfl

section Answers

variable (disabled : s.interrupts.enabled = false)
include disabled

theorem answer_effectivePriority {h : Graph} (ht : h.lookup? task = some t)
    (settled : h.Settled s.bounds.lowest (.task t)) :
    (s.withGraph h).answer (.perform (.effectivePriority task)) =
      .ok (.priority (h.value s.bounds.lowest (.task t))) := by
  have disabled' : (s.withGraph h).interrupts.enabled = false := disabled
  have hslot := slotOf_of_some (s := s.withGraph h) ht
  change ((Operation.effectivePriority task).perform.effect (s.withGraph h)).1 = _
  rw [Operation.perform, Call.effect_map, effect_effectivePriority, guarded_of_disabled disabled',
    hslot.1, hslot.2, graph_withGraph, bounds_withGraph, evaluate_settled settled]
  rfl

theorem answer_trackedPriority (ht : s.graph.lookup? task = some t) :
    s.answer (.perform (.trackedPriority task)) = .ok (.priority (s.graph.task t).base) := by
  change ((Operation.trackedPriority task).perform.effect s).1 = _
  rw [Operation.perform, Call.effect_map, effect_trackedPriority, guarded_of_disabled disabled, ht]
  rfl

theorem answer_queuePriority {h : Graph} (hq : h.resolve? queue = some q)
    (settled : h.Settled s.bounds.lowest (.queue q)) :
    (s.withGraph h).answer (.perform (.queuePriority queue)) =
      .ok (.priority (h.value s.bounds.lowest (.queue q))) := by
  have disabled' : (s.withGraph h).interrupts.enabled = false := disabled
  have hq' : (s.withGraph h).graph.resolve? queue = some q := hq
  change ((Operation.queuePriority queue).perform.effect (s.withGraph h)).1 = _
  rw [Operation.perform, Call.effect_map, effect_queuePriority, onQueue_of_some disabled' hq',
    graph_withGraph, bounds_withGraph, evaluate_settled settled]
  rfl

/-- A handle is answered for exactly when it names a live queue. -/
theorem onQueue_eq_ok_iff {α : Type} {answer : Nat → α} {a : α} :
    (s.onQueue queue fun q => (.ok (answer q), s)).1 = .ok a ↔
      ∃ q, s.graph.resolve? queue = some q ∧ answer q = a := by
  cases hq : s.graph.resolve? queue with
  | some q => simp [onQueue_of_some disabled hq]
  | none => simp [onQueue_of_none disabled hq]

theorem answer_holder_iff {holder : Option TaskId} :
    s.answer (.perform (.holder queue)) = .ok (.task holder) ↔
      ∃ q, s.graph.resolve? queue = some q ∧ s.holderOf q = holder := by
  change ((Operation.holder queue).perform.effect s).1 = _ ↔ _
  rw [Operation.perform, Call.effect_map, effect_holder, map_onQueue]
  exact (onQueue_eq_ok_iff disabled).trans (by simp only [Reply.task.injEq])

theorem answer_waiters_iff {waiters : List TaskId} :
    s.answer (.perform (.waiters queue)) = .ok (.tasks waiters) ↔
      ∃ q, s.graph.resolve? queue = some q ∧ s.waitersOf q = waiters := by
  change ((Operation.waiters queue).perform.effect s).1 = _ ↔ _
  rw [Operation.perform, Call.effect_map, effect_waiters, map_onQueue]
  exact (onQueue_eq_ok_iff disabled).trans (by simp only [Reply.tasks.injEq])

end Answers

/-- As many handles name the queues of a list as there are queues in the list. -/
theorem encard_handles {g : Graph} {slots : List Nat} {handles : Set QueueHandle}
    (nodup : slots.Nodup) (live : ∀ q ∈ slots, (g.queue q).live = true)
    (h : ∀ queue, queue ∈ handles ↔ ∃ q ∈ slots, g.resolve? queue = some q) :
    handles.encard = slots.length := by
  let handle (q : Nat) : QueueHandle := ⟨q, (g.queue q).generation⟩
  have inj : Function.Injective handle := fun _ _ heq => congrArg QueueHandle.slot heq
  have hset : handles = (slots.map handle).toFinset := by
    ext queue
    rw [h, List.coe_toFinset, Set.mem_ofPred_eq, List.mem_map]
    refine exists_congr fun q => and_congr_right fun hq => ⟨fun hresolve => ?_, ?_⟩
    · obtain ⟨hslot, -, hgeneration⟩ := resolve?_eq_some hresolve
      cases queue
      simp_all [handle]
    · rintro rfl
      simp [handle, resolve?, live q hq]
  rw [hset, Set.encard_coe_eq_coe_finsetCard, List.toFinset_card_of_nodup (nodup.map inj),
    List.length_map]

section Counts

variable (c : s.graph.Coherent s.bounds) (ht : s.graph.lookup? task = some t)
include c ht

/-- The slot of a task tells its identity. -/
theorem id_eq_iff {t' : Nat} (ht' : s.graph.Tracked t') : (s.graph.task t').id = task ↔ t' = t := by
  have hid := (c.lookup_iff task t).mp ht
  refine ⟨fun h => ?_, fun h => h ▸ hid.2⟩
  have hlookup := (c.lookup_iff task t').mpr ⟨ht', h⟩
  rw [ht] at hlookup
  exact (Option.some.inj hlookup).symm

variable (disabled : s.interrupts.enabled = false)
include disabled

theorem encard_held :
    {queue | s.answer (.perform (.holder queue)) = .ok (.task (some task))}.encard =
      (s.graph.task t).held.length := by
  refine encard_handles (c.held_nodup t) (fun q hq => (c.held_inUse q t hq).2) fun queue => ?_
  have holds {q : Nat} : s.holderOf q = some task ↔ q ∈ (s.graph.task t).held := by
    rw [holderOf, Option.map_eq_some_iff, ← c.holder_iff]
    constructor
    · rintro ⟨t', hholder, hid⟩
      have ht' := (c.held_inUse q t' ((c.holder_iff q t').mp hholder)).1
      rwa [(id_eq_iff c ht ht').mp hid] at hholder
    · exact fun hholder => ⟨t, hholder, ((c.lookup_iff task t).mp ht).2⟩
  rw [Set.mem_ofPred_eq, answer_holder_iff disabled]
  exact exists_congr fun q => and_comm.trans (and_congr_left fun _ => holds)

theorem encard_awaiting :
    {queue | ∃ waiters, s.answer (.perform (.waiters queue)) = .ok (.tasks waiters) ∧
      task ∈ waiters}.encard = (s.graph.task t).awaiting.length := by
  refine encard_handles (c.awaiting_nodup t) (fun q hq => (c.awaiting_inUse q t hq).2)
    fun queue => ?_
  have waits {q : Nat} : task ∈ s.waitersOf q ↔ q ∈ (s.graph.task t).awaiting := by
    rw [waitersOf, List.mem_map, ← c.waiter_iff]
    constructor
    · rintro ⟨t', hwaits, hid⟩
      rwa [(id_eq_iff c ht (c.tracked_of_waiter hwaits)).mp hid] at hwaits
    · exact fun hwaits => ⟨t, hwaits, ((c.lookup_iff task t).mp ht).2⟩
  constructor
  · rintro ⟨waiters, h, htask⟩
    obtain ⟨q, hq, rfl⟩ := (answer_waiters_iff disabled).mp h
    exact ⟨q, waits.mp htask, hq⟩
  · rintro ⟨q, hawaits, hq⟩
    exact ⟨_, (answer_waiters_iff disabled).mpr ⟨q, hq, rfl⟩, waits.mpr hawaits⟩

end Counts

/-- The row shows what the scheduler answers about a task: the base priority and the numbers of
queues before the table is made, the effective priority afterwards. The rows are numbered from
`first` on. -/
def RowOfTask (s s' : Scheduler) (first : Nat) : TaskId × Nat → Delivery → Prop :=
  fun (task, position) row => ∃ (base effective : Priority) (held awaiting : Nat),
    row.ShowsTask (first + position) task base effective held awaiting ∧
    s.answer (.perform (.trackedPriority task)) = .ok (.priority base) ∧
    s'.answer (.perform (.effectivePriority task)) = .ok (.priority effective) ∧
    {queue | s.answer (.perform (.holder queue)) = .ok (.task (some task))}.encard = held ∧
    {queue | ∃ waiters, s.answer (.perform (.waiters queue)) = .ok (.tasks waiters) ∧
      task ∈ waiters}.encard = awaiting

/-- The row shows what the scheduler answers afterwards about the waiter at some position. -/
def RowOfWaiter (s' : Scheduler) (first : Nat) : TaskId × Nat → Delivery → Prop :=
  fun (task, position) row => ∃ effective : Priority,
    row.ShowsWaiter (first + position) position task effective ∧
    s'.answer (.perform (.effectivePriority task)) = .ok (.priority effective)

/-- What the table of tasks tells: each tracked task once, in the order of the identities. -/
def ListsFaithfully (s : Scheduler) (logger : Logger) : Prop :=
  let s' := s.next (.perform .listTasks)
  ∃ (ids : List TaskId) (title columns : Delivery) (rows : List Delivery),
    let lines := title :: columns :: rows
    LoggedScheduler.perform .listTasks ⟨s, logger⟩ =
      ((.ok .done, lines), ⟨s', logger.past lines.length⟩) ∧
    lines.length = 2 + s.graph.taskCount ∧
    title.Shows logger.emitted "=== Donation Task List ===" [] ∧
    columns.Shows (logger.emitted + 1) "Task     Base  Eff   Held  Awaiting" [] ∧
    ids.Pairwise (·.val < ·.val) ∧
    (∀ task, task ∈ ids ↔ s.answer (.perform (.isTracked task)) = .ok (.flag true)) ∧
    List.Forall₂ (s.RowOfTask s' (logger.emitted + 2)) ids.zipIdx rows ∧ s.graph.SameTies s'.graph

/-- What the table of a queue tells: its holder and its donation, then each waiter in the order of
arrival, numbered from zero. -/
def DumpsFaithfully (s : Scheduler) (logger : Logger) (queue : QueueHandle) : Prop :=
  let s' := s.next (.perform (.dumpQueue queue))
  ∃ (holder : Option TaskId) (donation : Priority) (transfers : Bool) (waiters : List TaskId)
    (title : Delivery) (rows : List Delivery),
    let lines := title :: rows
    LoggedScheduler.perform (.dumpQueue queue) ⟨s, logger⟩ =
      ((.ok .done, lines), ⟨s', logger.past lines.length⟩) ∧
    title.ShowsQueue logger.emitted queue holder donation transfers ∧
    s.answer (.perform (.holder queue)) = .ok (.task holder) ∧
    s'.answer (.perform (.queuePriority queue)) = .ok (.priority donation) ∧
    transfers = (s.graph.queue queue.slot).transfers ∧
    s.answer (.perform (.waiters queue)) = .ok (.tasks waiters) ∧
    List.Forall₂ (s'.RowOfWaiter (logger.emitted + 1)) waiters.zipIdx rows ∧
    s.graph.SameTies s'.graph

section Rows

variable (c : s.graph.Coherent s.bounds) (disabled : s.interrupts.enabled = false)
include c disabled

theorem rowOfTask (hentry : (task, t) ∈ s.graph.index.toList) (first position : Nat) :
    s.RowOfTask (s.withGraph s.listed) first (task, position)
      ((s.listedRow (task, t)).delivery (first + position)) := by
  have ties := sameTies_listed s
  have ht : s.graph.lookup? task = some t :=
    Std.TreeMap.mem_toList_iff_getElem?_eq_some.mp hentry
  have settled := settled_listed hentry
  have hid := ((c.lookup_iff task t).mp ht).2
  have hrow : s.listedRow (task, t) = .taskRow task (s.graph.task t).base
      (s.listed.value s.bounds.lowest (.task t)) (s.graph.task t).held.length
      (s.graph.task t).awaiting.length := by
    simp only [listedRow, taskRowOf, ties.id, ties.base, ties.held, ties.awaiting, hid]
  rw [hrow]
  refine ⟨(s.graph.task t).base, s.listed.value s.bounds.lowest (.task t), _, _,
    Event.shows_taskRow _ _ _ _ _ _, answer_trackedPriority disabled ht, ?_,
    encard_held c ht disabled, encard_awaiting c ht disabled⟩
  exact answer_effectivePriority disabled ((ties.lookup? task).trans ht) settled

theorem rowOfWaiter (hw : t ∈ (s.graph.queue q).waiters) (first position : Nat) :
    (s.withGraph (s.dumped q)).RowOfWaiter first ((s.graph.task t).id, position)
      ((s.dumpedRow q (t, position)).delivery (first + position)) := by
  have ties := sameTies_dumped s q
  have settled := settled_dumped_task hw
  have hlookup := (c.lookup_iff _ t).mpr ⟨c.tracked_of_waiter hw, rfl⟩
  have hrow : s.dumpedRow q (t, position) = .waiterRow position (s.graph.task t).id
      ((s.dumped q).value s.bounds.lowest (.task t)) := by
    simp only [dumpedRow, waiterRowOf, ties.id]
  rw [hrow]
  refine ⟨(s.dumped q).value s.bounds.lowest (.task t), Event.shows_waiterRow _ _ _ _, ?_⟩
  exact answer_effectivePriority disabled ((ties.lookup? _).trans hlookup) settled

end Rows

section Tables

variable {logger : Logger} (disabled : s.interrupts.enabled = false) (records : logger.Records)
  (admits : logger.admits .info = true)
include disabled records admits

theorem lines_listTasks :
    let lines := Event.taskTableTitle.delivery logger.emitted ::
      Event.taskTableColumns.delivery (logger.emitted + 1) ::
      s.graph.index.toList.zipIdx.map fun item =>
        (s.listedRow item.1).delivery (logger.emitted + 2 + item.2)
    LoggedScheduler.perform .listTasks ⟨s, logger⟩ =
      ((.ok .done, lines), ⟨s.withGraph s.listed, logger.past lines.length⟩) := by
  intro lines
  have hlines : Event.deliveries logger.emitted
      (.taskTableTitle :: .taskTableColumns :: s.graph.index.toList.map s.listedRow) = lines := by
    have hsecond : logger.emitted + 1 + 1 = logger.emitted + 2 := rfl
    rw [Event.deliveries_cons, Event.deliveries_cons, hsecond, map_eq_map_zipIdx _ s.listedRow,
      Event.deliveries_rows]
  have heffect := effect_perform_listTasks disabled
  have hanswer : s.answer (.perform .listTasks) = .ok .done := congrArg Prod.fst heffect
  have hnext : s.next (.perform .listTasks) = s.withGraph s.listed := congrArg Prod.snd heffect
  rw [LoggedScheduler.perform_of_records records (events_listTasks disabled), hanswer, hnext,
    hlines]
  simp only [List.forall_mem_cons, List.forall_mem_map]
  exact ⟨admits, admits, fun _ _ => admits⟩

theorem lines_dumpQueue (hq : s.graph.resolve? queue = some q) :
    let lines := (s.dumpedTitle queue q).delivery logger.emitted ::
      (s.graph.queue q).waiters.zipIdx.map fun item =>
        (s.dumpedRow q item).delivery (logger.emitted + 1 + item.2)
    LoggedScheduler.perform (.dumpQueue queue) ⟨s, logger⟩ =
      ((.ok .done, lines), ⟨s.withGraph (s.dumped q), logger.past lines.length⟩) := by
  intro lines
  have hlines : Event.deliveries logger.emitted
      (s.dumpedTitle queue q :: (s.graph.queue q).waiters.zipIdx.map (s.dumpedRow q)) = lines := by
    rw [Event.deliveries_cons, Event.deliveries_rows]
  have heffect := effect_perform_dumpQueue disabled hq
  have hanswer : s.answer (.perform (.dumpQueue queue)) = .ok .done := congrArg Prod.fst heffect
  have hnext : s.next (.perform (.dumpQueue queue)) = s.withGraph (s.dumped q) :=
    congrArg Prod.snd heffect
  rw [LoggedScheduler.perform_of_records records (events_dumpQueue disabled hq), hanswer, hnext,
    hlines]
  simp only [List.forall_mem_cons, List.forall_mem_map]
  exact ⟨admits, fun _ _ => admits⟩

variable (reachable : s.Reachable)
include reachable

theorem listsFaithfully : s.ListsFaithfully logger := by
  unfold ListsFaithfully
  intro s'
  have c := reachable.coherent
  have hnext : s' = s.withGraph s.listed := congrArg Prod.snd (effect_perform_listTasks disabled)
  rw [hnext]
  refine ⟨s.graph.index.keys, _, _, _, lines_listTasks disabled records admits, ?_, ?_, ?_, ?_, ?_,
    ?_, sameTies_listed s⟩
  · rw [List.length_cons, List.length_cons, List.length_map, List.length_zipIdx,
      Std.TreeMap.length_toList, Nat.add_assoc, Nat.add_comm]
    rfl
  · exact Event.shows_text rfl rfl fun _ => by decide
  · exact Event.shows_text rfl (by decide) fun _ => by decide
  · refine List.Pairwise.imp (fun hlt => ?_) s.graph.index.ordered_keys
    exact Std.compare_eq_lt.mp hlt
  · intro task
    rw [Std.TreeMap.mem_keys, Std.TreeMap.mem_iff_isSome_getElem?]
    change _ ↔ Except.ok (Reply.flag (s.graph.lookup? task).isSome) = _
    simp [lookup?]
  · rw [← Std.TreeMap.map_fst_toList_eq_keys, List.zipIdx_map, List.forall₂_map_left_iff,
      List.forall₂_map_right_iff, List.forall₂_same]
    rintro ⟨⟨task, t⟩, position⟩ hmem
    have hentry : (task, t) ∈ s.graph.index.toList := List.fst_mem_of_mem_zipIdx hmem
    have hrow := rowOfTask c disabled hentry (logger.emitted + 2) position
    exact hrow

theorem dumpsFaithfully (hq : s.graph.resolve? queue = some q) :
    s.DumpsFaithfully logger queue := by
  unfold DumpsFaithfully
  intro s'
  have c := reachable.coherent
  have ties := sameTies_dumped s q
  have hnext : s' = s.withGraph (s.dumped q) :=
    congrArg Prod.snd (effect_perform_dumpQueue disabled hq)
  rw [hnext]
  refine ⟨s.holderOf q, (s.dumped q).value s.bounds.lowest (.queue q),
    (s.graph.queue q).transfers, s.waitersOf q, _, _, lines_dumpQueue disabled records admits hq,
    Event.shows_queueTitle _ _ _ _ _, (answer_holder_iff disabled).mpr ⟨q, hq, rfl⟩, ?_, ?_,
    (answer_waiters_iff disabled).mpr ⟨q, hq, rfl⟩, ?_, ties⟩
  · have hq' := (ties.resolve? queue).trans hq
    exact answer_queuePriority disabled hq' (settled_dumped_queue s q).1
  · rw [(resolve?_eq_some hq).1]
  · rw [waitersOf, List.zipIdx_map, List.forall₂_map_left_iff, List.forall₂_map_right_iff,
      List.forall₂_same]
    rintro ⟨t, position⟩ hmem
    have hw : t ∈ (s.graph.queue q).waiters := List.fst_mem_of_mem_zipIdx hmem
    have hrow := rowOfWaiter c disabled hw (logger.emitted + 1) position
    exact hrow

end Tables

/-- Both tables say what the scheduler answers, also around circles, and change nothing but caches.
-/
theorem tables_are_faithful (reachable : s.Reachable) (disabled : s.interrupts.enabled = false)
    {logger : Logger} (records : logger.Records) (admits : logger.admits .info = true) :
    s.ListsFaithfully logger ∧
      ∀ queue, (∃ q, s.graph.resolve? queue = some q) → s.DumpsFaithfully logger queue :=
  ⟨listsFaithfully disabled records admits reachable,
    fun _ ⟨_, hq⟩ => dumpsFaithfully disabled records admits reachable hq⟩

/-- A circle of two tasks, with a third one that waits with the second. A fourth has gone, and its
slot was used again. -/
def listedCircle : Scheduler :=
  closedCircle.after <| List.map .perform
    [.priority ⟨9⟩, .exitTask ⟨9⟩, .setPriority ⟨0⟩ 4, .waitForAccess ⟨0, 0⟩ ⟨0⟩,
      .setPriority ⟨1⟩ 6]

theorem tables_are_faithful_listedCircle :
    let logger : Logger := { sink := some .listener }
    listedCircle.ListsFaithfully logger ∧ listedCircle.DumpsFaithfully logger ⟨0, 0⟩ ∧
      (LoggedScheduler.perform .listTasks ⟨listedCircle, logger⟩).1.2.map Delivery.line =
        ["[     0] [INFO ] === Donation Task List ===",
          "[     1] [INFO ] Task     Base  Eff   Held  Awaiting",
          "[     2] [INFO ] T0 4     4     0     1       ",
          "[     3] [INFO ] T1 6     6     1     1       ",
          "[     4] [INFO ] T2 1     6     1     1       "] ∧
      (LoggedScheduler.perform (.dumpQueue ⟨0, 0⟩) ⟨listedCircle, logger⟩).1.2.map
          Delivery.line =
        ["[     0] [INFO ] === Q0.0 held by T1 (donation 6, transfers true) ===",
          "[     1] [INFO ]   #0   T2 eff 6",
          "[     2] [INFO ]   #1   T0 eff 4"] := by
  intro logger
  have reachable : listedCircle.Reachable :=
    ((Reachable.fresh (build_of_valid Bounds.standard_valid ⟨false⟩)).after _).after _
  have disabled : listedCircle.interrupts.enabled = false := by decide +kernel
  have records : logger.Records := ⟨.listener, rfl, fun _ _ => rfl⟩
  have hqueue : listedCircle.graph.resolve? ⟨0, 0⟩ = some 0 := by decide +kernel
  obtain ⟨hlists, hdumps⟩ := tables_are_faithful reachable disabled records rfl
  exact ⟨hlists, hdumps _ ⟨0, hqueue⟩, by decide +kernel, by decide +kernel⟩

end Scheduler

end PriorityDonation
