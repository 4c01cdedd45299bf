import Mathlib.Control.Monad.Basic
import PriorityDonation.Proofs.LedgerMatching

/-!
# Schedulers refine ledgers

Whatever commands a scheduler carries out, a ledger that replays the transcript gives the same
answers. So slots that are used again, the lists of free slots, the caches and the flags cannot be
observed through them. The ledger matches the graph at every point of the run, because each
operation changes both in the same way.

The generations of a slot must not wrap around: no more than `2 ^ 32` queues may be created in it.
-/

namespace PriorityDonation

open Ledger Scheduler

/-- A scheduler that clients cannot tell from a ledger. -/
structure Scheduler.Refines (s : Scheduler) (ledger : Ledger) : Prop where
  bounds : ledger.bounds = s.bounds
  interrupts : ledger.interrupts = s.interrupts
  tasks : ledger.KnowsTasks s.graph
  queues : ledger.KnowsQueues s.graph

/-- The outcome of an operation for a ledger agrees with its effect on a scheduler. -/
structure Agrees (operation : Operation) (ledger : Ledger) (outcome : Ledger.Outcome)
    (effect : Except Fault Reply × Scheduler) : Prop where
  answer : outcome.1 = operation.known effect.1
  names : outcome.2.names = ledger.names ++ (nameIn effect.1).toList
  refines : effect.2.Refines outcome.2

variable {operation : Operation} {s : Scheduler} {ledger : Ledger} {g : Graph}
  {name : QueueHandle} {task : TaskId} {q number : Nat}

theorem Operation.known_error (operation : Operation) (fault : Fault) :
    operation.known (.error fault) = some (.error fault) := by
  cases operation <;> rfl

namespace Scheduler

namespace Refines

variable (r : s.Refines ledger)
include r

theorem refuse (fault : Fault) :
    Agrees operation ledger (some (.error fault), ledger) (.error fault, s) :=
  ⟨(operation.known_error fault).symm, (List.append_nil _).symm, r⟩

theorem guarded {outcome : Ledger.Outcome} {effect : Except Fault Reply × Scheduler}
    (h : Agrees operation ledger outcome effect) :
    Agrees operation ledger (ledger.guarded outcome) (s.guarded effect) := by
  unfold Ledger.guarded Scheduler.guarded
  rw [r.interrupts]
  split
  · exact r.refuse _
  · exact h

theorem onQueue {outcome : Nat → Entry → Ledger.Outcome}
    {effect : Nat → Except Fault Reply × Scheduler}
    (h : ∀ q number, s.graph.resolve? name = some q →
      ledger.find? name = some (number, s.graph.entry q) → s.onQueue name effect = effect q →
      Agrees operation ledger (outcome number (s.graph.entry q)) (effect q)) :
    Agrees operation ledger (ledger.onQueue name outcome) (s.onQueue name effect) := by
  unfold Scheduler.onQueue Scheduler.guarded at h
  unfold Ledger.onQueue Scheduler.onQueue Ledger.guarded Scheduler.guarded
  rw [r.interrupts]
  split
  · exact r.refuse _
  · rename_i hdisabled
    cases hq : s.graph.resolve? name with
    | none =>
      rw [r.queues.find?_eq_none hq]
      exact r.refuse _
    | some q =>
      obtain ⟨number, hfind⟩ := r.queues.find?_of_resolve? hq
      rw [hfind]
      exact h q number hq hfind (by rw [if_neg hdisabled, hq])

/-- The scheduler has done nothing that clients could see. -/
theorem of_sameTies (ties : s.graph.SameTies g) : (s.withGraph g).Refines ledger where
  bounds := r.bounds
  interrupts := r.interrupts
  tasks := r.tasks.congr rfl ties.base? (congrArg Std.TreeMap.size ties.index)
  queues := r.queues.of_sameTies ties

/-- One queue has another entry now. -/
theorem setEntry (hq : s.graph.resolve? name = some q)
    (hfind : ledger.find? name = some (number, s.graph.entry q)) (roster : s.graph.SameRoster g)
    (base : g.outline.base = s.graph.outline.base) {entry' : Entry}
    (entry : ∀ q', g.entry q' = if q' = q then entry' else s.graph.entry q') :
    (s.withGraph g).Refines (ledger.setEntry number entry') where
  bounds := r.bounds
  interrupts := r.interrupts
  tasks := r.tasks.congr rfl (roster.base? base) (congrArg Std.TreeMap.size roster.index)
  queues := r.queues.setEntry hq hfind roster entry

variable (c : s.graph.Consistent)
include c

theorem attaching (task : TaskId) :
    (s.withGraph (s.attaching task)).Refines (ledger.attach task) where
  bounds := r.bounds
  interrupts := r.interrupts
  tasks := by
    have hknows := r.tasks.attach c task
    rwa [r.bounds] at hknows
  queues := by
    have hqueues := Graph.queues_attach task s.bounds.initial s.graph
    exact r.queues.congr rfl rfl (Graph.resolve?_attach task _ s.graph)
      (Graph.entry_attach c task _) (congrArg Arena.size hqueues) (congrArg Arena.free hqueues)
      fun q => congrArg WaitQueue.generation (queue_attaching s task q)

theorem base_eq (task : TaskId) :
    ledger.base task = ((s.attaching task).task (s.slotOf task)).base := by
  rw [Ledger.base, r.tasks.base, r.bounds]
  exact (Graph.base_attach c task s.bounds.initial).symm

end Refines

section Operations

variable (r : s.Refines ledger) (c : s.graph.Coherent s.bounds)
include r c

omit r in
theorem consistent_attaching (task : TaskId) : (s.attaching task).Consistent :=
  (c.attach s.valid task).toConsistent

omit r in
theorem id_slotOf (task : TaskId) : ((s.attaching task).task (s.slotOf task)).id = task := by
  exact (((consistent_attaching c task).lookup_iff task _).mp (lookup?_attaching c task)).2

omit r in
theorem entry_attaching (task : TaskId) (q : Nat) :
    (s.attaching task).entry q = s.graph.entry q :=
  Graph.entry_attach c.toConsistent task s.bounds.initial q

omit r c in
theorem resolve?_attaching (task : TaskId) (name : QueueHandle) :
    (s.attaching task).resolve? name = s.graph.resolve? name :=
  Graph.resolve?_attach task s.bounds.initial s.graph name

/-- A change of the entry of one queue after a task was attached. -/
theorem Refines.attaching_setEntry (hq : s.graph.resolve? name = some q)
    (hfind : ledger.find? name = some (number, s.graph.entry q))
    (roster : (s.attaching task).SameRoster g)
    (base : g.outline.base = (s.attaching task).outline.base) {entry' : Entry}
    (entry : ∀ q', g.entry q' = if q' = q then entry' else (s.attaching task).entry q') :
    (s.withGraph g).Refines ((ledger.attach task).setEntry number entry') := by
  have hresolve := (resolve?_attaching task name).trans hq
  rw [← entry_attaching c task] at hfind
  exact (r.attaching c.toConsistent task).setEntry hresolve hfind roster base entry

theorem waitForAccess_agrees (name : QueueHandle) (task : TaskId) (given : Except Fault Reply) :
    Agrees (.waitForAccess name task) ledger (ledger.perform given (.waitForAccess name task))
      ((Operation.waitForAccess name task).perform.effect s) := by
  rw [Operation.perform, Call.effect_map, effect_waitForAccess, map_onQueue]
  apply r.onQueue
  intro q number hq hfind _
  have ca := consistent_attaching c task
  have ht := tracked_slotOf c task
  have hlive := (Graph.resolve?_eq_some ((resolve?_attaching task name).trans hq)).2.1
  have hmem := Graph.waiter_id_iff ca ht q
  rw [id_slotOf c, entry_attaching c] at hmem
  by_cases hw : s.slotOf task ∈ ((s.attaching task).queue q).waiters
  · rw [if_pos hw, if_pos (hmem.mpr hw)]
    exact ⟨rfl, (List.append_nil _).symm, r.attaching c.toConsistent task⟩
  · rw [if_neg hw, if_neg (mt hmem.mp hw)]
    refine ⟨rfl, (List.append_nil _).symm, ?_⟩
    have roster := (Graph.enqueue_edits hlive s.bounds ht hw).sameRoster
    refine r.attaching_setEntry c hq hfind roster ?_ ?_
    · rw [Graph.outline_enqueue hlive]
    · intro q'
      rw [Graph.entry_enqueue ca hlive ht hw, id_slotOf c, entry_attaching c]

theorem acquire_agrees (name : QueueHandle) (task : TaskId) (given : Except Fault Reply) :
    Agrees (.acquire name task) ledger (ledger.perform given (.acquire name task))
      ((Operation.acquire name task).perform.effect s) := by
  rw [Operation.perform, Call.effect_map, effect_acquire, map_onQueue]
  apply r.onQueue
  intro q number hq hfind _
  have ca := consistent_attaching c task
  have ht := tracked_slotOf c task
  have hlive := (Graph.resolve?_eq_some ((resolve?_attaching task name).trans hq)).2.1
  have roster := (Graph.setHolder_edits hlive s.bounds ht).sameRoster
  refine ⟨rfl, (List.append_nil _).symm, ?_⟩
  refine r.attaching_setEntry c hq hfind roster ?_ ?_
  · rw [Graph.outline_setHolder hlive ht]
  · intro q'
    rw [Graph.entry_setHolder ca hlive ht, id_slotOf c, entry_attaching c]

omit c in
theorem destroyWaitQueue_agrees (name : QueueHandle) (given : Except Fault Reply) :
    Agrees (.destroyWaitQueue name) ledger (ledger.perform given (.destroyWaitQueue name))
      ((Operation.destroyWaitQueue name).perform.effect s) := by
  rw [Operation.perform, Call.effect_map, effect_destroyWaitQueue, map_onQueue]
  apply r.onQueue
  intro q number hq hfind _
  have hlive := (Graph.resolve?_eq_some hq).2.1
  have hwaiters : (s.graph.entry q).waiters.isEmpty = (s.graph.queue q).waiters.isEmpty :=
    List.isEmpty_map
  rw [hwaiters]
  split
  · refine ⟨rfl, (List.append_nil _).symm, r.bounds, r.interrupts, ?_, ?_⟩
    · exact r.tasks.congr rfl (Graph.base?_destroyQueue hlive)
        (Graph.sizes_destroyQueue hlive).2.2
    · exact r.queues.destroy hq hfind
  · exact ⟨rfl, (List.append_nil _).symm, r⟩

theorem nextThread_agrees (name : QueueHandle) :
    Agrees (.nextThread name) ledger
      (ledger.perform ((Operation.nextThread name).perform.effect s).1 (.nextThread name))
      ((Operation.nextThread name).perform.effect s) := by
  rw [Operation.perform, Call.effect_map, effect_nextThread, map_onQueue]
  apply r.onQueue
  intro q number hq hfind heffect
  rw [heffect]
  clear heffect
  have hpicked := Graph.pick_sound s.bounds.lowest q s.graph
  generalize Graph.pick s.bounds.lowest q s.graph = picked at hpicked ⊢
  obtain ⟨_ | t, k⟩ := picked
  · obtain ⟨ties, _, hnone⟩ := hpicked
    have hwaiters : (s.graph.entry q).waiters = [] := by simp [Graph.entry, hnone rfl]
    simp only [Except.map, winnerIn, hwaiters, List.head?_nil]
    exact ⟨rfl, (List.append_nil _).symm, r.of_sameTies ties⟩
  · -- the winner is one of the waiters, so the ledger lets it win as well
    obtain ⟨ties, hmem, _⟩ := hpicked
    have ck := c.toConsistent.congr ties
    have hw : t ∈ (k.queue q).waiters := by
      rw [ties.waiters]
      exact hmem t rfl
    have hlive : (k.queue q).live = true := by rw [ties.live, (Graph.resolve?_eq_some hq).2.1]
    have ht := ck.tracked_of_waiter hw
    have roster := (Graph.setHolder_edits hlive s.bounds ht).sameRoster
    have hid : ((k.setHolder q t).task t).id = (s.graph.task t).id :=
      (roster.id t).trans (ties.id t)
    have hwaits : (s.graph.task t).id ∈ (s.graph.entry q).waiters :=
      List.mem_map_of_mem (hmem t rfl)
    have hentry : k.entry q = s.graph.entry q := ties.entry q
    simp only [Graph.setHolder_dequeue hlive hw, Except.map, winnerIn, hid, if_pos hwaits]
    refine ⟨rfl, (List.append_nil _).symm, ?_⟩
    have hgranted := (r.of_sameTies ties).setEntry ((ties.resolve? name).trans hq)
      (hentry.symm ▸ hfind) roster (by rw [Graph.outline_setHolder hlive ht]; rfl)
      (Graph.entry_setHolder ck hlive ht)
    rw [ties.id t, hentry] at hgranted
    exact hgranted.of_sameTies (Graph.sameTies_count _ _)

theorem Refines.attaching_setBase (task : TaskId) (base : Priority) :
    (s.withGraph ((s.attaching task).setBase (s.slotOf task) base)).Refines
      ((ledger.attach task).setBase task base) := by
  have ca := consistent_attaching c task
  have ra := r.attaching c.toConsistent task
  have hlookup := lookup?_attaching c task
  have roster := (s.attaching task).sameRoster_setBase (s.slotOf task) base
  refine ⟨r.bounds, r.interrupts, ra.tasks.setBase ca hlookup base, ?_⟩
  exact ra.queues.congr rfl rfl roster.resolve? (Graph.entry_setBase (tracked_slotOf c task) base)
    roster.queueSlots roster.freeQueues roster.generation

theorem adjustPriority_agrees (hknown : ∀ answer, operation.known answer = some answer)
    (task : TaskId) (delta : Priority) (room : Bounds → Priority → Bool) :
    Agrees operation ledger (ledger.adjust task delta room)
      ((Reply.flag <$> adjustPriority task delta room).effect s) := by
  rw [Call.effect_map, effect_adjustPriority]
  simp only [adjust, r.base_eq c.toConsistent, r.bounds]
  split
  · refine ⟨(hknown _).symm, (List.append_nil _).symm, ?_⟩
    exact r.attaching_setBase c task _
  · refine ⟨(hknown _).symm, (List.append_nil _).symm, ?_⟩
    exact r.attaching c.toConsistent task

theorem exitTask_agrees (task : TaskId) (given : Except Fault Reply) :
    Agrees (.exitTask task) ledger (ledger.perform given (.exitTask task))
      ((Operation.exitTask task).perform.effect s) := by
  rw [Operation.perform, Call.effect_map, effect_exitTask, map_guarded]
  apply r.guarded
  have hmem := r.tasks.mem_bases task
  rw [← Std.TreeMap.contains_iff_mem] at hmem
  cases hid : s.graph.lookup? task with
  | none =>
    simp only [hid, Option.isSome_none, Bool.false_eq_true, iff_false] at hmem
    rw [if_neg hmem]
    exact ⟨rfl, (List.append_nil _).symm, r⟩
  | some t =>
    simp only [hid, Option.isSome_some, iff_true] at hmem
    rw [if_pos hmem]
    refine ⟨rfl, (List.append_nil _).symm, r.bounds, r.interrupts, ?_, ?_⟩
    · exact r.tasks.exit c.toConsistent hid
    · exact r.queues.exit c.toConsistent hid

/-- An operation has the same outcome for the ledger and the scheduler. -/
theorem perform_agrees (operation : Operation)
    (few : ∀ slot, (ledger.names ++ (nameIn (operation.perform.effect s).1).toList).countP
      (·.slot = slot) ≤ UInt32.size) :
    Agrees operation ledger (ledger.perform (operation.perform.effect s).1 operation)
      (operation.perform.effect s) := by
  cases operation with
  | newWaitQueue transfers =>
    have a := Graph.createQueue_created c.toRostered transfers s.bounds.lowest
    rw [Operation.perform, Call.effect_map, effect_newWaitQueue] at few ⊢
    have hfew := few (Graph.createQueue transfers s.bounds.lowest s.graph).1.slot
    refine ⟨rfl, rfl, r.bounds, r.interrupts, ?_, ?_⟩
    · exact r.tasks.congr rfl a.base? (congrArg Std.TreeMap.size a.index)
    · exact r.queues.create a hfew
  | destroyWaitQueue name => exact destroyWaitQueue_agrees r name _
  | waitForAccess name task => exact waitForAccess_agrees r c name task _
  | acquire name task => exact acquire_agrees r c name task _
  | nextThread name => exact nextThread_agrees r c name
  | peekNext name =>
    rw [Operation.perform, Call.effect_map, effect_peekNext, map_onQueue]
    apply r.onQueue
    intro q number hq hfind _
    have ties := (Graph.pick_sound s.bounds.lowest q s.graph).1
    exact ⟨rfl, (List.append_nil _).symm, r.of_sameTies ties⟩
  | holder name =>
    rw [Operation.perform, Call.effect_map, effect_holder, map_onQueue]
    exact r.onQueue fun q number hq hfind _ => ⟨rfl, (List.append_nil _).symm, r⟩
  | waiters name =>
    rw [Operation.perform, Call.effect_map, effect_waiters, map_onQueue]
    exact r.onQueue fun q number hq hfind _ => ⟨rfl, (List.append_nil _).symm, r⟩
  | queuePriority name =>
    rw [Operation.perform, Call.effect_map, effect_queuePriority, map_onQueue]
    refine r.onQueue fun q number hq hfind _ => ⟨rfl, (List.append_nil _).symm, ?_⟩
    exact r.of_sameTies (Graph.sameTies_evaluate _ _ _)
  | priority task =>
    rw [Operation.perform, Call.effect_map, effect_priority, map_guarded]
    refine r.guarded ⟨?_, (List.append_nil _).symm, r.attaching c.toConsistent task⟩
    rw [r.base_eq c.toConsistent]
    rfl
  | effectivePriority task =>
    rw [Operation.perform, Call.effect_map, effect_effectivePriority, map_guarded]
    refine r.guarded ⟨rfl, (List.append_nil _).symm, ?_⟩
    exact (r.attaching c.toConsistent task).of_sameTies (Graph.sameTies_evaluate _ _ _)
  | setPriority task base =>
    rw [Operation.perform, Call.effect_map, effect_setPriority, map_guarded]
    apply r.guarded
    rw [r.bounds]
    split
    · refine ⟨rfl, (List.append_nil _).symm, ?_⟩
      exact r.attaching_setBase c task base
    · exact r.refuse _
  | increasePriority task =>
    refine adjustPriority_agrees r c ?_ task 1 fun bounds current => current < bounds.highest
    exact fun _ => rfl
  | decreasePriority task =>
    refine adjustPriority_agrees r c ?_ task (-1) fun bounds current => bounds.lowest < current
    exact fun _ => rfl
  | isTracked task =>
    refine ⟨?_, (List.append_nil _).symm, r⟩
    have hcontains : ledger.bases.contains task = (s.graph.lookup? task).isSome := by
      rw [Bool.eq_iff_iff, Std.TreeMap.contains_iff_mem, r.tasks.mem_bases]
    rw [Ledger.perform, hcontains]
    rfl
  | exitTask task => exact exitTask_agrees r c task _
  | trackedPriority task =>
    rw [Operation.perform, Call.effect_map, effect_trackedPriority, map_guarded]
    apply r.guarded
    rw [r.tasks.base, Graph.base?]
    cases s.graph.lookup? task with
    | none => exact r.refuse _
    | some t => exact ⟨rfl, (List.append_nil _).symm, r⟩
  | bounds =>
    refine ⟨?_, (List.append_nil _).symm, r⟩
    rw [Ledger.perform, r.bounds]
    rfl
  | statistics => exact ⟨rfl, (List.append_nil _).symm, r⟩
  | resetStatistics =>
    exact ⟨rfl, (List.append_nil _).symm, r.of_sameTies (Graph.sameTies_count _ _)⟩
  | taskCount =>
    refine ⟨?_, (List.append_nil _).symm, r⟩
    rw [Ledger.perform, r.tasks.count]
    rfl
  | queueCount =>
    have hcount : ledger.queues.size = s.graph.queueCount := Nat.eq_sub_of_add_eq r.queues.count
    refine ⟨?_, (List.append_nil _).symm, r⟩
    rw [Ledger.perform, hcount]
    rfl
  | listTasks =>
    rw [Operation.perform, Call.effect_map, effect_listTasks, map_guarded]
    refine r.guarded ⟨rfl, (List.append_nil _).symm, ?_⟩
    exact r.of_sameTies (Graph.sameTies_evaluateAll _ _ _)
  | dumpQueue name =>
    rw [Operation.perform, Call.effect_map, effect_dumpQueue, map_onQueue]
    refine r.onQueue fun q number hq hfind _ => ⟨rfl, (List.append_nil _).symm, ?_⟩
    have hqueue := Graph.sameTies_evaluate s.bounds.lowest (.queue q) s.graph
    exact r.of_sameTies (hqueue.trans (Graph.sameTies_evaluateAll _ _ _))

theorem next_refines (command : Command)
    (few : ∀ slot, (ledger.names ++ (nameIn (s.answer command)).toList).countP
      (·.slot = slot) ≤ UInt32.size) :
    (ledger.next (s.answer command) command).1 = command.known (s.answer command) ∧
      (ledger.next (s.answer command) command).2.names =
        ledger.names ++ (nameIn (s.answer command)).toList ∧
      (s.next command).Refines (ledger.next (s.answer command) command).2 := by
  cases command with
  | perform operation =>
    have agrees := perform_agrees r c operation few
    exact ⟨agrees.answer, agrees.names, agrees.refines⟩
  | setInterrupts interrupts =>
    exact ⟨rfl, (List.append_nil _).symm, r.bounds, rfl, r.tasks.congr rfl (fun _ => rfl) rfl,
      r.queues.congr rfl rfl (fun _ => rfl) (fun _ => rfl) rfl rfl fun _ => rfl⟩

/-- A ledger replays the answers from here on, and no two queues ever have one name. -/
theorem replay_transcript (commands : List Command)
    (few : ∀ slot, (ledger.names ++ created (s.transcript commands)).countP
      (·.slot = slot) ≤ UInt32.size) :
    ledger.replay (s.transcript commands) =
        (s.transcript commands).map (fun (command, answer) => command.known answer) ∧
      (ledger.names ++ created (s.transcript commands)).Nodup := by
  -- the names kept so far and those still to come stay the same list along the run
  induction commands generalizing s ledger with
  | nil => exact ⟨rfl, (List.append_nil _).symm ▸ r.queues.names_nodup⟩
  | cons command rest ih =>
    rw [transcript, created_cons, ← List.append_assoc] at few ⊢
    obtain ⟨hanswer, hnames, hnext⟩ := next_refines r c command fun slot => by
      have hslot := few slot
      rw [List.countP_append] at hslot
      exact Nat.le_of_add_right_le hslot
    rw [← hnames] at few ⊢
    obtain ⟨hreplay, hnodup⟩ := ih hnext (coherent_next c command) few
    refine ⟨?_, hnodup⟩
    rw [replay, hanswer, hreplay, List.map_cons]

end Operations

theorem fresh_refines {bounds : Bounds} {interrupts : InterruptFlag} {events : List Event}
    (h : build bounds interrupts = (.ok s, events)) : s.Refines { bounds, interrupts } := by
  obtain ⟨hbounds, hinterrupts, hgraph⟩ := build_eq_ok h
  refine ⟨hbounds.symm, hinterrupts.symm, ⟨fun id => ?_, ?_⟩, ?_⟩
  · rw [hgraph]
    rfl
  · rw [hgraph]
    rfl
  · rw [hgraph]
    refine ⟨fun name => rfl, rfl, fun n hn => ?_, List.nodup_nil, fun name => ?_, fun q hq => ?_⟩
    · simp at hn
    · exact ⟨fun h => absurd h List.not_mem_nil, fun h => absurd h.1 (Nat.not_lt_zero _)⟩
    · exact absurd hq (Nat.not_lt_zero q)

/-- A ledger that knows tasks and queues by name only, and has neither slots nor caches, gives the
answers of every history in which no slot has used up its generations. -/
theorem ledger_replays_transcript {bounds : Bounds} {interrupts : InterruptFlag}
    {events : List Event} (hbuild : build bounds interrupts = (.ok s, events))
    (commands : List Command)
    (few : ∀ slot, (created (s.transcript commands)).countP (·.slot = slot) ≤ UInt32.size) :
    Ledger.replay { bounds, interrupts } (s.transcript commands) =
        (s.transcript commands).map (fun (command, answer) => command.known answer) ∧
      (created (s.transcript commands)).Nodup := by
  have c : s.graph.Coherent s.bounds := (Reachable.fresh hbuild).coherent
  exact replay_transcript (fresh_refines hbuild) c commands few

/-- A task that holds one queue and waits for another one exits, and a third task takes over its
slot; a queue is destroyed and another one takes over its slot. -/
def recycledRun : List Command :=
  List.map .perform
    [.newWaitQueue true, .newWaitQueue true, .acquire ⟨0, 0⟩ ⟨1⟩, .acquire ⟨1, 0⟩ ⟨2⟩,
      .waitForAccess ⟨1, 0⟩ ⟨1⟩, .exitTask ⟨1⟩, .waitForAccess ⟨0, 0⟩ ⟨3⟩, .nextThread ⟨0, 0⟩,
      .destroyWaitQueue ⟨1, 0⟩, .newWaitQueue false, .holder ⟨1, 0⟩, .holder ⟨1, 1⟩,
      .waiters ⟨0, 0⟩, .isTracked ⟨1⟩, .queueCount]

theorem ledger_replays_transcript_recycledRun :
    (Ledger.replay { bounds := .standard, interrupts := ⟨false⟩ }
      (transcript ⟨.standard, Bounds.standard_valid, ⟨false⟩, {}⟩ recycledRun)).drop 9 =
      [some (.ok (.queue ⟨1, 1⟩)), some (.error (.unknownQueue ⟨1, 0⟩)), some (.ok (.task none)),
        some (.ok (.tasks [])), some (.ok (.flag false)), some (.ok (.count 2))] := by
  have hbuild := build_of_valid Bounds.standard_valid ⟨false⟩
  have hlength : (created (transcript ⟨.standard, Bounds.standard_valid, ⟨false⟩, {}⟩
      recycledRun)).length = 3 := by decide +kernel
  obtain ⟨hreplay, -⟩ := ledger_replays_transcript hbuild recycledRun fun slot =>
    Nat.le_trans List.countP_le_length (by rw [hlength]; decide)
  rw [hreplay]
  decide +kernel

end Scheduler

end PriorityDonation
