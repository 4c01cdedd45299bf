import PriorityDonation.Proofs.Effects
import PriorityDonation.Proofs.Steps

/-!
# Histories of a scheduler

A history begins with a scheduler just built and goes on with operations, whether they succeed or
not, and with changes of the interrupt flag between them. `Operation.does` goes through the
operations once and tells what each of them is made of. Every part is a step, so the graph is
coherent at every point of every history.
-/

namespace PriorityDonation

namespace Graph

variable {bounds : Bounds} {g h : Graph} {q t : Nat}

theorem pick_evaluates (floor : Priority) (q : Nat) (g : Graph) :
    ∃ priorities h, Evaluates floor g ((g.queue q).waiters.map .task) priorities h ∧
      pick floor q g =
        ((((g.queue q).waiters.zip priorities).maxOn? Prod.snd).map Prod.fst, h) :=
  ⟨_, _, evaluateAll_evaluates floor ((g.queue q).waiters.map .task) g, rfl⟩

/-- Picking leaves the ties alone, and picks a waiter if there is one. -/
theorem pick_sound (floor : Priority) (q : Nat) (g : Graph) :
    SameTies g (pick floor q g).2 ∧ (∀ t, (pick floor q g).1 = some t → t ∈ (g.queue q).waiters) ∧
      ((pick floor q g).1 = none → (g.queue q).waiters = []) := by
  obtain ⟨priorities, h, he, hpick⟩ := pick_evaluates floor q g
  have hlength : priorities.length = (g.queue q).waiters.length := by
    rw [he.answers, List.length_map, List.length_map]
  rw [hpick]
  refine ⟨he.sameTies, fun t ht => ?_, fun hnone => ?_⟩
  · obtain ⟨⟨t', priority⟩, hbest, rfl⟩ := Option.map_eq_some_iff.mp ht
    exact (List.of_mem_zip (List.maxOn?_mem hbest)).1
  · rw [Option.map_eq_none_iff, ← Option.not_isSome_iff_eq_none, List.isSome_maxOn?_iff,
      not_not] at hnone
    have hzero := congrArg List.length hnone
    simp only [List.length_zip, hlength, Nat.min_self, List.length_nil] at hzero
    exact List.length_eq_zero_iff.mp hzero

theorem resolve?_eq_some {handle : QueueHandle} (hq : g.resolve? handle = some q) :
    q = handle.slot ∧ (g.queue q).live = true ∧ (g.queue q).generation = handle.generation := by
  simp only [resolve?] at hq
  split at hq
  · rename_i h
    cases hq
    exact ⟨rfl, h⟩
  · cases hq

theorem values_index (g : Graph) : g.index.values = g.index.toList.map Prod.snd := by
  have hfold : g.index.values = g.index.foldr (fun _ v l => v :: l) [] := rfl
  rw [hfold, Std.TreeMap.foldr_eq_foldr_toList]
  induction g.index.toList with
  | nil => rfl
  | cons a l ih => simp

/-- The slots of the index are those of tracked tasks. -/
theorem Rostered.tracked_of_mem_values (c : g.Rostered) (ht : t ∈ g.index.values) :
    g.Tracked t := by
  obtain ⟨⟨id, t'⟩, hmem, rfl⟩ := List.mem_map.mp (g.values_index ▸ ht)
  exact ((c.lookup_iff id t').mp (Std.TreeMap.mem_toList_iff_getElem?_eq_some.mp hmem)).1

end Graph

namespace Bounds

variable {bounds : Bounds} {current : Priority}

theorem toInt_increase (room : current < bounds.highest) :
    (current + 1).toInt = current.toInt + 1 := by
  have hone : (1 : Int32).toInt = 1 := rfl
  have hlt := bounds.highest.toInt_lt
  have hle := current.le_toInt
  simp only [Int32.lt_iff_toInt_lt, Int32.toInt_add, hone] at *
  exact Int.bmod_eq_of_le (by omega) (by omega)

theorem toInt_decrease (room : bounds.lowest < current) :
    (current + -1).toInt = current.toInt + -1 := by
  have hone : (-1 : Int32).toInt = -1 := rfl
  have hlt := current.toInt_lt
  have hle := bounds.lowest.le_toInt
  simp only [Int32.lt_iff_toInt_lt, Int32.toInt_add, hone] at *
  exact Int.bmod_eq_of_le (by omega) (by omega)

theorem increase_mem (h : current ∈ bounds) (room : current < bounds.highest) :
    current + 1 ∈ bounds := by
  have hint := toInt_increase room
  simp only [mem_iff, Int32.le_iff_toInt_le, Int32.lt_iff_toInt_lt] at *
  omega

theorem decrease_mem (h : current ∈ bounds) (room : bounds.lowest < current) :
    current + -1 ∈ bounds := by
  have hint := toInt_decrease room
  simp only [mem_iff, Int32.le_iff_toInt_le, Int32.lt_iff_toInt_lt] at *
  omega

end Bounds

open PriorityDonation.Graph Bounds

/-- What an operation may do to a scheduler. -/
structure Scheduler.Follows (s s' : Scheduler) : Prop where
  bounds : s'.bounds = s.bounds
  interrupts : s'.interrupts = s.interrupts
  steps : s.graph.Steps s.bounds s'.graph

/-- What an operation may do to a scheduler that evaluates nodes of some kind only. -/
structure Scheduler.Acts (kind : Graph → Node → Prop) (s s' : Scheduler) : Prop where
  bounds : s'.bounds = s.bounds
  interrupts : s'.interrupts = s.interrupts
  moves : s.graph.Moves s.bounds kind s'.graph

/-- The queue whose donation is asked for. -/
def Operation.donation? : Operation → Option QueueHandle
  | queuePriority queue => some queue
  | dumpQueue queue => some queue
  | _ => none

namespace Operation

/-- Whether an operation works out priorities and changes no tie. -/
def fills : Operation → Bool
  | peekNext _ | queuePriority _ | effectivePriority _ | listTasks | dumpQueue _ => true
  | _ => false

/-- One part of what an operation does to the graph of a scheduler. Only some operations have parts
that bring queues into use or out of it, retire tasks, or evaluate a queue for its own sake. -/
inductive Part (operation : Operation) (s : Scheduler) : Graph → Graph → Prop
  | attach (task : TaskId) : Part operation s s.graph (s.attaching task)
  | edit {g e : Graph} {v : Node} : g.Edit s.bounds e v → Part operation s g (e.invalidate v)
  | create {transfers : Bool} : operation = .newWaitQueue transfers →
      Part operation s s.graph (createQueue transfers s.bounds.lowest s.graph).2
  | discard {queue : QueueHandle} {g : Graph} {q : Nat} : operation = .destroyWaitQueue queue →
      (g.queue q).live = true → (g.queue q).holder = none → (g.queue q).waiters = [] →
      Part operation s g (g.discard q)
  | retire {task : TaskId} {t : Nat} : operation = .exitTask task →
      s.graph.lookup? task = some t → Part operation s s.graph (retire t s.graph).2
  | evaluateTask {g : Graph} {t : Nat} : g.Tracked t →
      Part operation s g (evaluate s.bounds.lowest (.task t) g).2
  | evaluateQueue {queue : QueueHandle} {q : Nat} : operation.donation? = some queue →
      s.graph.resolve? queue = some q →
      Part operation s s.graph (evaluate s.bounds.lowest (.queue q) s.graph).2

def Parts (operation : Operation) (s : Scheduler) : Graph → Graph → Prop :=
  Relation.ReflTransGen (operation.Part s)

/-- What is counted when an operation is done, given its answer. -/
def tally : Operation → Except Fault Reply → Counters → Counters
  | nextThread _, .ok (.task (some _)), counters =>
      { counters with handoffs := counters.handoffs + 1 }
  | resetStatistics, .ok _, _ => {}
  | _, _, counters => counters

/-- What an operation does to a scheduler and what it answers. -/
structure Does (operation : Operation) (s : Scheduler) (effect : Except Fault Reply × Scheduler) :
    Prop where
  bounds : effect.2.bounds = s.bounds
  interrupts : effect.2.interrupts = s.interrupts
  parts : ∃ g, operation.Parts s s.graph g ∧ effect.2.graph = g.count (operation.tally effect.1)

end Operation

namespace Scheduler

variable {α : Type} {s s' : Scheduler} {queue : QueueHandle} {g : Graph}

theorem attaching_steps (s : Scheduler) (task : TaskId) :
    s.graph.Steps s.bounds (s.attaching task) := .single (.attach task)

theorem slotOf_of_some {task : TaskId} {t : Nat} (ht : s.graph.lookup? task = some t) :
    s.slotOf task = t ∧ s.attaching task = s.graph := by
  have hattach := attach_of_some s.bounds.initial ht
  exact ⟨congrArg Prod.fst hattach, congrArg Prod.snd hattach⟩

/-- The answer to the effective priority of a tracked task. -/
theorem effectivePriority_eq {task : TaskId} {t : Nat} (disabled : s.interrupts.enabled = false)
    (ht : s.graph.lookup? task = some t) : ((effectivePriority task).run s).result =
      .ok (evaluate s.bounds.lowest (.task t) s.graph).1 := by
  obtain ⟨hslot, hgraph⟩ := slotOf_of_some ht
  change ((effectivePriority task).effect s).1 = _
  rw [effect_effectivePriority, guarded_of_disabled disabled, hslot, hgraph]

theorem queuePriority_eq {q : Nat} (disabled : s.interrupts.enabled = false)
    (hq : s.graph.resolve? queue = some q) : ((queuePriority queue).run s).result =
      .ok (evaluate s.bounds.lowest (.queue q) s.graph).1 := by
  change ((queuePriority queue).effect s).1 = _
  rw [effect_queuePriority, onQueue_of_some disabled hq]

@[simp] theorem queue_attaching (s : Scheduler) (task : TaskId) (q : Nat) :
    (s.attaching task).queue q = s.graph.queue q := Graph.queue_attach _ _ _ _

section Coherent

variable (c : s.graph.Coherent s.bounds)
include c

theorem tracked_slotOf (task : TaskId) : (s.attaching task).Tracked (s.slotOf task) :=
  (attach_tracked c.toConsistent task s.bounds.initial).1

theorem lookup?_attaching (task : TaskId) :
    (s.attaching task).lookup? task = some (s.slotOf task) :=
  (attach_tracked c.toConsistent task s.bounds.initial).2

theorem base_slotOf_mem (task : TaskId) :
    ((s.attaching task).task (s.slotOf task)).base ∈ s.bounds :=
  (c.steps s.valid (s.attaching_steps task)).bases _ (tracked_slotOf c task)

theorem tracked_waiters (q : Nat) : ∀ t ∈ (s.graph.queue q).waiters, s.graph.Tracked t :=
  fun _ ht => c.tracked_of_waiter ht

end Coherent

end Scheduler

open Scheduler

variable {s s' : Scheduler} {operation : Operation}

namespace Operation

variable {g h : Graph} {q : Nat} {queue : QueueHandle}

theorem parts_of_edits (operation : Operation) (hs : g.Edits s.bounds h) :
    operation.Parts s g h :=
  Relation.ReflTransGen.mono (fun _ _ ⟨_, _, he, hh⟩ => hh ▸ .edit he) _ _ hs

theorem parts_evaluateAll (operation : Operation) {slots : List Nat}
    (tracked : ∀ t ∈ slots, g.Tracked t) :
    operation.Parts s g (evaluateAll s.bounds.lowest (slots.map .task) g).2 := by
  induction slots generalizing g with
  | nil => exact .refl
  | cons t rest ih =>
    have ties := sameTies_evaluate s.bounds.lowest (.task t) g
    rw [List.map_cons, evaluateAll_cons]
    refine .head (.evaluateTask (tracked t List.mem_cons_self)) (ih fun t' ht' => ?_)
    exact (ties.tracked t').mpr (tracked t' (List.mem_cons_of_mem t ht'))

theorem parts_destroyQueue (hq : (g.queue q).live = true) (hw : (g.queue q).waiters = []) :
    (destroyWaitQueue queue).Parts s g (g.destroyQueue q) := by
  have hclear := g.clearHolder_edits s.bounds q
  have houtline := outline_clearHolder hq
  have hholder := (congrArg (Outline.holder · q) houtline :)
  have hwaiters := (congrArg (Outline.waiters · q) houtline :)
  simp only [outline, if_true] at hholder hwaiters
  rw [destroyQueue_eq]
  refine (parts_of_edits _ hclear).tail (.discard rfl ?_ hholder ?_)
  · rw [hclear.sameRoster.live]
    exact hq
  · rw [hwaiters, hw]

theorem parts_pick (operation : Operation) (c : s.graph.Coherent s.bounds) (q : Nat) :
    operation.Parts s s.graph (pick s.bounds.lowest q s.graph).2 :=
  parts_evaluateAll operation (tracked_waiters c q)

theorem tally_error (operation : Operation) (fault : Fault) :
    operation.tally (.error fault) = id := by
  cases operation <;> rfl

namespace Does

theorem of_parts {answer : Except Fault Reply} (quiet : operation.tally answer = id)
    (hm : operation.Parts s s.graph g) : operation.Does s (answer, s.withGraph g) :=
  ⟨rfl, rfl, g, hm, by rw [quiet]; rfl⟩

theorem nothing {answer : Except Fault Reply} (quiet : operation.tally answer = id) :
    operation.Does s (answer, s) := of_parts quiet .refl

theorem attaching {answer : Except Fault Reply} (task : TaskId)
    (quiet : operation.tally answer = id) (hm : operation.Parts s (s.attaching task) g) :
    operation.Does s (answer, s.withGraph g) :=
  of_parts quiet (.head (.attach task) hm)

theorem guarded {body : Except Fault Reply × Scheduler} (hbody : operation.Does s body) :
    operation.Does s (s.guarded body) := by
  unfold Scheduler.guarded
  split
  · exact nothing (operation.tally_error _)
  · exact hbody

theorem onQueue {body : Nat → Except Fault Reply × Scheduler}
    (hbody : ∀ slot, s.graph.resolve? queue = some slot → (s.graph.queue slot).live = true →
      operation.Does s (body slot)) : operation.Does s (s.onQueue queue body) := by
  refine guarded ?_
  cases hq : s.graph.resolve? queue with
  | none => exact nothing (operation.tally_error _)
  | some slot => exact hbody slot hq (resolve?_eq_some hq).2.1

end Does

theorem adjustPriority_does (c : s.graph.Coherent s.bounds) (task : TaskId) {delta : Priority}
    {room : Bounds → Priority → Bool} (quiet : ∀ answer, operation.tally answer = id)
    (hroom : ∀ current ∈ s.bounds, room s.bounds current = true → current + delta ∈ s.bounds) :
    operation.Does s ((Reply.flag <$> adjustPriority task delta room).effect s) := by
  rw [Call.effect_map, effect_adjustPriority]
  simp only
  split
  · rename_i h
    have hbase := hroom _ (base_slotOf_mem c task) h
    exact .attaching task (quiet _)
      (parts_of_edits operation (setBase_edits (tracked_slotOf c task) hbase))
  · exact .attaching task (quiet _) .refl

/-- Each operation is done in parts, whatever it answers. -/
theorem does (operation : Operation) (c : s.graph.Coherent s.bounds) :
    operation.Does s (operation.perform.effect s) := by
  cases operation with
  | newWaitQueue transfers =>
    rw [perform, Call.effect_map, effect_newWaitQueue]
    exact .of_parts rfl (.single (.create rfl))
  | destroyWaitQueue queue =>
    rw [perform, Call.effect_map, effect_destroyWaitQueue, map_onQueue]
    apply Does.onQueue
    intro slot _ hq
    split
    · rename_i hw
      exact .of_parts rfl (parts_destroyQueue hq (List.isEmpty_iff.mp hw))
    · exact .nothing rfl
  | waitForAccess queue task =>
    rw [perform, Call.effect_map, effect_waitForAccess, map_onQueue]
    apply Does.onQueue
    intro slot _ hq
    split
    · exact .attaching task rfl .refl
    · rename_i hw
      have hlive : ((s.attaching task).queue slot).live = true := by rwa [queue_attaching]
      exact .attaching task rfl
        (parts_of_edits _ (enqueue_edits hlive _ (tracked_slotOf c task) hw))
  | acquire queue task =>
    rw [perform, Call.effect_map, effect_acquire, map_onQueue]
    apply Does.onQueue
    intro slot _ hq
    have hlive : ((s.attaching task).queue slot).live = true := by rwa [queue_attaching]
    exact .attaching task rfl (parts_of_edits _ (setHolder_edits hlive _ (tracked_slotOf c task)))
  | nextThread queue =>
    rw [perform, Call.effect_map, effect_nextThread, map_onQueue]
    apply Does.onQueue
    intro slot _ hq
    have hpicked := parts_pick (.nextThread queue) c slot
    obtain ⟨ties, hmem, _⟩ := pick_sound s.bounds.lowest slot s.graph
    have ck := c.toConsistent.congr ties
    rcases hpick : pick s.bounds.lowest slot s.graph with ⟨_ | t, k⟩
    · exact .of_parts rfl (by simpa [hpick] using hpicked)
    · simp only [hpick] at hpicked ties hmem ck
      have hlive : (k.queue slot).live = true := by rw [ties.live, hq]
      have hw : t ∈ (k.queue slot).waiters := by
        rw [ties.waiters]
        exact hmem t rfl
      have hgranted := setHolder_edits hlive s.bounds (ck.tracked_of_waiter hw)
      simp only [setHolder_dequeue hlive hw]
      exact ⟨rfl, rfl, k.setHolder slot t, hpicked.trans (parts_of_edits _ hgranted), rfl⟩
  | peekNext queue =>
    rw [perform, Call.effect_map, effect_peekNext, map_onQueue]
    exact .onQueue fun slot _ _ => .of_parts rfl (parts_pick _ c slot)
  | holder queue =>
    rw [perform, Call.effect_map, effect_holder, map_onQueue]
    exact .onQueue fun _ _ _ => .nothing rfl
  | waiters queue =>
    rw [perform, Call.effect_map, effect_waiters, map_onQueue]
    exact .onQueue fun _ _ _ => .nothing rfl
  | queuePriority queue =>
    rw [perform, Call.effect_map, effect_queuePriority, map_onQueue]
    exact .onQueue fun slot hslot _ => .of_parts rfl (.single (.evaluateQueue rfl hslot))
  | priority task =>
    rw [perform, Call.effect_map, effect_priority, map_guarded]
    exact .guarded (.attaching task rfl .refl)
  | effectivePriority task =>
    rw [perform, Call.effect_map, effect_effectivePriority, map_guarded]
    exact .guarded (.attaching task rfl (.single (.evaluateTask (tracked_slotOf c task))))
  | setPriority task base =>
    rw [perform, Call.effect_map, effect_setPriority, map_guarded]
    apply Does.guarded
    split
    · rename_i hb
      exact .attaching task rfl (parts_of_edits _ (setBase_edits (tracked_slotOf c task) hb))
    · exact .nothing rfl
  | increasePriority task =>
    refine adjustPriority_does c task (fun _ => rfl) ?_
    intro current hc h
    exact increase_mem hc (of_decide_eq_true h)
  | decreasePriority task =>
    refine adjustPriority_does c task (fun _ => rfl) ?_
    intro current hc h
    exact decrease_mem hc (of_decide_eq_true h)
  | isTracked task => exact .nothing rfl
  | exitTask task =>
    rw [perform, Call.effect_map, effect_exitTask, map_guarded]
    apply Does.guarded
    cases ht : s.graph.lookup? task with
    | none => exact .nothing rfl
    | some t => exact .of_parts rfl (.single (.retire rfl ht))
  | trackedPriority task =>
    rw [perform, Call.effect_map, effect_trackedPriority, map_guarded]
    apply Does.guarded
    cases s.graph.lookup? task with
    | none => exact .nothing rfl
    | some t => exact .nothing rfl
  | bounds => exact .nothing rfl
  | statistics => exact .nothing rfl
  | resetStatistics => exact ⟨rfl, rfl, s.graph, .refl, rfl⟩
  | taskCount => exact .nothing rfl
  | queueCount => exact .nothing rfl
  | listTasks =>
    rw [perform, Call.effect_map, effect_listTasks, map_guarded]
    exact .guarded (.of_parts rfl (parts_evaluateAll _ fun _ => c.tracked_of_mem_values))
  | dumpQueue queue =>
    rw [perform, Call.effect_map, effect_dumpQueue, map_onQueue]
    apply Does.onQueue
    intro slot hslot hq
    have ties := sameTies_evaluate s.bounds.lowest (.queue slot) s.graph
    refine .of_parts rfl (.head (.evaluateQueue rfl hslot) (parts_evaluateAll _ fun t ht => ?_))
    rw [ties.waiters] at ht
    exact (ties.tracked t).mpr (tracked_waiters c slot t ht)

/-- A part of an operation is a change, or it evaluates a task or the queue that the operation asks
about. -/
theorem Part.move (c : s.graph.Coherent s.bounds) {kind : Graph → Node → Prop}
    (tasks : ∀ g t, kind g (.task t))
    (queues : ∀ queue q, operation.donation? = some queue → s.graph.resolve? queue = some q →
      kind s.graph (.queue q)) (hp : operation.Part s g h) :
    g.Change s.bounds h ∨
      ∃ n, g.InUse n ∧ kind g n ∧ h = (evaluate s.bounds.lowest n g).2 := by
  cases hp with
  | attach task => exact Or.inl (.attach task)
  | edit he => exact Or.inl (.edit he)
  | create _ => exact Or.inl (.create _)
  | discard _ hq hholder hwaiters => exact Or.inl (.discard hq hholder hwaiters)
  | retire _ ht => exact Or.inl (.retire ((c.lookup_iff _ _).mp ht).1)
  | @evaluateTask _ t ht => exact Or.inr ⟨.task t, ht, tasks _ _, rfl⟩
  | @evaluateQueue queue q hqueue hq =>
    exact Or.inr ⟨.queue q, (resolve?_eq_some hq).2.1, queues queue q hqueue hq, rfl⟩

end Operation

/-- Every operation takes the scheduler through a chain of steps, whatever it answers. It evaluates
tasks, and the queue whose donation it asks for. -/
theorem Operation.acts (operation : Operation) (c : s.graph.Coherent s.bounds)
    {kind : Graph → Node → Prop} (tasks : ∀ g t, kind g (.task t))
    (queues : ∀ queue q, operation.donation? = some queue → s.graph.resolve? queue = some q →
      kind s.graph (.queue q)) :
    s.Acts kind (operation.perform.effect s).2 := by
  obtain ⟨hbounds, hinterrupts, g, hparts, hgraph⟩ := operation.does c
  refine ⟨hbounds, hinterrupts, ?_⟩
  rw [hgraph]
  have moves : s.graph.Moves s.bounds kind g :=
    Relation.ReflTransGen.mono (fun _ _ => Part.move c tasks queues) _ _ hparts
  exact moves.tail (Or.inl (.count _))

theorem Operation.follows (operation : Operation) (c : s.graph.Coherent s.bounds) :
    s.Follows (operation.perform.effect s).2 := by
  have acts : s.Acts (fun _ _ => True) (operation.perform.effect s).2 :=
    operation.acts c (fun _ _ => trivial) fun _ _ _ _ => trivial
  exact ⟨acts.bounds, acts.interrupts, acts.moves.steps⟩

/-- What clean nodes have by what lies upstream of them outlasts an operation if it outlasts the
evaluations in it. -/
theorem Operation.cleanNodes (operation : Operation) (c : s.graph.Coherent s.bounds)
    (kind : Graph → Node → Prop) {P : Graph → Node → Prop}
    (reads : ReadsUpstream s.bounds.lowest P)
    (evaluates : ∀ g n, g.Coherent s.bounds → g.InUse n → kind g n → g.CleanNodes P →
      (evaluate s.bounds.lowest n g).2.CleanNodes P)
    (tasks : ∀ g t, kind g (.task t))
    (queues : ∀ queue q, operation.donation? = some queue → s.graph.resolve? queue = some q →
      kind s.graph (.queue q))
    (clean : s.graph.CleanNodes P) : (operation.perform.effect s).2.graph.CleanNodes P :=
  (operation.acts c tasks queues).moves.cleanNodes s.valid reads evaluates c clean

/-- What happens to a scheduler from the outside: an operation, or a change of the interrupt flag
between operations. -/
inductive Command
  | perform (operation : Operation)
  | setInterrupts (interrupts : InterruptFlag)
deriving DecidableEq, Repr

namespace Scheduler

def next (s : Scheduler) : Command → Scheduler
  | .perform operation => (operation.perform.run s).scheduler
  | .setInterrupts interrupts => { s with interrupts }

def after (s : Scheduler) (commands : List Command) : Scheduler := commands.foldl next s

/-- The schedulers at the points of a history. -/
inductive Reachable : Scheduler → Prop
  | fresh {bounds : Bounds} {interrupts : InterruptFlag} {s : Scheduler} {events : List Event} :
      build bounds interrupts = (.ok s, events) → Reachable s
  | next {s : Scheduler} (command : Command) : Reachable s → Reachable (s.next command)

theorem build_eq_ok {bounds : Bounds} {interrupts : InterruptFlag} {events : List Event}
    (h : build bounds interrupts = (.ok s, events)) :
    s.bounds = bounds ∧ s.interrupts = interrupts ∧ s.graph = {} := by
  unfold build at h
  split at h
  · cases h
    exact ⟨rfl, rfl, rfl⟩
  · cases h

theorem build_of_valid {bounds : Bounds} (valid : bounds.Valid) (interrupts : InterruptFlag) :
    build bounds interrupts = (.ok { bounds, valid, interrupts }, []) := dif_pos valid

theorem Reachable.after (h : s.Reachable) (commands : List Command) :
    (s.after commands).Reachable := by
  induction commands generalizing s with
  | nil => exact h
  | cons command rest ih => exact ih (h.next command)

theorem coherent_next (c : s.graph.Coherent s.bounds) (command : Command) :
    (s.next command).graph.Coherent (s.next command).bounds := by
  cases command with
  | perform operation =>
    have follows := operation.follows c
    change (operation.perform.effect s).2.graph.Coherent (operation.perform.effect s).2.bounds
    rw [follows.bounds]
    exact c.steps s.valid follows.steps
  | setInterrupts interrupts => exact c

theorem bounds_next (c : s.graph.Coherent s.bounds) (command : Command) :
    (s.next command).bounds = s.bounds := by
  cases command with
  | perform operation => exact (operation.follows c).bounds
  | setInterrupts interrupts => rfl

theorem Reachable.coherent (h : s.Reachable) : s.graph.Coherent s.bounds := by
  induction h with
  | fresh hbuild =>
    rw [(build_eq_ok hbuild).2.2]
    exact coherent_empty _
  | next command _ ih => exact coherent_next ih command

end Scheduler

end PriorityDonation
