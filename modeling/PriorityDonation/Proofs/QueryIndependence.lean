import Mathlib.Control.Monad.Basic
import PriorityDonation.Proofs.Ledger
import PriorityDonation.Proofs.Replicas

/-!
# Questions leave no trace

A question about priorities fills caches and clears flags, and later calls mark other nodes because
of it. But it changes no tie, and no call reads a cache unless it works out priorities itself. So
two runs that differ in such questions go through schedulers with the same ties, provided that the
grants are the same. They are where no task donates to itself: there the priorities are determined
by the ties, whatever was cached while there were circles.
-/

namespace PriorityDonation

namespace Graph

variable {g : Graph}

theorem circlesNowhere_attach (c : g.Consistent) (id : TaskId) (base : Priority) :
    (attach id base g).2.CirclesNowhere ↔ g.CirclesNowhere := by
  cases hid : g.lookup? id with
  | some t => rw [attach_of_some _ hid]
  | none =>
    have a := attach_attached c.toRostered base hid
    have hdonates : (attach id base g).2.DonatesTo = g.DonatesTo := by
      funext w t
      simp only [DonatesTo, a.awaiting c, queue_attach]
    simp only [CirclesNowhere, CircleFree, hdonates]

theorem circlesNowhere_of_ascending (h : ∀ w < g.tasks.size, ∀ q ∈ (g.task w).awaiting,
    ∀ t ∈ (g.queue q).holder.toList, w < t) : g.CirclesNowhere := by
  refine circleFree_of_lt (fun w t ⟨q, hq, _, hholder⟩ => ?_) _
  by_cases hw : w < g.tasks.size
  · exact h w hw q hq t (by simp [hholder])
  · rw [task_of_size_le (by omega)] at hq
    simp [default, Task.fresh] at hq

end Graph

namespace Scheduler

open PriorityDonation.Graph

/-- Schedulers that differ in their caches, flags and counters only. -/
structure Alike (s s' : Scheduler) : Prop where
  bounds : s'.bounds = s.bounds
  interrupts : s'.interrupts = s.interrupts
  ties : SameTies s.graph s'.graph

/-- The scheduler is alike after both calls, and the answer is the same under some condition. -/
structure Matches {α : Type} (condition : Prop) (effect effect' : Except Fault α × Scheduler) :
    Prop where
  answer : condition → effect'.1 = effect.1
  alike : effect.2.Alike effect'.2

variable {α β : Type} {s s' s'' : Scheduler} {queue : QueueHandle} {g h : Graph} {condition : Prop}

namespace Alike

theorem refl (s : Scheduler) : s.Alike s := ⟨rfl, rfl, .refl _⟩

theorem symm (a : s.Alike s') : s'.Alike s := ⟨a.bounds.symm, a.interrupts.symm, a.ties.symm⟩

theorem trans (a : s.Alike s') (b : s'.Alike s'') : s.Alike s'' :=
  ⟨b.bounds.trans a.bounds, b.interrupts.trans a.interrupts, a.ties.trans b.ties⟩

variable (a : s.Alike s')
include a

theorem withGraph (ties : SameTies g h) : (s.withGraph g).Alike (s'.withGraph h) :=
  ⟨a.bounds, a.interrupts, ties⟩

theorem slotOf (task : TaskId) : s'.slotOf task = s.slotOf task := by
  unfold Scheduler.slotOf
  rw [a.bounds]
  exact (a.ties.attach task _).1

theorem attaching (task : TaskId) : SameTies (s.attaching task) (s'.attaching task) := by
  unfold Scheduler.attaching
  rw [a.bounds]
  exact (a.ties.attach task _).2

theorem holderOf (q : Nat) : s'.holderOf q = s.holderOf q := by
  simp only [Scheduler.holderOf, a.ties.holder, a.ties.id]

theorem waitersOf (q : Nat) : s'.waitersOf q = s.waitersOf q := by
  simp only [Scheduler.waitersOf, a.ties.waiters, a.ties.id]

end Alike

namespace Matches

variable (a : s.Alike s')

theorem map (f : α → β) {effect effect' : Except Fault α × Scheduler}
    (hm : Matches condition effect effect') :
    Matches condition (effect.1.map f, effect.2) (effect'.1.map f, effect'.2) :=
  ⟨fun hc => congrArg (·.map f) (hm.answer hc), hm.alike⟩

include a

theorem same (answer : Except Fault α) : Matches condition (answer, s) (answer, s') :=
  ⟨fun _ => rfl, a⟩

theorem withGraph {answer answer' : Except Fault α} (hanswer : condition → answer' = answer)
    (ties : SameTies g h) :
    Matches condition (answer, s.withGraph g) (answer', s'.withGraph h) :=
  ⟨hanswer, a.withGraph ties⟩

theorem guarded {body body' : Except Fault α × Scheduler} (hbody : Matches condition body body') :
    Matches condition (s.guarded body) (s'.guarded body') := by
  unfold Scheduler.guarded
  rw [a.interrupts]
  split
  · exact .same a _
  · exact hbody

theorem onQueue {body body' : Nat → Except Fault α × Scheduler}
    (hbody : ∀ slot, s.graph.resolve? queue = some slot →
      Matches condition (body slot) (body' slot)) :
    Matches condition (s.onQueue queue body) (s'.onQueue queue body') := by
  refine Matches.guarded a ?_
  rw [a.ties.resolve?]
  cases hq : s.graph.resolve? queue with
  | none => exact .same a _
  | some slot => exact hbody slot hq

theorem adjustPriority (task : TaskId) (delta : Priority) (room : Bounds → Priority → Bool) :
    Matches condition ((Scheduler.adjustPriority task delta room).effect s)
      ((Scheduler.adjustPriority task delta room).effect s') := by
  have attached := a.attaching task
  rw [effect_adjustPriority, effect_adjustPriority]
  simp only [a.slotOf, attached.base, a.bounds]
  split
  · exact .withGraph a (fun _ => rfl) (attached.setBase _ _)
  · exact .withGraph a (fun _ => rfl) attached

variable (c : s.graph.Coherent s.bounds) (c' : s'.graph.Coherent s.bounds)
include c c'

theorem nextThread (hfree : s.graph.CirclesNowhere) :
    Matches condition ((Scheduler.nextThread queue).effect s)
      ((Scheduler.nextThread queue).effect s') := by
  rw [effect_nextThread, effect_nextThread, a.bounds]
  refine .onQueue a fun slot _ => ?_
  have ties := a.ties.congr (pick_sound s.bounds.lowest slot _).1
    (pick_sound s.bounds.lowest slot _).1
  have hpicked := a.ties.pick_eq c c' hfree slot
  generalize pick s.bounds.lowest slot s.graph = first at ties hpicked ⊢
  generalize pick s.bounds.lowest slot s'.graph = second at ties hpicked ⊢
  obtain ⟨picked, g⟩ := first
  obtain ⟨picked', g'⟩ := second
  obtain rfl : picked' = picked := hpicked
  cases picked' with
  | none => exact .withGraph a (fun _ => rfl) ties
  | some t =>
    have granted := (ties.dequeue slot t).setHolder slot t
    refine .withGraph a (fun _ => ?_) (granted.count _)
    rw [granted.id]

theorem effectivePriority (hfree : condition → s.graph.CirclesNowhere) (task : TaskId) :
    Matches condition ((Scheduler.effectivePriority task).effect s)
      ((Scheduler.effectivePriority task).effect s') := by
  have attached := a.attaching task
  rw [effect_effectivePriority, effect_effectivePriority, a.slotOf, a.bounds]
  refine .guarded a (.withGraph a (fun hc => ?_)
    (attached.congr (sameTies_evaluate _ _ _) (sameTies_evaluate _ _ _)))
  have hattached := (circlesNowhere_attach c.toConsistent task s.bounds.initial).mpr (hfree hc)
  have cattached : (s'.attaching task).Coherent s.bounds := by
    rw [Scheduler.attaching, a.bounds]
    exact c'.attach s.valid task
  have hinUse : (s.attaching task).InUse (.task (s.slotOf task)) := tracked_slotOf c task
  rw [attached.evaluate_eq (c.attach s.valid task) cattached hattached hinUse]

end Matches

end Scheduler

open Scheduler PriorityDonation.Graph

variable {s s' : Scheduler}

/-- Alike schedulers remain so, if no task donates to itself when a queue is granted, and they give
the same answers where no task donates to itself. -/
theorem Operation.matches (operation : Operation) (a : s.Alike s')
    (c : s.graph.Coherent s.bounds) (c' : s'.graph.Coherent s'.bounds)
    (hgrant : ∀ queue, operation = .nextThread queue → s.graph.CirclesNowhere) :
    Matches (operation ≠ .statistics ∧ s.graph.CirclesNowhere) (operation.perform.effect s)
      (operation.perform.effect s') := by
  rw [a.bounds] at c'
  cases operation with
  | newWaitQueue transfers =>
    obtain ⟨hqueue, ties⟩ := a.ties.createQueue transfers s.bounds.lowest
    rw [perform, Call.effect_map, Call.effect_map, effect_newWaitQueue, effect_newWaitQueue,
      a.bounds, hqueue]
    exact .map _ (.withGraph a (fun _ => rfl) ties)
  | destroyWaitQueue queue =>
    rw [perform, Call.effect_map, Call.effect_map, effect_destroyWaitQueue,
      effect_destroyWaitQueue]
    refine .map _ (.onQueue a fun slot _ => ?_)
    rw [a.ties.waiters]
    split
    · exact .withGraph a (fun _ => rfl) (a.ties.destroyQueue slot)
    · exact .same a _
  | waitForAccess queue task =>
    have attached := a.attaching task
    rw [perform, Call.effect_map, Call.effect_map, effect_waitForAccess, effect_waitForAccess]
    refine .map _ (.onQueue a fun slot _ => ?_)
    rw [a.slotOf, attached.waiters]
    split
    · exact .withGraph a (fun _ => rfl) attached
    · exact .withGraph a (fun _ => rfl) (attached.enqueue slot _)
  | acquire queue task =>
    rw [perform, Call.effect_map, Call.effect_map, effect_acquire, effect_acquire, a.slotOf]
    refine .map _ (.onQueue a fun slot _ => ?_)
    exact .withGraph a (fun _ => rfl) ((a.attaching task).setHolder slot _)
  | nextThread queue =>
    rw [perform, Call.effect_map, Call.effect_map]
    exact .map _ (.nextThread a c c' (hgrant queue rfl))
  | peekNext queue =>
    rw [perform, Call.effect_map, Call.effect_map, effect_peekNext, effect_peekNext, a.bounds]
    refine .map _ (.onQueue a fun slot _ => ?_)
    have ties := a.ties.congr (pick_sound s.bounds.lowest slot _).1
      (pick_sound s.bounds.lowest slot _).1
    refine .withGraph a (fun hc => ?_) ties
    simp only [a.ties.pick_eq c c' hc.2 slot, ties.id]
  | holder queue =>
    rw [perform, Call.effect_map, Call.effect_map, effect_holder, effect_holder]
    refine .map _ (.onQueue a fun slot _ => ?_)
    rw [a.holderOf]
    exact .same a _
  | waiters queue =>
    rw [perform, Call.effect_map, Call.effect_map, effect_waiters, effect_waiters]
    refine .map _ (.onQueue a fun slot _ => ?_)
    rw [a.waitersOf]
    exact .same a _
  | queuePriority queue =>
    rw [perform, Call.effect_map, Call.effect_map, effect_queuePriority, effect_queuePriority,
      a.bounds]
    refine .map _ (.onQueue a fun slot hq => ?_)
    have hlive : s.graph.InUse (.queue slot) := (resolve?_eq_some hq).2.1
    have ties := a.ties.congr (sameTies_evaluate s.bounds.lowest (.queue slot) _)
      (sameTies_evaluate s.bounds.lowest (.queue slot) _)
    refine .withGraph a (fun hc => ?_) ties
    rw [a.ties.evaluate_eq c c' hc.2 hlive]
  | priority task =>
    have attached := a.attaching task
    rw [perform, Call.effect_map, Call.effect_map, effect_priority, effect_priority, a.slotOf,
      attached.base]
    exact .map _ (.guarded a (.withGraph a (fun _ => rfl) attached))
  | effectivePriority task =>
    rw [perform, Call.effect_map, Call.effect_map]
    exact .map _ (.effectivePriority a c c' (·.2) task)
  | setPriority task base =>
    rw [perform, Call.effect_map, Call.effect_map, effect_setPriority, effect_setPriority,
      a.slotOf, a.bounds]
    refine .map _ (.guarded a ?_)
    split
    · exact .withGraph a (fun _ => rfl) ((a.attaching task).setBase _ base)
    · exact .same a _
  | increasePriority task =>
    rw [perform, Call.effect_map, Call.effect_map]
    exact .map _ (.adjustPriority a task 1 fun bounds current => current < bounds.highest)
  | decreasePriority task =>
    rw [perform, Call.effect_map, Call.effect_map]
    exact .map _ (.adjustPriority a task (-1) fun bounds current => bounds.lowest < current)
  | isTracked task =>
    refine ⟨fun _ => ?_, a⟩
    change Except.ok (Reply.flag (s'.graph.lookup? task).isSome) = _
    rw [a.ties.lookup?]
    rfl
  | exitTask task =>
    rw [perform, Call.effect_map, Call.effect_map, effect_exitTask, effect_exitTask,
      a.ties.lookup?]
    refine .map _ (.guarded a ?_)
    cases s.graph.lookup? task with
    | none => exact .same a _
    | some t => exact .withGraph a (fun _ => rfl) (a.ties.retire t)
  | trackedPriority task =>
    rw [perform, Call.effect_map, Call.effect_map, effect_trackedPriority, effect_trackedPriority,
      a.ties.lookup?]
    refine .map _ (.guarded a ?_)
    cases s.graph.lookup? task with
    | none => exact .same a _
    | some t =>
      simp only [a.ties.base]
      exact .same a _
  | bounds =>
    refine ⟨fun _ => ?_, a⟩
    change Except.ok (Reply.bounds s'.bounds) = _
    rw [a.bounds]
    rfl
  | statistics => exact ⟨fun hne => absurd rfl hne.1, a⟩
  | resetStatistics => exact .withGraph a (fun _ => rfl) (a.ties.count _)
  | taskCount =>
    refine ⟨fun _ => ?_, a⟩
    change Except.ok (Reply.count s'.graph.index.size) = _
    rw [a.ties.index]
    rfl
  | queueCount =>
    refine ⟨fun _ => ?_, a⟩
    change Except.ok (Reply.count (s'.graph.queues.size - s'.graph.queues.free.length)) = _
    rw [a.ties.queueSlots, a.ties.freeQueues]
    rfl
  | listTasks =>
    rw [perform, Call.effect_map, Call.effect_map, effect_listTasks, effect_listTasks, a.bounds,
      a.ties.index]
    exact .map _ (.guarded a (.withGraph a (fun _ => rfl)
      (a.ties.congr (sameTies_evaluateAll _ _ _) (sameTies_evaluateAll _ _ _))))
  | dumpQueue queue =>
    rw [perform, Call.effect_map, Call.effect_map, effect_dumpQueue, effect_dumpQueue, a.bounds]
    refine .map _ (.onQueue a fun slot _ => ?_)
    have ties := a.ties.congr (sameTies_evaluate s.bounds.lowest (.queue slot) _)
      (sameTies_evaluate s.bounds.lowest (.queue slot) _)
    simp only [ties.waiters]
    exact .withGraph a (fun _ => rfl)
      (ties.congr (sameTies_evaluateAll _ _ _) (sameTies_evaluateAll _ _ _))

/-- Whether a command grants a queue to a waiter. -/
def Command.grants : Command → Bool
  | .perform (.nextThread _) => true
  | _ => false

namespace Scheduler

/-- Whether a command works out priorities and does nothing else. The effective priority of a task
not seen before is no such command: the task is tracked from then on. -/
def fills (s : Scheduler) : Command → Bool
  | .perform (.effectivePriority task) => (s.graph.lookup? task).isSome
  | .perform operation => operation.fills
  | .setInterrupts _ => false

/-- The commands of a run without those that work out priorities and do nothing else. -/
def withoutFills (s : Scheduler) : List Command → List Command
  | [] => []
  | command :: rest =>
      if s.fills command then (s.next command).withoutFills rest
      else command :: (s.next command).withoutFills rest

/-- No task donates to itself at any time when a queue is granted in a run. -/
def GrantsWithoutCircles (s : Scheduler) : List Command → Prop
  | [] => True
  | command :: rest =>
      (command.grants = true → s.graph.CirclesNowhere) ∧
        (s.next command).GrantsWithoutCircles rest

/-- The grants of a run, each with its answer. -/
def granted (s : Scheduler) (commands : List Command) : List (Command × Except Fault Reply) :=
  (s.transcript commands).filter (·.1.grants)

theorem Alike.next (a : s.Alike s') (c : s.graph.Coherent s.bounds)
    (c' : s'.graph.Coherent s'.bounds) {command : Command}
    (hgrant : command.grants = true → s.graph.CirclesNowhere) :
    (s.next command).Alike (s'.next command) := by
  cases command with
  | perform operation =>
    refine (operation.matches a c c' ?_).alike
    rintro queue rfl
    exact hgrant rfl
  | setInterrupts interrupts => exact ⟨a.bounds, rfl, a.ties⟩

theorem Alike.answer (a : s.Alike s') (c : s.graph.Coherent s.bounds)
    (c' : s'.graph.Coherent s'.bounds) (hfree : s.graph.CirclesNowhere) {command : Command}
    (hcommand : command ≠ .perform .statistics) : s'.answer command = s.answer command := by
  cases command with
  | perform operation =>
    refine (operation.matches a c c' fun _ _ => hfree).answer ⟨?_, hfree⟩
    rintro rfl
    exact hcommand rfl
  | setInterrupts interrupts => rfl

theorem alike_of_fills {command : Command} (h : s.fills command = true) :
    s.Alike (s.next command) := by
  have of_ties {g : Graph} (ties : SameTies s.graph g) : s.Alike (s.withGraph g) :=
    (Alike.refl s).withGraph ties
  cases command with
  | setInterrupts interrupts => cases h
  | perform operation =>
    change s.Alike (operation.perform.effect s).2
    cases operation with
    | peekNext queue =>
      rw [Operation.perform, Call.effect_map, effect_peekNext]
      exact onQueue_induction (.refl s) fun slot _ => of_ties (pick_sound _ slot _).1
    | queuePriority queue =>
      rw [Operation.perform, Call.effect_map, effect_queuePriority]
      exact onQueue_induction (.refl s) fun slot _ => of_ties (sameTies_evaluate _ _ _)
    | effectivePriority task =>
      obtain ⟨t, ht⟩ := Option.isSome_iff_exists.mp h
      rw [Operation.perform, Call.effect_map, effect_effectivePriority, (slotOf_of_some ht).2]
      exact guarded_induction (.refl s) (of_ties (sameTies_evaluate _ _ _))
    | listTasks =>
      rw [Operation.perform, Call.effect_map, effect_listTasks]
      exact guarded_induction (.refl s) (of_ties (sameTies_evaluateAll _ _ _))
    | dumpQueue queue =>
      rw [Operation.perform, Call.effect_map, effect_dumpQueue]
      refine onQueue_induction (.refl s) fun slot _ => of_ties ?_
      exact (sameTies_evaluate _ _ _).trans (sameTies_evaluateAll _ _ _)
    | _ => cases h

theorem grants_of_fills {command : Command} (h : s.fills command = true) :
    command.grants = false := by
  cases command with
  | setInterrupts interrupts => rfl
  | perform operation => cases operation <;> first | rfl | cases h

theorem granted_cons (command : Command) (rest : List Command) : s.granted (command :: rest) =
    if command.grants then (command, s.answer command) :: (s.next command).granted rest
    else (s.next command).granted rest := by
  rw [granted, transcript, List.filter_cons]
  rfl

/-- Without the questions a run makes the same grants, and ends in a scheduler that is alike. -/
theorem withoutFills_alike (commands : List Command) (a : s.Alike s')
    (c : s.graph.Coherent s.bounds) (c' : s'.graph.Coherent s'.bounds) :
    (s'.GrantsWithoutCircles (s.withoutFills commands) ↔ s.GrantsWithoutCircles commands) ∧
      (s.GrantsWithoutCircles commands →
        (s.after commands).Alike (s'.after (s.withoutFills commands)) ∧
          s'.granted (s.withoutFills commands) = s.granted commands) := by
  induction commands generalizing s s' with
  | nil => exact ⟨.rfl, fun _ => ⟨a, rfl⟩⟩
  | cons command rest ih =>
    have cnext := coherent_next c command
    cases hfills : s.fills command with
    | true =>
      -- the run without questions does not move
      obtain ⟨hiff, hsame⟩ := ih ((alike_of_fills hfills).symm.trans a) cnext c'
      have hkind := grants_of_fills hfills
      rw [withoutFills, if_pos hfills, granted_cons, hkind]
      refine ⟨hiff.trans ⟨fun hrest => ⟨fun h => ?_, hrest⟩, fun hall => hall.2⟩, ?_⟩
      · cases hkind.symm.trans h
      · intro hall
        exact hsame hall.2
    | false =>
      rw [withoutFills, hfills]
      have hfirst : (command.grants = true → s'.graph.CirclesNowhere) ↔
          (command.grants = true → s.graph.CirclesNowhere) :=
        imp_congr_right fun _ => a.ties.circlesNowhere
      by_cases hfree : command.grants = true → s.graph.CirclesNowhere
      · obtain ⟨hiff, hsame⟩ := ih (a.next c c' hfree) cnext (coherent_next c' command)
        refine ⟨and_congr hfirst hiff, fun hall => ?_⟩
        obtain ⟨halike, hgranted⟩ := hsame hall.2
        refine ⟨halike, ?_⟩
        simp only [Bool.false_eq_true, if_false, granted_cons, hgranted]
        split
        · rename_i hkind
          rw [a.answer c c' (hfree hkind) (by rintro rfl; cases hkind)]
        · rfl
      · refine ⟨iff_of_false (fun h => hfree (hfirst.mp h.1)) fun h => hfree h.1, fun h => ?_⟩
        exact absurd h.1 hfree

theorem grantsWithoutCircles_append (before later : List Command) :
    s.GrantsWithoutCircles (before ++ later) ↔
      s.GrantsWithoutCircles before ∧ (s.after before).GrantsWithoutCircles later := by
  induction before generalizing s with
  | nil => exact ⟨fun h => ⟨trivial, h⟩, fun h => h.2⟩
  | cons command rest ih =>
    rw [List.cons_append, GrantsWithoutCircles, GrantsWithoutCircles, ih, and_assoc]
    rfl

theorem grantsWithoutCircles_of_no_grants {commands : List Command}
    (h : ∀ command ∈ commands, command.grants = false) : s.GrantsWithoutCircles commands := by
  induction commands generalizing s with
  | nil => trivial
  | cons command rest ih =>
    obtain ⟨hfirst, hrest⟩ := List.forall_mem_cons.mp h
    refine ⟨fun hkind => ?_, ih hrest⟩
    cases hfirst.symm.trans hkind

/-- Two runs that differ only in which priorities are asked for, and when, make the same grants if
no task donates to itself at the time of a grant. At any two points in which they have done the same
otherwise, they answer alike where no task donates to itself. -/
theorem queries_leave_no_trace (reachable : s.Reachable) {first second : List Command}
    (same : s.withoutFills second = s.withoutFills first) (hgrants : s.GrantsWithoutCircles first) :
    s.granted second = s.granted first ∧
      ∀ before before' : List Command, before <+: first → before' <+: second →
        s.withoutFills before' = s.withoutFills before →
        ((s.after before').graph.CirclesNowhere ↔ (s.after before).graph.CirclesNowhere) ∧
          ((s.after before).graph.CirclesNowhere → ∀ command ≠ .perform .statistics,
            (s.after before').answer command = (s.after before).answer command) := by
  have c := reachable.coherent
  have runs {commands commands' : List Command}
      (hsame : s.withoutFills commands' = s.withoutFills commands)
      (h : s.GrantsWithoutCircles commands) :
      (s.after commands).Alike (s.after commands') ∧ s.granted commands' = s.granted commands := by
    obtain ⟨hiff, halike⟩ := withoutFills_alike commands (.refl s) c c
    obtain ⟨hiff', halike'⟩ := withoutFills_alike commands' (.refl s) c c
    obtain ⟨hstate, hgranted⟩ := halike h
    obtain ⟨hstate', hgranted'⟩ := halike' (hiff'.mp (hsame ▸ hiff.mpr h))
    rw [hsame] at hstate' hgranted'
    exact ⟨hstate.trans hstate'.symm, hgranted'.symm.trans hgranted⟩
  refine ⟨(runs same hgrants).2, fun before before' hbefore hbefore' hsame => ?_⟩
  obtain ⟨later, rfl⟩ := hbefore
  have a := (runs hsame ((grantsWithoutCircles_append before later).mp hgrants).1).1
  refine ⟨a.ties.circlesNowhere, fun hfree command hcommand => ?_⟩
  exact a.answer (reachable.after before).coherent (reachable.after before').coherent hfree hcommand

/-- Two tasks wait for each other until a third one takes over what the second one waits for, as
does a fourth one. Questions may be asked inside the circle and after it. -/
def entangledRun (inside outside : List Operation) : List Command :=
  let first : QueueHandle := ⟨0, 0⟩
  let second : QueueHandle := ⟨1, 0⟩
  List.map .perform <|
    [.newWaitQueue true, .newWaitQueue true, .setPriority ⟨4⟩ 5, .setPriority ⟨1⟩ 4,
      .acquire first ⟨1⟩, .acquire second ⟨2⟩, .waitForAccess second ⟨1⟩, .waitForAccess first ⟨4⟩,
      .waitForAccess first ⟨2⟩] ++ inside ++ [.acquire first ⟨3⟩, .setPriority ⟨1⟩ 6] ++ outside

theorem queries_leave_no_trace_entangledRun :
    let start : Scheduler := ⟨.standard, Bounds.standard_valid, ⟨false⟩, {}⟩
    let grant : Command := .perform (.nextThread ⟨0, 0⟩)
    let first := entangledRun [.effectivePriority ⟨2⟩, .effectivePriority ⟨1⟩] [] ++ [grant]
    let second := entangledRun [.effectivePriority ⟨1⟩, .effectivePriority ⟨2⟩, .listTasks]
      [.peekNext ⟨0, 0⟩, .dumpQueue ⟨1, 0⟩] ++ [grant]
    start.withoutFills second = start.withoutFills first ∧
      start.granted first = [(grant, .ok (.task (some ⟨2⟩)))] ∧
      start.granted second = [(grant, .ok (.task (some ⟨2⟩)))] ∧
      (start.after first).answer (.perform (.effectivePriority ⟨2⟩)) = .ok (.priority 6) ∧
      (start.after second).answer (.perform (.effectivePriority ⟨2⟩)) = .ok (.priority 6) := by
  intro start grant first second
  have reachable : start.Reachable := .fresh (build_of_valid Bounds.standard_valid ⟨false⟩)
  have same : start.withoutFills second = start.withoutFills first := by decide +kernel
  have hgrants : start.GrantsWithoutCircles first := by
    refine (grantsWithoutCircles_append _ _).mpr
      ⟨grantsWithoutCircles_of_no_grants (by decide +kernel), fun _ => ?_, trivial⟩
    exact circlesNowhere_of_ascending (by decide +kernel)
  have hfree : (start.after first).graph.CirclesNowhere :=
    circlesNowhere_of_ascending (by decide +kernel)
  obtain ⟨hgranted, hanswers⟩ := queries_leave_no_trace reachable same hgrants
  have hanswer := (hanswers first second List.prefix_rfl List.prefix_rfl same).2 hfree
    (.perform (.effectivePriority ⟨2⟩)) (by decide)
  have hfirst : start.granted first = [(grant, .ok (.task (some ⟨2⟩)))] := by decide +kernel
  have hpriority : (start.after first).answer (.perform (.effectivePriority ⟨2⟩)) =
      .ok (.priority 6) := by decide +kernel
  exact ⟨same, hfirst, hgranted.trans hfirst, hpriority, hanswer.trans hpriority⟩

end Scheduler

end PriorityDonation
