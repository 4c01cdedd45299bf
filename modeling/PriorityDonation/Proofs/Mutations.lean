import PriorityDonation.Proofs.DirtyFlags
import PriorityDonation.Proofs.Locality

/-!
# Mutations act downstream only

A mutation starts from a few tasks: the task whose base priority it changes, the holders that a
queue loses and gets, the task that exits. Whatever is not downstream of these tasks has the same
donors afterwards, near and far, with the same flags and caches. So the question for the effective
priority of such a task takes the same walk before and after, also where this walk runs around a
circle and its answer depends on the order.
-/

namespace PriorityDonation

open PriorityDonation.Graph Scheduler

namespace Operation

/-- Whether an operation changes ties or base priorities and evaluates nothing. -/
def mutates : Operation → Bool
  | newWaitQueue _ | destroyWaitQueue _ | waitForAccess _ _ | acquire _ _ => true
  | setPriority _ _ | increasePriority _ | decreasePriority _ | exitTask _ => true
  | _ => false

/-- The tasks that an operation starts from when it takes one scheduler to another: the task whose
base priority changes, the old and the new holder of the queue, or the task that exits. A task that
begins to wait changes what the holder of the queue is given, if the queue transfers. -/
def Touches (operation : Operation) (s s' : Scheduler) (w : Nat) : Prop :=
  match operation with
  | setPriority task _ | increasePriority task | decreasePriority task =>
      s.graph.lookup? task = some w ∧ (s'.graph.task w).base ≠ (s.graph.task w).base
  | acquire queue _ | destroyWaitQueue queue => ∃ q, s.graph.resolve? queue = some q ∧
      ((s.graph.queue q).holder = some w ∨ (s'.graph.queue q).holder = some w)
  | waitForAccess queue task => ∃ q, s.graph.resolve? queue = some q ∧
      (s.graph.queue q).holder = some w ∧
      ((s.graph.queue q).transfers = true ∨ s.graph.lookup? task = some w)
  | exitTask task => s.graph.lookup? task = some w
  | _ => False

end Operation

namespace Scheduler

variable {s : Scheduler} {operation : Operation} {queue : QueueHandle} {task x : TaskId}
  {q t w : Nat}

section Spared

variable (c : s.graph.Coherent s.bounds) (ht : s.graph.Tracked t)
include c ht

theorem attaching_leavesAlone (task : TaskId) :
    LeavesAlone s.bounds.lowest t s.graph (s.attaching task) :=
  attach_leavesAlone c _ task _ ht

/-- A task that is above another one once it is attached was there before. -/
theorem lookup?_of_above_slotOf
    (hup : (s.attaching task).Upstream (.task (s.slotOf task)) (.task t)) :
    s.graph.lookup? task = some (s.slotOf task) ∧ s.graph.Above (s.slotOf task) t := by
  rw [(attaching_leavesAlone c ht task).upstream] at hup
  have habove := above_of_upstream c.toConsistent hup
  cases hid : s.graph.lookup? task with
  | some w => exact ⟨congrArg some (slotOf_of_some hid).1.symm, habove⟩
  | none =>
    have a := attach_attached c.toRostered s.bounds.initial hid
    exact absurd (tracked_of_above c.toConsistent ht habove) a.not_tracked

theorem setBase_leavesAlone {base : Priority} (hb : base ∈ s.bounds)
    (spared : ∀ w, s.graph.lookup? task = some w →
      (((s.attaching task).setBase (s.slotOf task) base).task w).base ≠ (s.graph.task w).base →
      ¬ s.graph.Above w t) :
    LeavesAlone s.bounds.lowest t s.graph ((s.attaching task).setBase (s.slotOf task) base) := by
  have hattach := attaching_leavesAlone c ht task
  have tracked := tracked_slotOf c task
  refine hattach.trans ((setBase_editsAt tracked hb).leavesAlone
    (c.steps s.valid (s.attaching_steps task)) _ ?_)
  rintro v ⟨rfl, hbase⟩ - hup
  obtain ⟨hid, habove⟩ := lookup?_of_above_slotOf c ht hup
  refine spared _ hid ?_ habove
  have houtline := (congrArg (Outline.base · (s.slotOf task)) (outline_setBase tracked base) :)
  simp only [outline, if_true] at houtline
  rw [houtline]
  rwa [(slotOf_of_some hid).2] at hbase

theorem adjustPriority_leavesAlone {delta : Priority} {room : Bounds → Priority → Bool}
    (hroom : ∀ current ∈ s.bounds, room s.bounds current = true → current + delta ∈ s.bounds)
    (spared : ∀ w, s.graph.lookup? task = some w →
      (((adjustPriority task delta room).effect s).2.graph.task w).base ≠ (s.graph.task w).base →
      ¬ s.graph.Above w t) :
    LeavesAlone s.bounds.lowest t s.graph ((adjustPriority task delta room).effect s).2.graph := by
  rw [effect_adjustPriority] at spared ⊢
  dsimp only at spared ⊢
  split
  · rename_i h
    rw [if_pos h] at spared
    exact setBase_leavesAlone c ht (hroom _ (base_slotOf_mem c task) h) spared
  · exact attaching_leavesAlone c ht task

theorem enqueue_leavesAlone (hq : (s.graph.queue q).live = true)
    (hw : s.slotOf task ∉ ((s.attaching task).queue q).waiters)
    (spared : ∀ w, (s.graph.queue q).holder = some w →
      (s.graph.queue q).transfers = true ∨ s.graph.lookup? task = some w → ¬ s.graph.Above w t) :
    LeavesAlone s.bounds.lowest t s.graph ((s.attaching task).enqueue q (s.slotOf task)) := by
  have hattach := attaching_leavesAlone c ht task
  have hlive : ((s.attaching task).queue q).live = true := by rwa [queue_attaching]
  refine hattach.trans ((enqueue_editsAt hlive s.bounds (tracked_slotOf c task) hw).leavesAlone
    (c.steps s.valid (s.attaching_steps task)) _ ?_)
  rintro v (rfl | ⟨rfl, hholder⟩) hc hup
  · simp only [conducts, queue_attaching] at hc
    rw [hattach.upstream] at hup
    exact not_upstream_queue c.toConsistent (fun w hw => spared w hw (Or.inl hc)) hup
  · obtain ⟨hid, habove⟩ := lookup?_of_above_slotOf c ht hup
    rw [queue_attaching] at hholder
    exact spared _ hholder (Or.inr hid) habove

theorem setHolder_leavesAlone (hq : (s.graph.queue q).live = true)
    (spared : ∀ w, (s.graph.queue q).holder = some w ∨ w = s.slotOf task → ¬ s.graph.Above w t) :
    LeavesAlone s.bounds.lowest t s.graph ((s.attaching task).setHolder q (s.slotOf task)) := by
  have hattach := attaching_leavesAlone c ht task
  have hlive : ((s.attaching task).queue q).live = true := by rwa [queue_attaching]
  refine hattach.trans ((setHolder_editsAt hlive s.bounds (tracked_slotOf c task)).leavesAlone
    (c.steps s.valid (s.attaching_steps task)) _ ?_)
  intro v hv _ hup
  rw [hattach.upstream] at hup
  rcases hv with rfl | rfl | hv
  · exact not_upstream_queue c.toConsistent (fun w hw => spared w (Or.inl hw)) hup
  · exact spared _ (Or.inr rfl) (above_of_upstream c.toConsistent hup)
  · obtain ⟨w, hw, rfl⟩ := List.mem_map.mp hv
    rw [queue_attaching] at hw
    exact spared w (Or.inl (Option.mem_toList.mp hw)) (above_of_upstream c.toConsistent hup)

omit ht in
theorem destroyQueue_leavesAlone (hq : (s.graph.queue q).live = true)
    (hwaiters : (s.graph.queue q).waiters = [])
    (spared : ∀ w, (s.graph.queue q).holder = some w → ¬ s.graph.Above w t) :
    LeavesAlone s.bounds.lowest t s.graph (s.graph.destroyQueue q) := by
  have hclear := s.graph.clearHolder_editsAt s.bounds q
  have houtline := outline_clearHolder hq
  have hholder := (congrArg (Outline.holder · q) houtline :)
  have hwait := (congrArg (Outline.waiters · q) houtline :)
  simp only [outline, if_true, hwaiters] at hholder hwait
  have a : LeavesAlone s.bounds.lowest t s.graph (s.graph.clearHolder q) := by
    refine hclear.leavesAlone c _ ?_
    intro v hv _ hup
    obtain ⟨w, hw, rfl⟩ := List.mem_map.mp hv
    exact spared w (Option.mem_toList.mp hw) (above_of_upstream c.toConsistent hup)
  have roster := hclear.edits.sameRoster
  have cleared := c.steps s.valid hclear.edits.steps
  rw [destroyQueue_eq]
  exact a.trans (discard_leavesAlone cleared _ (by rw [roster.live, hq]) hholder hwait)

/-- What an operation does to the part of the graph upstream of a task that none of the tasks it
starts from is above: nothing. -/
theorem mutation_leavesAlone (mutates : operation.mutates = true)
    (spared : ∀ w, operation.Touches s (operation.perform.effect s).2 w → ¬ s.graph.Above w t) :
    LeavesAlone s.bounds.lowest t s.graph (operation.perform.effect s).2.graph := by
  have idle : LeavesAlone s.bounds.lowest t s.graph s.graph := .refl _ t _
  -- what a guard refuses leaves the scheduler as it is
  let Spares (s' : Scheduler) : Prop := (∀ w, operation.Touches s s' w → ¬ s.graph.Above w t) →
    LeavesAlone s.bounds.lowest t s.graph s'.graph
  suffices Spares (operation.perform.effect s).2 from this spared
  have refused : Spares s := fun _ => idle
  cases operation with
  | newWaitQueue transfers =>
    rw [Operation.perform, Call.effect_map, effect_newWaitQueue]
    exact fun _ => createQueue_leavesAlone c _ transfers
  | destroyWaitQueue queue =>
    rw [Operation.perform, Call.effect_map, effect_destroyWaitQueue]
    refine onQueue_induction refused fun q hq => ?_
    have hlive := (resolve?_eq_some hq).2.1
    split
    · rename_i hw
      intro spared
      refine destroyQueue_leavesAlone c hlive (List.isEmpty_iff.mp hw) fun w hholder => ?_
      exact spared w ⟨q, hq, Or.inl hholder⟩
    · exact refused
  | waitForAccess queue task =>
    rw [Operation.perform, Call.effect_map, effect_waitForAccess]
    refine onQueue_induction refused fun q hq => ?_
    have hlive := (resolve?_eq_some hq).2.1
    split
    · exact fun _ => attaching_leavesAlone c ht task
    · rename_i hw
      intro spared
      refine enqueue_leavesAlone c ht hlive hw fun w hholder htask => ?_
      exact spared w ⟨q, hq, hholder, htask⟩
  | acquire queue task =>
    rw [Operation.perform, Call.effect_map, effect_acquire]
    refine onQueue_induction refused fun q hq spared => ?_
    have hlive := (resolve?_eq_some hq).2.1
    have hlive' : ((s.attaching task).queue q).live = true := by rwa [queue_attaching]
    have houtline := outline_setHolder hlive' (tracked_slotOf c task)
    have hholder := (congrArg (Outline.holder · q) houtline :)
    simp only [outline, if_true] at hholder
    refine setHolder_leavesAlone c ht hlive ?_
    rintro w (hw | rfl)
    · exact spared w ⟨q, hq, Or.inl hw⟩
    · exact spared _ ⟨q, hq, Or.inr hholder⟩
  | setPriority task base =>
    rw [Operation.perform, Call.effect_map, effect_setPriority]
    refine guarded_induction refused ?_
    split
    · rename_i hb
      exact fun spared => setBase_leavesAlone c ht hb fun w hw hbase => spared w ⟨hw, hbase⟩
    · exact refused
  | increasePriority task =>
    rw [Operation.perform, Call.effect_map, increasePriority]
    dsimp only
    refine fun spared => adjustPriority_leavesAlone c ht ?_ fun w hw hbase => spared w ⟨hw, hbase⟩
    exact fun current hc room => Bounds.increase_mem hc (of_decide_eq_true room)
  | decreasePriority task =>
    rw [Operation.perform, Call.effect_map, decreasePriority]
    dsimp only
    refine fun spared => adjustPriority_leavesAlone c ht ?_ fun w hw hbase => spared w ⟨hw, hbase⟩
    exact fun current hc room => Bounds.decrease_mem hc (of_decide_eq_true room)
  | exitTask task =>
    rw [Operation.perform, Call.effect_map, effect_exitTask]
    refine guarded_induction refused ?_
    cases hw : s.graph.lookup? task with
    | none => exact refused
    | some w =>
      exact fun spared => retire_leavesAlone c ((c.lookup_iff task w).mp hw).1 (spared w hw)
  | _ => cases mutates

end Spared

/-- A mutation leaves every task alone that is not equal to or downstream of the tasks it starts
from: its flag, its cache, the tasks above it, and the answer to the question for its effective
priority, around circles too. -/
theorem mutation_acts_downstream (reachable : s.Reachable) (mutates : operation.mutates = true)
    (tracked : s.graph.lookup? x = some t)
    (spared : ∀ w, operation.Touches s (s.next (.perform operation)) w → ¬ s.graph.Above w t) :
    let s' := s.next (.perform operation)
    s'.graph.lookup? x = some t ∧ (s'.graph.task t).cached = (s.graph.task t).cached ∧
      (s'.graph.task t).dirty = (s.graph.task t).dirty ∧
      (∀ w, s'.graph.Above w t ↔ s.graph.Above w t) ∧
      s'.answer (.perform (.effectivePriority x)) =
        s.answer (.perform (.effectivePriority x)) := by
  intro s'
  have c := reachable.coherent
  have c' := (reachable.next (.perform operation)).coherent
  have follows := operation.follows c
  have a : LeavesAlone s.bounds.lowest t s.graph s'.graph :=
    mutation_leavesAlone c ((c.lookup_iff x t).mp tracked).1 mutates spared
  have tracked' := a.lookup? x tracked
  refine ⟨tracked', a.cached _ .refl, a.dirty _ .refl, a.above c.toConsistent c'.toConsistent, ?_⟩
  have hinterrupts : s'.interrupts = s.interrupts := follows.interrupts
  have hbounds : s'.bounds = s.bounds := follows.bounds
  change ((Operation.effectivePriority x).perform.effect s').1 =
    ((Operation.effectivePriority x).perform.effect s).1
  rw [Operation.perform, Call.effect_map, Call.effect_map, effect_effectivePriority,
    effect_effectivePriority, (slotOf_of_some tracked).1, (slotOf_of_some tracked).2,
    (slotOf_of_some tracked').1, (slotOf_of_some tracked').2, guarded, guarded, hinterrupts,
    hbounds, ← a.evaluate_eq]
  cases s.interrupts.enabled <;> rfl

/-- A task of a circle waits on a queue that is held by a task outside. -/
def besideCircle : Scheduler :=
  closedCircle.after <| List.map .perform
    [.newWaitQueue true, .acquire ⟨2, 0⟩ ⟨3⟩, .waitForAccess ⟨2, 0⟩ ⟨1⟩, .setPriority ⟨2⟩ 5,
      .effectivePriority ⟨3⟩]

theorem mutation_acts_downstream_besideCircle :
    let s' := besideCircle.next (.perform (.setPriority ⟨3⟩ 6))
    besideCircle.graph.lookup? ⟨1⟩ = some 0 ∧
      (Operation.setPriority ⟨3⟩ 6).Touches besideCircle s' 2 ∧
      (s'.graph.task 0).cached = (besideCircle.graph.task 0).cached ∧
      s'.answer (.perform (.effectivePriority ⟨1⟩)) =
        besideCircle.answer (.perform (.effectivePriority ⟨1⟩)) := by
  have reachable : besideCircle.Reachable :=
    ((Reachable.fresh (build_of_valid Bounds.standard_valid ⟨false⟩)).after _).after _
  have tracked : besideCircle.graph.lookup? ⟨1⟩ = some 0 := by decide +kernel
  have hchanged : besideCircle.graph.lookup? ⟨3⟩ = some 2 := by decide +kernel
  have hawaits : (besideCircle.graph.task 2).awaiting = [] := by decide +kernel
  have mutates : (Operation.setPriority ⟨3⟩ 6).mutates = true := rfl
  obtain ⟨-, hcached, -, -, hanswer⟩ := mutation_acts_downstream reachable mutates tracked <| by
    rintro w ⟨hw, -⟩ habove
    rw [hchanged] at hw
    cases hw
    rcases Relation.ReflTransGen.cases_head habove with h | ⟨_, ⟨q, hq, _⟩, _⟩
    · cases h
    · simp [hawaits] at hq
  exact ⟨tracked, ⟨hchanged, by decide +kernel⟩, hcached, hanswer⟩

end Scheduler

end PriorityDonation
