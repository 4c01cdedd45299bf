import Mathlib.Data.List.Perm.Subperm
import PriorityDonation.Proofs.Histories

/-!
# The arenas are a consistent graph

At every point of every history both ends of each tie agree, slots out of use have no ties, and
every slot that is stored anywhere exists. Operations pass through graphs of this kind only, and
their walks come to existing records only, so no record is ever read or changed that is not there.
-/

namespace PriorityDonation

/-- The states that a walk passes through. -/
def Walk.Passes {σ ρ : Type} (walk : Walk σ ρ) : σ → σ → Prop :=
  Relation.ReflTransGen fun s s' => walk.step s = .inl s'

namespace Graph

/-- Every slot that the graph stores exists. -/
structure InRange (g : Graph) : Prop where
  index (id : TaskId) (t : Nat) : g.lookup? id = some t → t < g.tasks.size
  freeTasks : ∀ t ∈ g.tasks.free, t < g.tasks.size
  freeQueues : ∀ q ∈ g.queues.free, q < g.queues.size
  held (t : Nat) : ∀ q ∈ (g.task t).held, q < g.queues.size
  awaiting (t : Nat) : ∀ q ∈ (g.task t).awaiting, q < g.queues.size
  holder (q : Nat) : ∀ t, (g.queue q).holder = some t → t < g.tasks.size
  waiters (q : Nat) : ∀ t ∈ (g.queue q).waiters, t < g.tasks.size

/-- Invalidation and evaluation, started at an existing record, come to existing records only. -/
def WalksInRange (g : Graph) (floor : Priority) : Prop :=
  ∀ n, g.Present n →
    (∀ m, Marking.walk.Passes ⟨g, [n]⟩ m → ∀ n' ∈ m.pending, m.graph.Present n') ∧
    ∀ frame k, g.visit floor n = (.rebuild frame, k) →
      ∀ r, (Rebuild.walk floor).Passes ⟨k, [frame]⟩ r →
        ∀ f ∈ r.stack, r.graph.Present f.node ∧ ∀ n' ∈ f.rest, r.graph.Present n'

variable {bounds : Bounds} {g h k : Graph} {floor : Priority} {n : Node} {q t : Nat}

theorem Consistent.inRange (c : g.Consistent) : g.InRange where
  index id t ht := ((c.lookup_iff id t).mp ht).1.1
  freeTasks := c.freeTasks_lt
  freeQueues q hq := ((c.mem_freeQueues q).mp hq).1
  held t q hq := lt_of_live (c.held_inUse q t hq).2
  awaiting t q hq := lt_of_live (c.awaiting_inUse q t hq).2
  holder q t ht := (c.held_inUse q t ((c.holder_iff q t).mp ht)).1.1
  waiters _ _ ht := (c.tracked_of_waiter ht).1

namespace InRange

variable (r : g.InRange)
include r

theorem congr (a : SameTies g h) : h.InRange := by
  obtain ⟨_, _, _, _, _, _, _⟩ := r
  constructor <;>
    simpa only [a.lookup?, a.taskSlots, a.queueSlots, a.freeTasks, a.freeQueues, a.held, a.awaiting,
      a.holder, a.waiters]

/-- Ties may be removed from the record of a queue. -/
theorem modifyQueue (q : Nat) {f : WaitQueue → WaitQueue}
    (holder : ∀ x t, (f x).holder = some t → x.holder = some t)
    (waiters : ∀ x, ∀ t ∈ (f x).waiters, t ∈ x.waiters) : (g.modifyQueue q f).InRange := by
  have hsize : (g.modifyQueue q f).queues.size = g.queues.size := Arena.size_modify g.queues q f
  refine ⟨r.index, r.freeTasks, ?_, ?_, ?_, ?_, ?_⟩
  · rw [hsize]
    exact r.freeQueues
  · rw [hsize]
    exact r.held
  · rw [hsize]
    exact r.awaiting
  · intro q' t ht
    rw [queue_modifyQueue] at ht
    split at ht
    · exact r.holder q' t (holder _ t ht)
    · exact r.holder q' t ht
  · intro q' t ht
    rw [queue_modifyQueue] at ht
    split at ht
    · exact r.waiters q' t (waiters _ t ht)
    · exact r.waiters q' t ht

theorem sever (t : Nat) : (g.modifyTask t Task.sever).InRange := by
  have hsize : (g.modifyTask t Task.sever).tasks.size = g.tasks.size :=
    Arena.size_modify g.tasks t Task.sever
  refine ⟨?_, ?_, r.freeQueues, ?_, ?_, ?_, ?_⟩
  · rw [hsize]
    exact r.index
  · rw [hsize]
    exact r.freeTasks
  · intro t' q hq
    rw [task_modifyTask] at hq
    split at hq
    · simp [Task.sever] at hq
    · exact r.held t' q hq
  · intro t' q hq
    rw [task_modifyTask] at hq
    split at hq
    · simp [Task.sever] at hq
    · exact r.awaiting t' q hq
  · rw [hsize]
    exact r.holder
  · rw [hsize]
    exact r.waiters

theorem present_of_beneficiary {a b : Node} (hb : b ∈ g.beneficiaries a) : g.Present b := by
  cases a with
  | task t =>
    obtain ⟨q, hq, rfl⟩ := List.mem_map.mp hb
    exact r.awaiting t q hq
  | queue q =>
    obtain ⟨t, ht, rfl⟩ := List.mem_map.mp hb
    exact r.holder q t (Option.mem_toList.mp ht)

theorem present_of_donor {a b : Node} (ha : a ∈ g.donors b) : g.Present a := by
  cases b with
  | task t =>
    obtain ⟨q, hq, rfl⟩ := List.mem_map.mp ha
    exact r.held t q hq
  | queue q =>
    obtain ⟨t, ht, rfl⟩ := List.mem_map.mp ha
    exact r.waiters q t ht

theorem marking {m : Marking} (hn : g.Present n) (h : Marking.walk.Passes ⟨g, [n]⟩ m) :
    m.Spreads g g.Present := by
  induction h with
  | refl => exact ⟨.refl g, fun _ => rfl, fun _ => id, fun _ => Or.inl, by simpa using hn⟩
  | tail _ hstep ih =>
    exact ih.step (fun _ _ _ hb => r.present_of_beneficiary hb) _ _ hstep

end InRange

/-- A rebuild that began at `g` is busy with existing records only. -/
structure RebuildInRange (g : Graph) (rebuild : Rebuild) : Prop where
  ties : SameTies g rebuild.graph
  present : ∀ f ∈ rebuild.stack, g.Present f.node ∧ ∀ n ∈ f.rest, g.Present n

theorem RebuildInRange.step (r : g.InRange) {s s' : Rebuild} (hs : g.RebuildInRange s)
    (h : Rebuild.step floor s = .inl s') : g.RebuildInRange s' := by
  obtain ⟨g', _ | ⟨⟨node, _ | ⟨donor, rest⟩, best⟩, stack⟩⟩ := s
  · simp [Rebuild.step] at h
  · -- the innermost node is finished
    simp only [Rebuild.step] at h
    cases stack with
    | nil => cases h
    | cons parent stack =>
      cases h
      refine ⟨hs.ties.trans (g'.sameTies_finish node best), fun f hf => ?_⟩
      rcases List.mem_cons.mp hf with rfl | hf
      · exact hs.present parent (List.mem_cons_of_mem _ List.mem_cons_self)
      · exact hs.present f (List.mem_cons_of_mem _ (List.mem_cons_of_mem _ hf))
  · -- a donor is visited
    obtain ⟨hnode, hrest⟩ := hs.present _ List.mem_cons_self
    have houter (f : Frame) (hf : f ∈ stack) := hs.present f (List.mem_cons_of_mem _ hf)
    have hinner : ∀ n ∈ rest, g.Present n := fun n hn => hrest n (List.mem_cons_of_mem _ hn)
    simp only [Rebuild.step] at h
    split at h
    · rename_i hv
      cases h
      refine ⟨hs.ties.trans (visit_known hv).2.ties, fun f hf => ?_⟩
      rcases List.mem_cons.mp hf with rfl | hf
      · exact ⟨hnode, hinner⟩
      · exact houter f hf
    · rename_i hv
      cases h
      obtain ⟨rfl, ho⟩ := visit_rebuild hv
      refine ⟨hs.ties.trans ho.ties, fun f hf => ?_⟩
      rcases List.mem_cons.mp hf with rfl | hf
      · refine ⟨hrest donor List.mem_cons_self, fun n hn => ?_⟩
        have hdonor : n ∈ g.donors donor := hs.ties.donors donor ▸ hn
        exact r.present_of_donor hdonor
      · rcases List.mem_cons.mp hf with rfl | hf
        · exact ⟨hnode, hinner⟩
        · exact houter f hf

theorem InRange.rebuild (r : g.InRange) (hn : g.Present n) {frame : Frame}
    (hv : g.visit floor n = (.rebuild frame, k)) {s : Rebuild}
    (h : (Rebuild.walk floor).Passes ⟨k, [frame]⟩ s) : g.RebuildInRange s := by
  obtain ⟨rfl, ho⟩ := visit_rebuild hv
  induction h with
  | refl =>
    refine ⟨ho.ties, fun f hf => ?_⟩
    rw [List.mem_singleton.mp hf]
    exact ⟨hn, fun n' hn' => r.present_of_donor hn'⟩
  | tail _ hstep ih => exact ih.step r hstep

theorem InRange.walks (r : g.InRange) (floor : Priority) : g.WalksInRange floor := by
  intro n hn
  constructor
  · intro m hm n' hn'
    have spreads := r.marking hn hm
    exact (spreads.ties.present n').mpr (spreads.pending n' hn')
  · intro frame k hv s hs f hf
    have inRange := r.rebuild hn hv hs
    obtain ⟨hnode, hrest⟩ := inRange.present f hf
    refine ⟨(inRange.ties.present f.node).mpr hnode, fun n' hn' => ?_⟩
    exact (inRange.ties.present n').mpr (hrest n' hn')

/-- The graph in the middle of a retirement, when some of the awaited queues are done. -/
def retiring (g : Graph) (t : Nat) (done : List Nat) : Graph :=
  done.foldl (fun g q => (g.modifyQueue q (·.dequeue t)).invalidate (.queue q))
    ((g.task t).held.foldl (fun g q => g.modifyQueue q (·.releaseFrom t))
      (g.modifyTask t Task.sever))

theorem InRange.retiring (r : g.InRange) (t : Nat) (done : List Nat) :
    (g.retiring t done).InRange := by
  have released : ((g.task t).held.foldl (fun g q => g.modifyQueue q (·.releaseFrom t))
      (g.modifyTask t Task.sever)).InRange := by
    generalize (g.task t).held = held
    have severed := r.sever t
    generalize g.modifyTask t Task.sever = k at severed
    induction held generalizing k with
    | nil => exact severed
    | cons q rest ih =>
      refine ih _ (severed.modifyQueue q ?_ ?_)
      · intro x t' ht'
        unfold WaitQueue.releaseFrom at ht'
        split at ht'
        · cases ht'
        · exact ht'
      · intro x t' ht'
        unfold WaitQueue.releaseFrom at ht'
        split at ht' <;> exact ht'
  unfold Graph.retiring
  generalize (g.task t).held.foldl (fun g q => g.modifyQueue q (·.releaseFrom t))
    (g.modifyTask t Task.sever) = k at released
  induction done generalizing k with
  | nil => exact released
  | cons q rest ih =>
    refine ih _ ((released.modifyQueue q ?_ ?_).congr (sameTies_invalidate _ _))
    · exact fun _ _ => id
    · exact fun x t' ht' => (List.mem_filter.mp ht').1

/-- A step between graphs whose slots are all in range, on the way as well. -/
structure SafeStep (bounds : Bounds) (g h : Graph) : Prop where
  step : g.Step bounds h
  consistent : g.Consistent
  inRange : g.InRange
  walks : g.WalksInRange bounds.lowest
  edits (e : Graph) (v : Node) : g.Edit bounds e v →
    e.Consistent ∧ e.InRange ∧ e.WalksInRange bounds.lowest ∧ e.Present v
  retiring (t : Nat) (done : List Nat) :
    (g.retiring t done).InRange ∧ (g.retiring t done).WalksInRange bounds.lowest

theorem Consistent.safeStep (c : g.Consistent) (hs : g.Step bounds h) : SafeStep bounds g h where
  step := hs
  consistent := c
  inRange := c.inRange
  walks := c.inRange.walks bounds.lowest
  edits e v he := by
    have ce := he.consistent c
    exact ⟨ce, ce.inRange, ce.inRange.walks bounds.lowest, present_of_inUse (he.inUse c)⟩
  retiring t done :=
    ⟨c.inRange.retiring t done, (c.inRange.retiring t done).walks bounds.lowest⟩

theorem Coherent.safeSteps (valid : bounds.Valid) (c : g.Coherent bounds)
    (hs : g.Steps bounds h) : Relation.ReflTransGen (SafeStep bounds) g h := by
  induction hs with
  | refl => exact .refl
  | tail hmid hstep ih => exact ih.tail ((c.steps valid hmid).toConsistent.safeStep hstep)

/-- The free task slots are those without an entry in the index. -/
theorem Rostered.mem_freeTasks (c : g.Rostered) (t : Nat) :
    t ∈ g.tasks.free ↔ t < g.tasks.size ∧ ∀ id, g.lookup? id ≠ some t := by
  constructor
  · intro ht
    exact ⟨c.freeTasks_lt t ht, fun id hid => ((c.lookup_iff id t).mp hid).1.2 ht⟩
  · rintro ⟨hlt, hnone⟩
    by_contra ht
    exact hnone _ ((c.lookup_iff _ t).mpr ⟨⟨hlt, ht⟩, rfl⟩)

theorem Rostered.queueCount_add (c : g.Rostered) :
    g.queueCount + g.queues.free.length = g.queues.size := by
  have hsub := c.freeQueues_nodup.subperm fun q hq =>
    List.mem_range.mpr ((c.mem_freeQueues q).mp hq).1
  have hle := hsub.length_le
  rw [List.length_range] at hle
  simp only [queueCount, Arena.occupied, Arena.size] at *
  omega

end Graph

namespace Scheduler

open PriorityDonation.Graph

variable {s : Scheduler}

/-- At every point of every history the index, the released slots and both ends of each tie agree, a
released slot has no ties left, and no operation takes a step that uses a slot out of range. -/
theorem arenas_consistent (reachable : s.Reachable) :
    s.graph.Consistent ∧
    (∀ t, t ∈ s.graph.tasks.free ↔
      t < s.graph.tasks.size ∧ ∀ id, s.graph.lookup? id ≠ some t) ∧
    (∀ t ∈ s.graph.tasks.free,
      (s.graph.task t).held = [] ∧ (s.graph.task t).awaiting = []) ∧
    (∀ q ∈ s.graph.queues.free,
      (s.graph.queue q).waiters = [] ∧ (s.graph.queue q).holder = none) ∧
    s.graph.InRange ∧
    s.graph.queueCount + s.graph.queues.free.length = s.graph.queues.size ∧
    ∀ operation, Relation.ReflTransGen (SafeStep s.bounds) s.graph
      (s.next (.perform operation)).graph := by
  have c := reachable.coherent
  refine ⟨c.toConsistent, c.mem_freeTasks, fun t ht => ?_, fun q hq => ?_,
    c.toConsistent.inRange, c.queueCount_add, fun operation => ?_⟩
  · have hnot : ¬ s.graph.Tracked t := fun h => h.2 ht
    exact ⟨c.held_of_not_tracked hnot, c.awaiting_of_not_tracked hnot⟩
  · have hnot := ((c.mem_freeQueues q).mp hq).2
    exact ⟨c.waiters_of_not_live hnot, c.holder_of_not_live hnot⟩
  · exact c.safeSteps s.valid (operation.follows c).steps

/-- A task that holds one queue and waits for another one retires, and a third task takes over its
slot; a queue is destroyed while it is held. -/
def recycledSlots : Scheduler :=
  after ⟨.standard, Bounds.standard_valid, ⟨false⟩, {}⟩ <| List.map .perform
    [.newWaitQueue true, .newWaitQueue true, .newWaitQueue false, .acquire ⟨0, 0⟩ ⟨1⟩,
      .acquire ⟨1, 0⟩ ⟨2⟩, .waitForAccess ⟨1, 0⟩ ⟨1⟩, .exitTask ⟨1⟩, .acquire ⟨2, 0⟩ ⟨2⟩,
      .destroyWaitQueue ⟨2, 0⟩, .waitForAccess ⟨0, 0⟩ ⟨3⟩]

theorem arenas_consistent_recycledSlots :
    recycledSlots.graph.lookup? ⟨3⟩ = some 0 ∧ (recycledSlots.graph.task 0).id = ⟨3⟩ ∧
      recycledSlots.graph.queues.free = [2] ∧ (recycledSlots.graph.queue 2).holder = none ∧
      recycledSlots.graph.queueCount + 1 = recycledSlots.graph.queues.size := by
  have reachable : recycledSlots.Reachable :=
    (Reachable.fresh (build_of_valid Bounds.standard_valid ⟨false⟩)).after _
  obtain ⟨c, _, _, hqueues, _, hcount, _⟩ := arenas_consistent reachable
  have hlookup : recycledSlots.graph.lookup? ⟨3⟩ = some 0 := by decide +kernel
  have hfree : recycledSlots.graph.queues.free = [2] := by decide +kernel
  rw [hfree] at hqueues hcount
  exact ⟨hlookup, ((c.lookup_iff ⟨3⟩ 0).mp hlookup).2, hfree,
    (hqueues 2 List.mem_cons_self).2, hcount⟩

end Scheduler

end PriorityDonation
