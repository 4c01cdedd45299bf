import PriorityDonation.Proofs.Coherence

/-!
# Slots that are taken into use and given back

A task or queue that appears takes a slot out of use, and one that disappears gives its slot back.
A slot out of use has no ties left, so that whoever gets it next begins without any.
-/

namespace PriorityDonation

namespace Arena

variable {α : Type} [Inhabited α]

/-- A slot out of use now holds a record, and everything else is as it was. -/
structure Allocates (arena : Arena α) (slot : Nat) (record : α) (next : Arena α) : Prop where
  get (s : Nat) : next.get s = if s = slot then record else arena.get s
  unused : slot ∈ arena.free ∨ slot = arena.size
  lt_size (s : Nat) : s < next.size ↔ s < arena.size ∨ s = slot
  mem_free (s : Nat) : s ∈ next.free ↔ s ∈ arena.free ∧ s ≠ slot
  free_nodup : next.free.Nodup
  count : next.size + arena.free.length = arena.size + next.free.length + 1

theorem allocate_allocates (arena : Arena α) (make : Option α → α) (nodup : arena.free.Nodup)
    (lt : ∀ s ∈ arena.free, s < arena.size) :
    arena.Allocates (allocate make arena).1
      (make (if (allocate make arena).1 < arena.size
        then some (arena.get (allocate make arena).1) else none))
      (allocate make arena).2 := by
  obtain ⟨slots, _ | ⟨slot, free⟩⟩ := arena
  · simp only [allocate, size, Nat.lt_irrefl, if_false]
    refine ⟨fun s => ?_, Or.inr rfl, fun s => ?_, by simp, by simp, by simp [size]⟩
    · simp only [get_eq, Array.getElem?_push]
      split <;> rfl
    · simp only [size, Array.size_push]
      omega
  · have hlt : slot < slots.size := lt slot List.mem_cons_self
    obtain ⟨hnot, hnodup⟩ := List.nodup_cons.mp nodup
    simp only [allocate, size, hlt, if_true]
    refine ⟨fun s => ?_, Or.inl List.mem_cons_self, fun s => ?_, fun s => ?_, hnodup, ?_⟩
    · have := get_modify ⟨slots, free⟩ slot s (make ∘ some)
      grind [get_eq, modify, size]
    · simp only [size, Array.size_modify]
      grind
    · grind
    · simp only [size, Array.size_modify, List.length_cons]
      omega

end Arena

namespace Graph

variable {bounds : Bounds} {g h : Graph} {floor base : Priority} {id : TaskId} {slot : Nat}

/-- Everything is as it was, apart from the record of one node that had no ties and takes priority
from nobody. -/
structure Isolates (floor : Priority) (g : Graph) (x : Node) (h : Graph) : Prop where
  tasks (t : Nat) : .task t ≠ x → h.task t = g.task t
  queues (q : Nat) : .queue q ≠ x → h.queue q = g.queue q
  inUse (n : Node) : n ≠ x → (h.InUse n ↔ g.InUse n)
  donors : g.donors x = []
  beneficiaries : g.beneficiaries x = []
  noDonors : h.donors x = []
  clean : h.dirty x = false
  settled : h.InUse x → h.value floor x = h.seed floor x

namespace Isolates

variable {x : Node} (i : Isolates floor g x h)
include i

theorem read {n : Node} (hn : n ≠ x) : h.dirty n = g.dirty n ∧ h.cached n = g.cached n ∧
    h.conducts n = g.conducts n ∧ h.caches n = g.caches n ∧ h.donors n = g.donors n ∧
    h.seed floor n = g.seed floor n := by
  cases n with
  | task t => simp [dirty, cached, conducts, caches, Graph.donors, seed, i.tasks t hn]
  | queue q => simp [dirty, cached, conducts, caches, Graph.donors, seed, i.queues q hn]

theorem other {n : Node} (hn : n ≠ x) : h.dirty n = g.dirty n ∧ h.conducts n = g.conducts n ∧
    h.sources n = g.sources n ∧ h.seed floor n = g.seed floor n ∧
    h.value floor n = g.value floor n := by
  simp only [sources, value, i.read hn, and_self]

theorem feeds {m n : Node} (hf : h.Feeds m n) : n ≠ x ∧ g.Feeds m n := by
  have hn : n ≠ x := by
    rintro rfl
    simp [Feeds, i.noDonors] at hf
  rw [feeds_iff] at hf ⊢
  exact ⟨hn, (i.other hn).2.2.1 ▸ hf⟩

theorem flagged {n : Node} (hd : h.dirty n = true) : n ≠ x := by
  rintro rfl
  simp [i.clean] at hd

theorem closed (c : g.Coherent bounds) : h.DirtyClosed h.Feeds (fun _ => False) := by
  intro a b hab hd
  obtain ⟨hb, hab⟩ := i.feeds hab
  rw [(i.other (i.flagged hd)).1] at hd
  rw [(i.other hb).1]
  exact c.closed a b hab hd

theorem feltDownstream (c : g.Coherent bounds) : FeltDownstream floor g h := by
  refine feltDownstream_of_touched (· = x) (i.closed c) (fun n hn => (i.inUse n hn).mp)
    (fun n hn hd => (i.other hn).1 ▸ hd) (fun n hn => (i.other hn).2.2.1)
    (fun n hn => (i.other hn).2.2.2.1) (fun n hn => (i.other hn).2.2.2.2) ?_
  rintro n rfl
  refine Or.inr ⟨fun m hf => ?_, fun hu => ⟨?_, i.settled hu⟩⟩
  · have hgives := (i.feeds hf).2
    rw [← c.gives_eq_feeds] at hgives
    simp [Gives, i.beneficiaries] at hgives
  · simp [sources, i.noDonors]

end Isolates

theorem Coherent.isolates {x : Node} (c : g.Coherent bounds) (i : Isolates bounds.lowest g x h)
    (consistent : h.Consistent) (bases : ∀ t, h.Tracked t → (h.task t).base ∈ bounds) :
    h.Coherent bounds := by
  refine ⟨consistent, ?_, i.closed c, c.sound.kept (i.feltDownstream c), bases⟩
  intro n hd
  have hn := i.flagged hd
  rw [(i.other hn).2.1, i.inUse n hn]
  exact c.flags n ((i.other hn).1 ▸ hd)

/-- A task appears in a slot that nobody occupies. -/
structure Attached (g : Graph) (id : TaskId) (base : Priority) (slot : Nat) (h : Graph) : Prop where
  task (t : Nat) : h.task t = if t = slot then .fresh id base else g.task t
  queues : h.queues = g.queues
  index : h.index = g.index.insert id slot
  not_tracked : ¬ g.Tracked slot
  tracked (t : Nat) : h.Tracked t ↔ g.Tracked t ∨ t = slot
  free_nodup : h.tasks.free.Nodup
  free_lt : ∀ t ∈ h.tasks.free, t < h.tasks.size

theorem attach_of_some (base : Priority) (hid : g.lookup? id = some slot) :
    attach id base g = (slot, g) := by
  simp only [attach, hid]

@[simp] theorem queue_attach (g : Graph) (id : TaskId) (base : Priority) (q : Nat) :
    (attach id base g).2.queue q = g.queue q := by
  unfold attach
  split <;> rfl

theorem attach_attached (c : g.Rostered) (base : Priority) (hid : g.lookup? id = none) :
    Attached g id base (attach id base g).1 (attach id base g).2 := by
  have ha := g.tasks.allocate_allocates (fun _ => .fresh id base) c.freeTasks_nodup c.freeTasks_lt
  simp only [attach, hid]
  generalize Arena.allocate (fun _ => Task.fresh id base) g.tasks = allocated at ha ⊢
  obtain ⟨slot, tasks⟩ := allocated
  have hslot : ¬ g.Tracked slot := by
    rintro ⟨hlt, hnot⟩
    rcases ha.unused with hfree | heq
    · exact hnot hfree
    · exact absurd heq (Nat.ne_of_lt hlt)
  refine ⟨ha.get, rfl, rfl, hslot, fun t => ?_, ha.free_nodup, fun t ht => ?_⟩
  · simp only [Tracked, ha.lt_size, ha.mem_free]
    by_cases ht : t = slot
    · simp [ht]
    · simp [ht]
  · exact (ha.lt_size t).mpr (Or.inl (c.freeTasks_lt t ((ha.mem_free t).mp ht).1))

namespace Attached

variable (a : Attached g id base slot h)
include a

theorem queue (q : Nat) : h.queue q = g.queue q := by
  simp only [Graph.queue, a.queues]

theorem lookup? (id' : TaskId) :
    h.lookup? id' = if id' = id then some slot else g.lookup? id' := by
  simp only [Graph.lookup?, a.index, Std.TreeMap.getElem?_insert,
    Std.LawfulEqOrd.compare_eq_iff_eq, eq_comm (a := id)]

theorem task_of_ne {t : Nat} (ht : t ≠ slot) : h.task t = g.task t := by
  rw [a.task, if_neg ht]

theorem task_self : h.task slot = .fresh id base := by
  rw [a.task, if_pos rfl]

variable (c : g.Consistent)
include c

theorem held (t : Nat) : (h.task t).held = (g.task t).held := by
  rw [a.task]
  split
  · rename_i ht
    rw [ht, c.held_of_not_tracked a.not_tracked]
    rfl
  · rfl

theorem awaiting (t : Nat) : (h.task t).awaiting = (g.task t).awaiting := by
  rw [a.task]
  split
  · rename_i ht
    rw [ht, c.awaiting_of_not_tracked a.not_tracked]
    rfl
  · rfl

theorem rostered (hid : g.lookup? id = none) : h.Rostered where
  lookup_iff id' t := by
    have old := c.lookup_iff id' t
    have new := c.lookup_iff id t
    rw [a.lookup?, a.tracked, a.task]
    have := a.not_tracked
    grind [Task.fresh]
  freeTasks_nodup := a.free_nodup
  freeTasks_lt := a.free_lt
  freeQueues_nodup := a.queues ▸ c.freeQueues_nodup
  mem_freeQueues q := by
    rw [a.queue, a.queues]
    exact c.mem_freeQueues q

theorem consistent (hid : g.lookup? id = none) : h.Consistent where
  toRostered := a.rostered c hid
  toTied := c.toTied.transport (a.held c) (a.awaiting c) (fun q => by rw [a.queue])
    (fun q => by rw [a.queue]) fun q t hq => by
      rw [a.tracked, a.queue]
      exact ⟨Or.inl (c.inUse_of_tie hq).1, (c.inUse_of_tie hq).2⟩

theorem isolates (floor : Priority) : Isolates floor g (.task slot) h := by
  have hne {t : Nat} (ht : Node.task t ≠ .task slot) : t ≠ slot := fun h => ht (h ▸ rfl)
  refine ⟨fun t ht => a.task_of_ne (hne ht), fun q _ => a.queue q, ?_, ?_, ?_, ?_, ?_, ?_⟩
  · intro n hn
    cases n with
    | task t => simp [InUse, a.tracked, hne hn]
    | queue q => simp only [InUse, a.queue]
  · simp [donors, c.held_of_not_tracked a.not_tracked]
  · simp [beneficiaries, c.awaiting_of_not_tracked a.not_tracked]
  · simp [donors, a.task_self, Task.fresh]
  · simp [dirty, a.task_self, Task.fresh]
  · simp [value, caches, seed, a.task_self, Task.fresh]

omit a c in
theorem coherent {bounds : Bounds} (valid : bounds.Valid) (c : g.Coherent bounds)
    (a : Attached g id bounds.initial slot h) (hid : g.lookup? id = none) : h.Coherent bounds := by
  refine c.isolates (a.isolates c.toConsistent _) (a.consistent c.toConsistent hid) fun t ht => ?_
  rw [a.task]
  split
  · exact valid.initial_mem
  · rename_i hts
    exact c.bases t (((a.tracked t).mp ht).resolve_right hts)

end Attached

theorem Coherent.attach (c : g.Coherent bounds) (valid : bounds.Valid) (id : TaskId) :
    (attach id bounds.initial g).2.Coherent bounds := by
  cases hid : g.lookup? id with
  | none => exact Attached.coherent valid c (attach_attached c.toRostered _ hid) hid
  | some slot =>
    rw [attach_of_some _ hid]
    exact c

/-- A queue appears in a slot whose queue is not live. -/
structure Created (g : Graph) (transfers : Bool) (floor : Priority) (handle : QueueHandle)
    (h : Graph) : Prop where
  queue (q : Nat) : h.queue q =
    if q = handle.slot then .fresh handle.generation transfers floor else g.queue q
  generation : handle.generation =
    if handle.slot < g.queues.size then (g.queue handle.slot).generation + 1 else 0
  tasks : h.tasks = g.tasks
  index : h.index = g.index
  not_live : (g.queue handle.slot).live = false
  lt_size (q : Nat) : q < h.queues.size ↔ q < g.queues.size ∨ q = handle.slot
  mem_free (q : Nat) : q ∈ h.queues.free ↔ q ∈ g.queues.free ∧ q ≠ handle.slot
  free_nodup : h.queues.free.Nodup
  count : h.queues.size + g.queues.free.length = g.queues.size + h.queues.free.length + 1

theorem createQueue_created (c : g.Rostered) (transfers : Bool) (floor : Priority) :
    Created g transfers floor (createQueue transfers floor g).1
      (createQueue transfers floor g).2 := by
  have ha := g.queues.allocate_allocates
    (fun earlier => .fresh (earlier.elim 0 (·.generation + 1)) transfers floor)
    c.freeQueues_nodup fun q hq => ((c.mem_freeQueues q).mp hq).1
  simp only [createQueue]
  generalize Arena.allocate (fun earlier : Option WaitQueue =>
    .fresh (earlier.elim 0 (·.generation + 1)) transfers floor) g.queues = allocated at ha ⊢
  obtain ⟨slot, queues⟩ := allocated
  have hslot := ha.get slot
  rw [if_pos rfl] at hslot
  simp only [] at ha hslot ⊢
  refine ⟨fun q => ?_, ?_, rfl, rfl, ?_, ha.lt_size, ha.mem_free, ha.free_nodup, ha.count⟩
  · refine (ha.get q).trans ?_
    simp only [hslot]
    rfl
  · rw [hslot]
    split <;> rfl
  · rcases ha.unused with hfree | hsize
    · exact ((c.mem_freeQueues slot).mp hfree).2
    · rw [queue_of_size_le (Nat.le_of_eq hsize.symm)]
      rfl

namespace Created

variable {transfers : Bool} {handle : QueueHandle} (a : Created g transfers floor handle h)
include a

theorem task (t : Nat) : h.task t = g.task t := by
  simp only [Graph.task, a.tasks]

theorem tracked (t : Nat) : h.Tracked t ↔ g.Tracked t := by
  simp only [Tracked, a.tasks]

theorem queue_self : h.queue handle.slot = .fresh handle.generation transfers floor := by
  rw [a.queue, if_pos rfl]

theorem queue_of_ne {q : Nat} (hq : q ≠ handle.slot) : h.queue q = g.queue q := by
  rw [a.queue, if_neg hq]

theorem live (q : Nat) : (h.queue q).live = true ↔ (g.queue q).live = true ∨ q = handle.slot := by
  by_cases hq : q = handle.slot
  · simp [hq, a.queue_self, WaitQueue.fresh]
  · simp [a.queue_of_ne hq, hq]

theorem rostered (c : g.Rostered) : h.Rostered where
  lookup_iff id t := by
    rw [lookup?, a.index, a.tracked, a.task]
    exact c.lookup_iff id t
  freeTasks_nodup := a.tasks ▸ c.freeTasks_nodup
  freeTasks_lt := a.tasks ▸ c.freeTasks_lt
  freeQueues_nodup := a.free_nodup
  mem_freeQueues q := by
    have hlive := a.live q
    have := c.mem_freeQueues q
    rw [a.mem_free, a.lt_size]
    grind

theorem consistent (c : g.Consistent) : h.Consistent where
  toRostered := a.rostered c.toRostered
  toTied := by
    refine c.toTied.transport (fun t => by rw [a.task]) (fun t => by rw [a.task]) ?_ ?_ ?_
    · intro q
      by_cases hq : q = handle.slot
      · rw [hq, a.queue_self, c.holder_of_not_live a.not_live]
        rfl
      · rw [a.queue_of_ne hq]
    · intro q
      by_cases hq : q = handle.slot
      · rw [hq, a.queue_self, c.waiters_of_not_live a.not_live]
        rfl
      · rw [a.queue_of_ne hq]
    · intro q t hq
      rw [a.tracked, a.live]
      exact ⟨(c.inUse_of_tie hq).1, Or.inl (c.inUse_of_tie hq).2⟩

theorem isolates (c : g.Consistent) : Isolates floor g (.queue handle.slot) h := by
  have hne {q : Nat} (hq : Node.queue q ≠ .queue handle.slot) : q ≠ handle.slot :=
    fun h => hq (h ▸ rfl)
  refine ⟨fun t _ => a.task t, fun q hq => a.queue_of_ne (hne hq), ?_, ?_, ?_, ?_, ?_, ?_⟩
  · intro n hn
    cases n with
    | task t => exact a.tracked t
    | queue q => simp [InUse, a.live, hne hn]
  · simp [donors, c.waiters_of_not_live a.not_live]
  · simp [beneficiaries, c.holder_of_not_live a.not_live]
  · simp [donors, a.queue_self, WaitQueue.fresh]
  · simp [dirty, a.queue_self, WaitQueue.fresh]
  · simp [value, cached, seed, a.queue_self, WaitQueue.fresh]

end Created

theorem Coherent.createQueue (c : g.Coherent bounds) (transfers : Bool) :
    (createQueue transfers bounds.lowest g).2.Coherent bounds := by
  have a := createQueue_created c.toRostered transfers bounds.lowest
  refine c.isolates (a.isolates c.toConsistent) (a.consistent c.toConsistent) fun t ht => ?_
  rw [a.task]
  exact c.bases t ((a.tracked t).mp ht)

/-- Takes a queue out of use that nobody holds or waits on. -/
def discard (g : Graph) (q : Nat) : Graph :=
  let g := g.modifyQueue q WaitQueue.destroy
  { g with queues := g.queues.release q }

theorem destroyQueue_eq (g : Graph) (q : Nat) :
    g.destroyQueue q = (g.clearHolder q).discard q := rfl

section Discard

variable {q : Nat}

theorem queue_discard (hq : (g.queue q).live = true) (q' : Nat) :
    (g.discard q).queue q' = if q' = q then (g.queue q).destroy else g.queue q' := by
  change (g.modifyQueue q WaitQueue.destroy).queue q' = _
  have hlt := lt_of_live hq
  rw [queue_modifyQueue]
  grind

theorem rostered_discard (c : g.Rostered) (hq : (g.queue q).live = true) :
    (g.discard q).Rostered where
  lookup_iff := c.lookup_iff
  freeTasks_nodup := c.freeTasks_nodup
  freeTasks_lt := c.freeTasks_lt
  freeQueues_nodup := by
    refine List.nodup_cons.mpr ⟨fun hfree => ?_, c.freeQueues_nodup⟩
    simp [((c.mem_freeQueues q).mp hfree).2] at hq
  mem_freeQueues q' := by
    have hlt := lt_of_live hq
    have := c.mem_freeQueues q'
    have hsize : (g.discard q).queues.size = g.queues.size :=
      Arena.size_modify g.queues q WaitQueue.destroy
    have hfree : (g.discard q).queues.free = q :: g.queues.free := rfl
    rw [hsize, hfree, queue_discard hq]
    grind [WaitQueue.destroy]

section Untied

variable (hq : (g.queue q).live = true) (hholder : (g.queue q).holder = none)
  (hwaiters : (g.queue q).waiters = [])
include hq hholder hwaiters

theorem isolates_discard (floor : Priority) : Isolates floor g (.queue q) (g.discard q) := by
  have hne {q' : Nat} (hq' : Node.queue q' ≠ .queue q) : q' ≠ q := fun h => hq' (h ▸ rfl)
  have hself : (g.discard q).queue q = (g.queue q).destroy := by rw [queue_discard hq, if_pos rfl]
  have hother {q' : Nat} (hq' : q' ≠ q) : (g.discard q).queue q' = g.queue q' := by
    rw [queue_discard hq, if_neg hq']
  refine ⟨fun _ _ => rfl, fun q' hq' => hother (hne hq'), ?_, ?_, ?_, ?_, ?_, ?_⟩
  · intro n hn
    cases n with
    | task t => exact Iff.rfl
    | queue q' => simp only [InUse, hother (hne hn)]
  · simp [donors, hwaiters]
  · simp [beneficiaries, hholder]
  · simp [donors, hself, WaitQueue.destroy, hwaiters]
  · simp [dirty, hself, WaitQueue.destroy]
  · intro hu
    simp [InUse, hself, WaitQueue.destroy] at hu

theorem Coherent.discard (c : g.Coherent bounds) : (g.discard q).Coherent bounds := by
  have hqueue := queue_discard hq
  have tied : (g.discard q).Tied := by
    refine c.toTied.transport (fun _ => rfl) (fun _ => rfl) ?_ ?_ ?_
    · intro q'
      rw [hqueue]
      grind [WaitQueue.destroy]
    · intro q'
      rw [hqueue]
      grind [WaitQueue.destroy]
    · intro q' t hq'
      have hq'' : q' ≠ q := by
        rintro rfl
        rcases hq' with hheld | hawaiting
        · simp [(c.holder_iff q' t).mpr hheld] at hholder
        · have := (c.waiter_iff q' t).mpr hawaiting
          simp [hwaiters] at this
      rw [hqueue, if_neg hq'']
      exact c.inUse_of_tie hq'
  exact c.isolates (isolates_discard hq hholder hwaiters _)
    ⟨rostered_discard c.toRostered hq, tied⟩ c.bases

end Untied

end Discard

end Graph

end PriorityDonation
