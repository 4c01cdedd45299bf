import PriorityDonation.Proofs.Ledger

/-!
# The graph as its clients see it

Clients know tasks by their identities and queues by their handles. The lemmas of this module tell
what each transition changes of that view: which base priorities, which holders and which waiters.
Slots do not show, because different tracked tasks have different identities.
-/

namespace PriorityDonation

theorem size_erase_add_one {α β : Type} [Ord α] [Std.TransOrd α] {table : Std.TreeMap α β} {key : α}
    (h : key ∈ table) : (table.erase key).size + 1 = table.size := by
  have hpos := Std.TreeMap.isEmpty_eq_false_of_contains h
  rw [Std.TreeMap.isEmpty_eq_size_eq_zero, beq_eq_false_iff_ne] at hpos
  rw [Std.TreeMap.size_erase, if_pos (Std.TreeMap.contains_iff_mem.mpr h)]
  omega

namespace Graph

/-- The base priority of a tracked task. -/
def base? (g : Graph) (id : TaskId) : Option Priority :=
  (g.lookup? id).map fun t => (g.task t).base

/-- The queue in a slot, with tasks named by their identities. -/
def entry (g : Graph) (q : Nat) : Ledger.Entry where
  transfers := (g.queue q).transfers
  holder := (g.queue q).holder.map fun t => (g.task t).id
  waiters := (g.queue q).waiters.map fun t => (g.task t).id

variable {bounds : Bounds} {g h : Graph} {q t : Nat}

theorem Rostered.id_inj (c : g.Rostered) {t' : Nat} (ht : g.Tracked t) (ht' : g.Tracked t')
    (h : (g.task t').id = (g.task t).id) : t' = t := by
  have hfirst := (c.lookup_iff (g.task t).id t).mpr ⟨ht, rfl⟩
  have hsecond := (c.lookup_iff (g.task t).id t').mpr ⟨ht', h⟩
  exact Option.some.inj (hsecond.symm.trans hfirst)

/-- Taking a task out of some tasks is taking its identity out of theirs. -/
theorem map_id_filter (c : g.Rostered) (ht : g.Tracked t) {tasks : List Nat}
    (htasks : ∀ t' ∈ tasks, g.Tracked t') :
    (tasks.filter (· ≠ t)).map (fun t' => (g.task t').id) =
      (tasks.map fun t' => (g.task t').id).filter (· ≠ (g.task t).id) := by
  rw [List.filter_map]
  congr 1
  refine List.filter_congr fun t' ht' => ?_
  simp only [Function.comp_def, ne_eq, decide_not]
  congr 1
  refine decide_eq_decide.mpr ⟨fun h => h ▸ rfl, c.id_inj ht (htasks t' ht')⟩

theorem SameRoster.resolve? (a : SameRoster g h) (handle : QueueHandle) :
    h.resolve? handle = g.resolve? handle := by
  simp only [Graph.resolve?, a.live, a.generation]

theorem SameRoster.base? (a : SameRoster g h) (base : h.outline.base = g.outline.base)
    (id : TaskId) : h.base? id = g.base? id := by
  have hbase (t : Nat) : (h.task t).base = (g.task t).base := congrFun base t
  simp only [Graph.base?, a.lookup?, hbase]

theorem SameRoster.entry (a : SameRoster g h) (q : Nat) : h.entry q =
    { transfers := (g.queue q).transfers
      holder := (h.outline.holder q).map fun t => (g.task t).id
      waiters := (h.outline.waiters q).map fun t => (g.task t).id } := by
  simp only [Graph.entry, a.transfers, a.id, outline]

theorem SameTies.base? (a : SameTies g h) (id : TaskId) : h.base? id = g.base? id :=
  a.sameRoster.base? (by rw [a.outline]) id

theorem SameTies.entry (a : SameTies g h) (q : Nat) : h.entry q = g.entry q := by
  simp only [Graph.entry, a.transfers, a.holder, a.waiters, a.id]

theorem resolve?_inj {handle other : QueueHandle} (hq : g.resolve? handle = some q)
    (hq' : g.resolve? other = some q) : handle = other := by
  obtain ⟨hslot, _, hgen⟩ := resolve?_eq_some hq
  obtain ⟨hslot', _, hgen'⟩ := resolve?_eq_some hq'
  cases handle
  cases other
  simp_all

section Ties

variable (c : g.Consistent) (hq : (g.queue q).live = true) (ht : g.Tracked t)
include c

/-- The identity of the holder tells which task it is. -/
theorem holder_id_iff (ht : g.Tracked t) (q : Nat) :
    (g.entry q).holder = some (g.task t).id ↔ (g.queue q).holder = some t := by
  constructor
  · intro h
    obtain ⟨t', ht', hid⟩ := Option.map_eq_some_iff.mp h
    rw [ht', c.id_inj ht (c.tracked_of_holder ht') hid]
  · intro h
    simp only [entry, h, Option.map_some]

theorem waiter_id_iff (ht : g.Tracked t) (q : Nat) :
    (g.task t).id ∈ (g.entry q).waiters ↔ t ∈ (g.queue q).waiters := by
  constructor
  · intro h
    obtain ⟨t', ht', hid⟩ := List.mem_map.mp h
    rwa [← c.id_inj ht (c.tracked_of_waiter ht') hid]
  · exact List.mem_map_of_mem

include hq ht

theorem entry_enqueue (hw : t ∉ (g.queue q).waiters) (q' : Nat) : (g.enqueue q t).entry q' =
    if q' = q then (g.entry q).wait (g.task t).id else g.entry q' := by
  have roster := (enqueue_edits hq .standard ht hw).sameRoster
  have hholder := holder_id_iff c ht q
  rw [roster.entry, outline_enqueue hq]
  by_cases h : q' = q
  · subst h
    by_cases hh : (g.queue q').holder = some t
    · simp [outline, entry, Ledger.Entry.wait, hh]
    · rw [← hholder] at hh
      have hh' := hh
      simp only [entry] at hh'
      simp [outline, entry, Ledger.Entry.wait, hh', mt hholder.mpr hh]
  · simp [h, outline, entry]

theorem entry_setHolder (q' : Nat) : (g.setHolder q t).entry q' =
    if q' = q then (g.entry q).grant (g.task t).id else g.entry q' := by
  have roster := (setHolder_edits hq .standard ht).sameRoster
  have hfilter := map_id_filter c.toRostered ht fun t' ht' => c.tracked_of_waiter (q := q) ht'
  rw [roster.entry, outline_setHolder hq ht]
  by_cases h : q' = q
  · subst h
    simp only [outline, if_true, Option.map_some, hfilter]
    rfl
  · simp [h, outline, entry]

end Ties

section Attach

variable (c : g.Consistent) (id : TaskId) (base : Priority)

theorem resolve?_attach (g : Graph) (handle : QueueHandle) :
    (attach id base g).2.resolve? handle = g.resolve? handle := by
  simp only [resolve?, queue_attach]

theorem queues_attach (g : Graph) : (attach id base g).2.queues = g.queues := by
  unfold attach
  split <;> rfl

theorem taskCount_attach (g : Graph) : (attach id base g).2.taskCount =
    if (g.lookup? id).isSome then g.taskCount else g.taskCount + 1 := by
  unfold attach
  split
  · rename_i slot h
    simp [h]
  · rename_i h
    have hnot : id ∉ g.index := by
      rw [Std.TreeMap.mem_iff_isSome_getElem?]
      change ¬ (g.lookup? id).isSome
      simp [h]
    change (g.index.insert id _).size = _
    simp [taskCount, Std.TreeMap.size_insert, h, hnot]

include c

theorem base?_attach (id' : TaskId) : (attach id base g).2.base? id' =
    if id' = id ∧ g.lookup? id = none then some base else g.base? id' := by
  cases hid : g.lookup? id with
  | some slot =>
    rw [attach_of_some base hid]
    simp
  | none =>
    have a := attach_attached c.toRostered base hid
    simp only [base?, a.lookup?]
    by_cases h : id' = id
    · simp [h, a.task_self, Task.fresh]
    · simp only [h, if_false, false_and]
      cases hid' : g.lookup? id' with
      | none => rfl
      | some t =>
        have ht := ((c.lookup_iff id' t).mp hid').1
        have hne : t ≠ (attach id base g).1 := fun h => a.not_tracked (h ▸ ht)
        simp only [Option.map_some, a.task_of_ne hne]

/-- The base priority of a task that was attached. -/
theorem base_attach : ((attach id base g).2.task (attach id base g).1).base =
    (g.base? id).getD base := by
  have hbase := base?_attach c id base id
  rw [base?, (attach_tracked c id base).2, Option.map_some] at hbase
  cases hid : g.lookup? id with
  | none =>
    rw [if_pos ⟨rfl, hid⟩] at hbase
    simpa [base?, hid] using hbase
  | some t =>
    rw [if_neg (by simp [hid])] at hbase
    simp [← hbase]

theorem entry_attach (q : Nat) : (attach id base g).2.entry q = g.entry q := by
  cases hid : g.lookup? id with
  | some slot => rw [attach_of_some base hid]
  | none =>
    have a := attach_attached c.toRostered base hid
    have hid {t : Nat} (ht : g.Tracked t) :
        ((attach id base g).2.task t).id = (g.task t).id := by
      rw [a.task_of_ne fun h => a.not_tracked (h ▸ ht)]
    have hwaiters : (g.queue q).waiters.map (fun t => ((attach id base g).2.task t).id) =
        (g.queue q).waiters.map fun t => (g.task t).id :=
      List.map_congr_left fun t ht => hid (c.tracked_of_waiter ht)
    have hholder : (g.queue q).holder.map (fun t => ((attach id base g).2.task t).id) =
        (g.queue q).holder.map fun t => (g.task t).id := by
      cases h : (g.queue q).holder with
      | none => rfl
      | some t => simp only [Option.map_some, hid (c.tracked_of_holder h)]
    simp only [entry, queue_attach, hwaiters, hholder]

end Attach

section Retire

variable (c : g.Consistent) {id : TaskId} (ht : g.lookup? id = some t)
include c ht

/-- The graph before the slot of a retired task is given back. -/
theorem retire_dismisses : ∃ k, (retire t g).2 = k.dismiss t id ∧ SameTies (g.cutOff t) k ∧
    k.Tracked t := by
  obtain ⟨htracked, hid⟩ := (c.lookup_iff id t).mp ht
  exact ⟨g.severed t, hid ▸ retire_severed g t, g.sameTies_severed t, tracked_severed htracked c⟩

theorem base?_retire (id' : TaskId) : (retire t g).2.base? id' =
    if id' = id then none else g.base? id' := by
  obtain ⟨k, hretire, ties, hk⟩ := retire_dismisses c ht
  have htracked := ((c.lookup_iff id t).mp ht).1
  have hlookup (id' : TaskId) : k.lookup? id' = g.lookup? id' :=
    (ties.lookup? id').trans ((sameRoster_cutOff c htracked).lookup? id')
  have hbase (t' : Nat) : ((k.dismiss t id).task t').base = (g.task t').base := by
    rw [task_dismiss hk]
    have hcut := task_cutOff htracked t'
    have hk' := ties.base t'
    grind [Task.clean, Task.sever]
  rw [hretire, base?, lookup?_dismiss, hlookup]
  split
  · rfl
  · simp only [hbase, base?]

theorem entry_retire (q : Nat) : (retire t g).2.entry q = (g.entry q).forget id := by
  obtain ⟨k, hretire, ties, hk⟩ := retire_dismisses c ht
  obtain ⟨htracked, hid⟩ := (c.lookup_iff id t).mp ht
  have roster := sameRoster_cutOff c htracked
  have hids (t' : Nat) : ((k.dismiss t id).task t').id = (g.task t').id := by
    rw [task_dismiss hk]
    have hk' := ties.id t'
    have hcut := roster.id t'
    grind [Task.clean]
  have hqueue : (k.dismiss t id).queue q = k.queue q := rfl
  have hholder : (k.queue q).holder =
      if (g.queue q).holder = some t then none else (g.queue q).holder := by
    rw [ties.holder, queue_cutOff c, WaitQueue.dequeue, WaitQueue.releaseFrom]
    split <;> rfl
  have hwaiters : (k.queue q).waiters = (g.queue q).waiters.filter (· ≠ t) := by
    rw [ties.waiters, waiters_cutOff c]
  have hfilter := map_id_filter c.toRostered htracked
    fun t' ht' => c.tracked_of_waiter (q := q) ht'
  have hholds := holder_id_iff c htracked q
  have htransfers : (k.queue q).transfers = (g.queue q).transfers :=
    (ties.transfers q).trans (roster.transfers q)
  rw [hid] at hfilter hholds
  have hforget : (g.entry q).forget id =
      { transfers := (g.queue q).transfers
        holder := if (g.queue q).holder = some t then none else (g.entry q).holder
        waiters := (g.entry q).waiters.filter (· ≠ id) } := by
    simp only [Ledger.Entry.forget, hholds]
    rfl
  rw [hforget]
  simp only [hretire, entry, hids, hqueue, hholder, hwaiters, htransfers, hfilter]
  split <;> rfl

theorem resolve?_retire (handle : QueueHandle) :
    (retire t g).2.resolve? handle = g.resolve? handle := by
  obtain ⟨k, hretire, ties, _⟩ := retire_dismisses c ht
  have htracked := ((c.lookup_iff id t).mp ht).1
  rw [hretire]
  exact (ties.resolve? handle).trans ((sameRoster_cutOff c htracked).resolve? handle)

theorem generation_retire (q : Nat) :
    ((retire t g).2.queue q).generation = (g.queue q).generation := by
  obtain ⟨k, hretire, ties, _⟩ := retire_dismisses c ht
  have htracked := ((c.lookup_iff id t).mp ht).1
  rw [hretire]
  exact (ties.generation q).trans ((sameRoster_cutOff c htracked).generation q)

theorem size_retire : (retire t g).2.queues.size = g.queues.size ∧
    (retire t g).2.queues.free = g.queues.free ∧ (retire t g).2.taskCount + 1 = g.taskCount := by
  obtain ⟨k, hretire, ties, _⟩ := retire_dismisses c ht
  have htracked := ((c.lookup_iff id t).mp ht).1
  have roster := sameRoster_cutOff c htracked
  have hindex : k.index = g.index := ties.index.trans roster.index
  rw [hretire]
  refine ⟨ties.queueSlots.trans roster.queueSlots, ties.freeQueues.trans roster.freeQueues, ?_⟩
  have hmem : id ∈ g.index := by
    rw [Std.TreeMap.mem_iff_isSome_getElem?]
    change (g.lookup? id).isSome = true
    rw [ht]
    rfl
  change (k.index.erase id).size + 1 = g.index.size
  rw [hindex, size_erase_add_one hmem]

end Retire

theorem sameRoster_setBase (g : Graph) (t : Nat) (base : Priority) :
    SameRoster g (g.setBase t base) := by
  unfold setBase
  split
  · exact .refl g
  · exact (g.sameRoster_rebase t base).trans (sameTies_invalidate _ _).sameRoster

theorem base?_setBase (c : g.Consistent) {id : TaskId} (hid : g.lookup? id = some t)
    (base : Priority) (id' : TaskId) :
    (g.setBase t base).base? id' = if id' = id then some base else g.base? id' := by
  have ht := ((c.lookup_iff id t).mp hid).1
  have roster := g.sameRoster_setBase t base
  have hbase (t' : Nat) := (congrArg (Outline.base · t') (outline_setBase ht base) :)
  simp only [outline] at hbase
  simp only [base?, roster.lookup?, hbase]
  split
  · rename_i h
    simp [h, hid]
  · rename_i h
    cases hid' : g.lookup? id' with
    | none => rfl
    | some t' =>
      have hne : t' ≠ t := by
        rintro rfl
        exact h (((c.lookup_iff id' t').mp hid').2.symm.trans ((c.lookup_iff id t').mp hid).2)
      simp [hne]

theorem entry_setBase (ht : g.Tracked t) (base : Priority) (q : Nat) :
    (g.setBase t base).entry q = g.entry q := by
  rw [(g.sameRoster_setBase t base).entry, outline_setBase ht]
  rfl

section Create

variable {transfers : Bool} {floor : Priority} {handle : QueueHandle}
  (a : Created g transfers floor handle h)
include a

theorem Created.resolve? (name : QueueHandle) : h.resolve? name =
    if name = handle then some handle.slot else g.resolve? name := by
  obtain ⟨slot, generation⟩ := name
  obtain ⟨slot', generation'⟩ := handle
  by_cases hslot : slot = slot'
  · subst hslot
    have hself := a.queue_self
    have hdead := a.not_live
    simp only at hself hdead
    simp [Graph.resolve?, hself, hdead, WaitQueue.fresh, eq_comm]
  · have hother := a.queue_of_ne hslot
    simp [Graph.resolve?, hother, hslot]

theorem Created.entry (q : Nat) :
    h.entry q = if q = handle.slot then { transfers } else g.entry q := by
  by_cases hq : q = handle.slot
  · simp [Graph.entry, hq, a.queue_self, WaitQueue.fresh]
  · simp [Graph.entry, hq, a.queue_of_ne hq, a.task]

theorem Created.base? (id : TaskId) : h.base? id = g.base? id := by
  simp only [Graph.base?, lookup?, a.index, a.task]

end Create

section Destroy

variable (hq : (g.queue q).live = true)
include hq

/-- The graph before the slot of a destroyed queue is given back. -/
theorem destroyQueue_discards : ∃ k, g.destroyQueue q = k.discard q ∧ SameRoster g k ∧
    k.outline = { g.outline with
      holder := fun q' => if q' = q then none else g.outline.holder q' } :=
  ⟨g.clearHolder q, destroyQueue_eq g q, (g.clearHolder_edits .standard q).sameRoster,
    outline_clearHolder hq⟩

theorem resolve?_destroyQueue (name : QueueHandle) : (g.destroyQueue q).resolve? name =
    if name.slot = q then none else g.resolve? name := by
  obtain ⟨k, hdestroy, roster, _⟩ := destroyQueue_discards hq
  have hlive : (k.queue q).live = true := by rw [roster.live, hq]
  have hqueue := queue_discard hlive name.slot
  rw [hdestroy]
  split
  · rename_i h
    rw [if_pos h] at hqueue
    simp [resolve?, hqueue, WaitQueue.destroy]
  · rename_i h
    rw [if_neg h] at hqueue
    rw [← roster.resolve?]
    simp only [resolve?, hqueue]

theorem entry_destroyQueue {q' : Nat} (hne : q' ≠ q) :
    (g.destroyQueue q).entry q' = g.entry q' := by
  obtain ⟨k, hdestroy, roster, houtline⟩ := destroyQueue_discards hq
  have hlive : (k.queue q).live = true := by rw [roster.live, hq]
  have hqueue : (k.discard q).queue q' = k.queue q' := by rw [queue_discard hlive, if_neg hne]
  have hsame : (k.discard q).entry q' = k.entry q' := by
    simp only [entry, hqueue]
    rfl
  rw [hdestroy, hsame, roster.entry, houtline]
  simp [hne, outline, entry]

theorem base?_destroyQueue (id : TaskId) : (g.destroyQueue q).base? id = g.base? id := by
  obtain ⟨k, hdestroy, roster, houtline⟩ := destroyQueue_discards hq
  rw [hdestroy]
  exact roster.base? (by rw [houtline]) id

theorem sizes_destroyQueue : (g.destroyQueue q).queues.size = g.queues.size ∧
    (g.destroyQueue q).queues.free = q :: g.queues.free ∧
    (g.destroyQueue q).taskCount = g.taskCount := by
  obtain ⟨k, hdestroy, roster, _⟩ := destroyQueue_discards hq
  have hsize : (k.discard q).queues.size = k.queues.size :=
    Arena.size_modify k.queues q WaitQueue.destroy
  rw [hdestroy, hsize]
  refine ⟨roster.queueSlots, ?_, ?_⟩
  · change q :: k.queues.free = _
    rw [roster.freeQueues]
  · exact congrArg Std.TreeMap.size roster.index

theorem generation_destroyQueue (q' : Nat) :
    ((g.destroyQueue q).queue q').generation = (g.queue q').generation := by
  obtain ⟨k, hdestroy, roster, _⟩ := destroyQueue_discards hq
  have hlive : (k.queue q).live = true := by rw [roster.live, hq]
  rw [hdestroy, queue_discard hlive, ← roster.generation]
  split
  · rename_i h
    rw [h]
    rfl
  · rfl

theorem live_destroyQueue (q' : Nat) : ((g.destroyQueue q).queue q').live =
    if q' = q then false else (g.queue q').live := by
  obtain ⟨k, hdestroy, roster, _⟩ := destroyQueue_discards hq
  have hlive : (k.queue q).live = true := by rw [roster.live, hq]
  rw [hdestroy, queue_discard hlive, ← roster.live]
  split
  · rfl
  · rfl

end Destroy

end Graph

end PriorityDonation
