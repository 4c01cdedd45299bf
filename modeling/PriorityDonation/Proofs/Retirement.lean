import PriorityDonation.Proofs.Turnover

/-!
# Tasks that retire

A task that retires is cut off from its queues, the queues it awaited are invalidated, and then its
slot is given back. The cuts at the awaited queues and the walks take turns, but no walk looks at
the waiters of a queue, so the cuts may as well all be made first. That gives one change of the
graph followed by its marking, and then the end of a task that has no ties.
-/

namespace PriorityDonation

/-- A change of the states that commutes with every step commutes with the whole walk. -/
theorem Walk.run_map {σ ρ : Type} (walk : Walk σ ρ) (F : σ → σ) (G : ρ → ρ)
    (step : ∀ s, walk.step (F s) = (walk.step s).map F G) (s : σ) :
    walk.run (F s) = G (walk.run s) := by
  fun_induction Walk.run walk s with
  | case1 s s' h ih =>
    have hs : walk.step (F s) = .inl (F s') := by
      rw [step, h]
      rfl
    exact (walk.run_of_inl hs).trans ih
  | case2 s result h =>
    refine walk.run_of_inr ?_
    rw [step, h]
    rfl

theorem Arena.modify_comm {α : Type} (arena : Arena α) (slot other : Nat) {f f' : α → α}
    (h : ∀ a, f (f' a) = f' (f a)) :
    (arena.modify slot f).modify other f' = (arena.modify other f').modify slot f := by
  simp only [modify]
  congr 1
  refine Array.ext (by simp) fun i hi hi' => ?_
  simp only [Array.getElem_modify]
  split <;> split <;> simp [h]

namespace Graph

variable {bounds : Bounds} {g h : Graph} {t q : Nat}

def modifyQueues (g : Graph) (queues : List Nat) (f : WaitQueue → WaitQueue) : Graph :=
  queues.foldl (fun g q => g.modifyQueue q f) g

theorem modifyQueues_cons (g : Graph) (q : Nat) (rest : List Nat) (f : WaitQueue → WaitQueue) :
    g.modifyQueues (q :: rest) f = (g.modifyQueue q f).modifyQueues rest f := rfl

/-- Nothing but queue records changes. -/
theorem modifyQueues_frame (g : Graph) (queues : List Nat) (f : WaitQueue → WaitQueue) :
    (g.modifyQueues queues f).tasks = g.tasks ∧ (g.modifyQueues queues f).index = g.index ∧
      (g.modifyQueues queues f).queues.size = g.queues.size ∧
      (g.modifyQueues queues f).queues.free = g.queues.free := by
  induction queues generalizing g with
  | nil => exact ⟨rfl, rfl, rfl, rfl⟩
  | cons q rest ih =>
    obtain ⟨htasks, hindex, hsize, hfree⟩ := ih (g.modifyQueue q f)
    refine ⟨htasks, hindex, hsize.trans ?_, hfree⟩
    exact Arena.size_modify g.queues q f

theorem queue_modifyQueues (f : WaitQueue → WaitQueue) {queues : List Nat} (nodup : queues.Nodup)
    (lt : ∀ q ∈ queues, q < g.queues.size) (q : Nat) :
    (g.modifyQueues queues f).queue q = if q ∈ queues then f (g.queue q) else g.queue q := by
  induction queues generalizing g with
  | nil => simp [modifyQueues]
  | cons q' rest ih =>
    obtain ⟨hnot, hnodup⟩ := List.nodup_cons.mp nodup
    have hlt := lt q' List.mem_cons_self
    rw [modifyQueues_cons, ih hnodup, queue_modifyQueue]
    · grind
    · intro q'' hq''
      have := lt q'' (List.mem_cons_of_mem q' hq'')
      simpa [modifyQueue] using this

/-- A walk may be made before or after a change of records that it does not look at. -/
theorem invalidate_modifyQueue (g : Graph) (n : Node) (q : Nat) {f : WaitQueue → WaitQueue}
    (read : ∀ x : WaitQueue, (f x).dirty = x.dirty ∧ (f x).transfers = x.transfers ∧
      (f x).holder = x.holder)
    (mark : ∀ x : WaitQueue, f x.mark = (f x).mark) :
    (g.modifyQueue q f).invalidate n = (g.invalidate n).modifyQueue q f := by
  refine Marking.walk.run_map (fun m => ⟨m.graph.modifyQueue q f, m.pending⟩)
    (·.modifyQueue q f) ?_ ⟨g, [n]⟩
  rintro ⟨g', _ | ⟨m, pending⟩⟩
  · rfl
  have same (q' : Nat) : ((g'.modifyQueue q f).queue q').dirty = (g'.queue q').dirty ∧
      ((g'.modifyQueue q f).queue q').transfers = (g'.queue q').transfers ∧
      ((g'.modifyQueue q f).queue q').holder = (g'.queue q').holder := by
    rw [queue_modifyQueue]
    split
    · exact read _
    · exact ⟨rfl, rfl, rfl⟩
  have hmarkable : (g'.modifyQueue q f).markable m = g'.markable m := by
    cases m with
    | task t => rfl
    | queue q' => simp only [markable, same]
  have hbeneficiaries : (g'.modifyQueue q f).beneficiaries m = g'.beneficiaries m := by
    cases m with
    | task t => rfl
    | queue q' => simp only [beneficiaries, same]
  have hmark : (g'.modifyQueue q f).mark m = (g'.mark m).modifyQueue q f := by
    cases m with
    | task t => rfl
    | queue q' =>
      have hcomm := g'.queues.modify_comm q q' mark
      simp only [Graph.mark, modifyQueue, count, hcomm]
  simp only [Marking.walk, Marking.step, hmarkable, hbeneficiaries, hmark]
  split <;> rfl

theorem invalidate_modifyQueues (g : Graph) (n : Node) (queues : List Nat)
    {f : WaitQueue → WaitQueue}
    (read : ∀ x : WaitQueue, (f x).dirty = x.dirty ∧ (f x).transfers = x.transfers ∧
      (f x).holder = x.holder)
    (mark : ∀ x : WaitQueue, f x.mark = (f x).mark) :
    (g.modifyQueues queues f).invalidate n = (g.invalidate n).modifyQueues queues f := by
  induction queues generalizing g with
  | nil => rfl
  | cons q rest ih =>
    rw [modifyQueues_cons, ih, g.invalidate_modifyQueue n q read mark, modifyQueues_cons]

/-- Changes and walks that take turns, put in order. -/
theorem foldl_modifyQueue_invalidate (g : Graph) (queues : List Nat) {f : WaitQueue → WaitQueue}
    (read : ∀ x : WaitQueue, (f x).dirty = x.dirty ∧ (f x).transfers = x.transfers ∧
      (f x).holder = x.holder)
    (mark : ∀ x : WaitQueue, f x.mark = (f x).mark) :
    queues.foldl (fun g q => (g.modifyQueue q f).invalidate (.queue q)) g =
      (g.modifyQueues queues f).invalidateAll (queues.map .queue) := by
  induction queues generalizing g with
  | nil => rfl
  | cons q rest ih =>
    rw [List.foldl_cons, ih, List.map_cons, invalidateAll_cons, modifyQueues_cons,
      invalidate_modifyQueues _ _ _ read mark]

/-- Removes all ties of a task. -/
def cutOff (g : Graph) (t : Nat) : Graph :=
  ((g.modifyTask t Task.sever).modifyQueues (g.task t).held (·.releaseFrom t)).modifyQueues
    (g.task t).awaiting (·.dequeue t)

/-- Gives back the slot of a task. -/
def dismiss (g : Graph) (t : Nat) (id : TaskId) : Graph :=
  let g := g.modifyTask t Task.clean
  { g with tasks := g.tasks.release t, index := g.index.erase id }

theorem retire_eq (g : Graph) (t : Nat) :
    retire t g = (((g.task t).held.length, (g.task t).awaiting.length),
      ((g.cutOff t).invalidateAll ((g.task t).awaiting.map .queue)).dismiss t (g.task t).id) := by
  have hfold := foldl_modifyQueue_invalidate
    ((g.modifyTask t Task.sever).modifyQueues (g.task t).held (·.releaseFrom t))
    (g.task t).awaiting (f := (·.dequeue t)) (fun _ => ⟨rfl, rfl, rfl⟩) fun _ => rfl
  simp only [retire, dismiss, cutOff, ← hfold]
  rfl

theorem task_cutOff (ht : g.Tracked t) (t' : Nat) :
    (g.cutOff t).task t' = if t' = t then (g.task t).sever else g.task t' := by
  have htask : (g.cutOff t).task t' = (g.modifyTask t Task.sever).task t' := by
    simp only [cutOff, task, modifyQueues_frame]
  have hlt := ht.1
  rw [htask, task_modifyTask]
  grind

section CutOff

variable (c : g.Consistent)
include c

theorem queue_cutOff (t q : Nat) :
    (g.cutOff t).queue q = ((g.queue q).releaseFrom t).dequeue t := by
  have hheld : ∀ q ∈ (g.task t).held, q < (g.modifyTask t Task.sever).queues.size :=
    fun q hq => lt_of_live (c.held_inUse q t hq).2
  have hawaiting : ∀ q ∈ (g.task t).awaiting,
      q < ((g.modifyTask t Task.sever).modifyQueues (g.task t).held
        (·.releaseFrom t)).queues.size := by
    intro q hq
    rw [(modifyQueues_frame _ _ _).2.2.1]
    exact lt_of_live (c.awaiting_inUse q t hq).2
  rw [cutOff, queue_modifyQueues _ (c.awaiting_nodup t) hawaiting,
    queue_modifyQueues _ (c.held_nodup t) hheld, queue_modifyTask]
  have hrelease : q ∉ (g.task t).held → (g.queue q).releaseFrom t = g.queue q := by
    intro hq
    rw [WaitQueue.releaseFrom, if_neg fun h => hq ((c.holder_iff q t).mp h)]
  have hdequeue (queue : WaitQueue) (hsame : queue.waiters = (g.queue q).waiters)
      (hq : q ∉ (g.task t).awaiting) : queue.dequeue t = queue := by
    have hwaiters : queue.waiters.filter (· ≠ t) = queue.waiters := by
      refine List.filter_eq_self.mpr fun t' ht' => ?_
      have hne : t' ≠ t := by
        rintro rfl
        exact hq ((c.waiter_iff q t').mp (hsame ▸ ht'))
      simpa using hne
    rw [WaitQueue.dequeue, hwaiters]
  have hwaiters : ((g.queue q).releaseFrom t).waiters = (g.queue q).waiters := by
    rw [WaitQueue.releaseFrom]
    split <;> rfl
  grind

theorem holder_cutOff (t q t' : Nat) :
    ((g.cutOff t).queue q).holder = some t' ↔ (g.queue q).holder = some t' ∧ t' ≠ t := by
  rw [queue_cutOff c, WaitQueue.dequeue, WaitQueue.releaseFrom]
  grind [WaitQueue.withHolder]

theorem waiters_cutOff (t q : Nat) :
    ((g.cutOff t).queue q).waiters = (g.queue q).waiters.filter (· ≠ t) := by
  rw [queue_cutOff c, WaitQueue.dequeue, WaitQueue.releaseFrom]
  split <;> rfl

variable (ht : g.Tracked t)
include ht

theorem sameRoster_cutOff : SameRoster g (g.cutOff t) where
  index := by simp only [cutOff, modifyQueues_frame, modifyTask]
  taskSlots := by simp only [cutOff, modifyQueues_frame, modifyTask, Arena.size_modify]
  freeTasks := by simp only [cutOff, modifyQueues_frame, modifyTask, Arena.free_modify]
  queueSlots := by simp only [cutOff, modifyQueues_frame, modifyTask]
  freeQueues := by simp only [cutOff, modifyQueues_frame, modifyTask]
  id t' := by
    rw [task_cutOff ht]
    split
    · rename_i h
      rw [h, Task.sever]
    · rfl
  generation q := by
    rw [queue_cutOff c, WaitQueue.dequeue, WaitQueue.releaseFrom]
    split <;> rfl
  live q := by
    rw [queue_cutOff c, WaitQueue.dequeue, WaitQueue.releaseFrom]
    split <;> rfl
  transfers q := by
    rw [queue_cutOff c, WaitQueue.dequeue, WaitQueue.releaseFrom]
    split <;> rfl

theorem consistent_cutOff : (g.cutOff t).Consistent where
  toRostered := (sameRoster_cutOff c ht).rostered c.toRostered
  toTied := by
    have roster := sameRoster_cutOff c ht
    have htask := task_cutOff ht
    have held (q t' : Nat) :
        q ∈ ((g.cutOff t).task t').held ↔ q ∈ (g.task t').held ∧ t' ≠ t := by
      rw [htask]
      grind [Task.sever]
    have awaiting (q t' : Nat) :
        q ∈ ((g.cutOff t).task t').awaiting ↔ q ∈ (g.task t').awaiting ∧ t' ≠ t := by
      rw [htask]
      grind [Task.sever]
    refine ⟨?_, ?_, ?_, ?_, ?_, ?_, ?_, ?_⟩
    · intro q t'
      rw [holder_cutOff c, held, c.holder_iff]
    · intro q t'
      rw [waiters_cutOff c, awaiting, List.mem_filter, c.waiter_iff, decide_eq_true_eq]
    · intro q t' hq
      rw [roster.tracked, roster.live]
      exact c.held_inUse q t' ((held q t').mp hq).1
    · intro q t' hq
      rw [roster.tracked, roster.live]
      exact c.awaiting_inUse q t' ((awaiting q t').mp hq).1
    · intro t'
      rw [htask]
      split
      · exact List.nodup_nil
      · exact c.held_nodup t'
    · intro t'
      rw [htask]
      split
      · exact List.nodup_nil
      · exact c.awaiting_nodup t'
    · intro q
      rw [waiters_cutOff c]
      exact (c.waiters_nodup q).filter _
    · intro q t' hq hq'
      exact c.held_not_awaiting q t' ((held q t').mp hq).1 ((awaiting q t').mp hq').1

theorem alters_cutOff : g.Alters (g.cutOff t) ((g.task t).awaiting.map .queue) where
  consistent := consistent_cutOff c ht
  roster := sameRoster_cutOff c ht
  dirty n := by
    cases n with
    | task t' =>
      rw [dirty, dirty, task_cutOff ht]
      split
      · rename_i h
        rw [h, Task.sever]
      · rfl
    | queue q =>
      rw [dirty, dirty, queue_cutOff c, WaitQueue.dequeue, WaitQueue.releaseFrom]
      split <;> rfl
  cached n := by
    cases n with
    | task t' =>
      rw [cached, cached, task_cutOff ht]
      split
      · rename_i h
        rw [h, Task.sever]
      · rfl
    | queue q =>
      rw [cached, cached, queue_cutOff c, WaitQueue.dequeue, WaitQueue.releaseFrom]
      split <;> rfl
  inUse n hn := by
    obtain ⟨q, hq, rfl⟩ := List.mem_map.mp hn
    exact ((sameRoster_cutOff c ht).inUse _).mpr (c.awaiting_inUse q t hq).2
  fate n := by
    have hconducts := (sameRoster_cutOff c ht).conducts n
    cases n with
    | task t' =>
      have htask := task_cutOff ht t'
      by_cases h : t' = t
      · rw [if_pos h] at htask
        refine Or.inr (Or.inl ⟨by simp [caches, htask, Task.sever], fun m hm => ?_⟩)
        rw [← (consistent_cutOff c ht).gives_eq_feeds] at hm
        simp [Gives, beneficiaries, htask, Task.sever] at hm
      · rw [if_neg h] at htask
        refine Or.inr (Or.inr ⟨?_, ?_, fun floor => ?_⟩)
        · simp only [sources, hconducts, donors, htask]
        · simp only [caches, htask]
        · simp only [seed, htask]
    | queue q =>
      by_cases hq : q ∈ (g.task t).awaiting ∧ (g.queue q).transfers = true
      · exact Or.inl ⟨List.mem_map_of_mem hq.1, hq.2⟩
      refine Or.inr (Or.inr ⟨?_, hconducts, fun _ => rfl⟩)
      by_cases hc : (g.queue q).transfers = true
      · -- the task does not wait here, so that nobody is taken out of the queue
        have hwaiters : ((g.cutOff t).queue q).waiters = (g.queue q).waiters := by
          rw [waiters_cutOff c]
          refine List.filter_eq_self.mpr fun t' ht' => decide_eq_true ?_
          rintro rfl
          exact hq ⟨(c.waiter_iff q t').mp ht', hc⟩
        simp only [sources, hconducts, donors, hwaiters]
      · have hblocked : g.conducts (.queue q) = false := by simpa [conducts] using hc
        simp only [sources, hconducts, hblocked, Bool.false_eq_true, if_false]

end CutOff

section Dismiss

variable {id : TaskId}

theorem task_dismiss (ht : g.Tracked t) (t' : Nat) :
    (g.dismiss t id).task t' = if t' = t then (g.task t).clean else g.task t' := by
  change (g.modifyTask t Task.clean).task t' = _
  have hlt := ht.1
  rw [task_modifyTask]
  grind

theorem tracked_dismiss (t' : Nat) :
    (g.dismiss t id).Tracked t' ↔ g.Tracked t' ∧ t' ≠ t := by
  have hsize : (g.dismiss t id).tasks.size = g.tasks.size :=
    Arena.size_modify g.tasks t Task.clean
  have hfree : (g.dismiss t id).tasks.free = t :: g.tasks.free := rfl
  rw [Tracked, Tracked, hsize, hfree]
  grind

theorem lookup?_dismiss (id' : TaskId) :
    (g.dismiss t id).lookup? id' = if id' = id then none else g.lookup? id' := by
  change (g.index.erase id)[id']? = _
  rw [Std.TreeMap.getElem?_erase]
  simp only [Std.LawfulEqOrd.compare_eq_iff_eq, eq_comm (a := id), lookup?]

theorem rostered_dismiss (c : g.Rostered) (ht : g.Tracked t) (hid : (g.task t).id = id) :
    (g.dismiss t id).Rostered where
  lookup_iff id' t' := by
    have htask : (g.dismiss t id).task t' = _ := task_dismiss ht t'
    have hold := c.lookup_iff id' t'
    have hself := c.lookup_iff id t
    rw [lookup?_dismiss, tracked_dismiss, htask]
    grind [Task.clean]
  freeTasks_nodup := List.nodup_cons.mpr ⟨ht.2, c.freeTasks_nodup⟩
  freeTasks_lt t' ht' := by
    have hsize : (g.dismiss t id).tasks.size = g.tasks.size :=
      Arena.size_modify g.tasks t Task.clean
    rw [hsize]
    rcases List.mem_cons.mp ht' with rfl | ht'
    · exact ht.1
    · exact c.freeTasks_lt t' ht'
  freeQueues_nodup := c.freeQueues_nodup
  mem_freeQueues := c.mem_freeQueues

section Untied

variable (ht : g.Tracked t) (hheld : (g.task t).held = []) (hawaiting : (g.task t).awaiting = [])
include ht hheld hawaiting

theorem isolates_dismiss (floor : Priority) (id : TaskId) :
    Isolates floor g (.task t) (g.dismiss t id) := by
  have htask (t' : Nat) : (g.dismiss t id).task t' =
      if t' = t then (g.task t).clean else g.task t' := task_dismiss ht t'
  have hne {t' : Nat} (ht' : Node.task t' ≠ .task t) : t' ≠ t := fun h => ht' (h ▸ rfl)
  refine ⟨?_, fun _ _ => rfl, ?_, ?_, ?_, ?_, ?_, ?_⟩
  · intro t' ht'
    rw [htask, if_neg (hne ht')]
  · intro n hn
    cases n with
    | task t' => simp [InUse, tracked_dismiss, hne hn]
    | queue q => exact Iff.rfl
  · simp [donors, hheld]
  · simp [beneficiaries, hawaiting]
  · simp [donors, htask, Task.clean, hheld]
  · simp [dirty, htask, Task.clean]
  · intro hu
    exact absurd rfl ((tracked_dismiss t).mp hu).2

theorem Coherent.dismiss (c : g.Coherent bounds) (hid : (g.task t).id = id) :
    (g.dismiss t id).Coherent bounds := by
  have htask (t' : Nat) : (g.dismiss t id).task t' =
      if t' = t then (g.task t).clean else g.task t' := task_dismiss ht t'
  have tied : (g.dismiss t id).Tied := by
    refine c.toTied.transport ?_ ?_ (fun _ => rfl) (fun _ => rfl) ?_
    · intro t'
      rw [htask]
      grind [Task.clean]
    · intro t'
      rw [htask]
      grind [Task.clean]
    · intro q t' hq
      rw [tracked_dismiss]
      refine ⟨⟨(c.inUse_of_tie hq).1, ?_⟩, (c.inUse_of_tie hq).2⟩
      rintro rfl
      simp [hheld, hawaiting] at hq
  refine c.isolates (isolates_dismiss ht hheld hawaiting _ id)
    ⟨rostered_dismiss c.toRostered ht hid, tied⟩ fun t' ht' => ?_
  obtain ⟨ht', hne'⟩ := (tracked_dismiss t').mp ht'
  rw [htask, if_neg hne']
  exact c.bases t' ht'

end Untied

end Dismiss

/-- The graph once a task is cut off and what it awaited is marked. -/
def severed (g : Graph) (t : Nat) : Graph :=
  (g.cutOff t).invalidateAll ((g.task t).awaiting.map .queue)

theorem retire_severed (g : Graph) (t : Nat) :
    (retire t g).2 = (g.severed t).dismiss t (g.task t).id := by
  rw [retire_eq]
  rfl

theorem sameTies_severed (g : Graph) (t : Nat) : SameTies (g.cutOff t) (g.severed t) :=
  (g.cutOff t).sameTies_invalidateAll _

section Severed

variable (c : g.Coherent bounds) (ht : g.Tracked t)
include ht

theorem tracked_severed (c : g.Consistent) : (g.severed t).Tracked t :=
  ((g.sameTies_severed t).tracked t).mpr (((sameRoster_cutOff c ht).tracked t).mpr ht)

theorem task_severed : ((g.severed t).task t).id = (g.task t).id ∧
    ((g.severed t).task t).held = [] ∧ ((g.severed t).task t).awaiting = [] := by
  have ties := g.sameTies_severed t
  have htask : (g.cutOff t).task t = (g.task t).sever := by rw [task_cutOff ht, if_pos rfl]
  rw [ties.id, ties.held, ties.awaiting, htask]
  exact ⟨rfl, rfl, rfl⟩

include c

theorem Coherent.severed : (g.severed t).Coherent bounds := by
  refine c.alters (alters_cutOff c.toConsistent ht) fun t' ht' => ?_
  rw [task_cutOff ht]
  split
  · exact c.bases t ht
  · exact c.bases t' ht'

theorem Coherent.severed_feltDownstream : FeltDownstream bounds.lowest g (g.severed t) :=
  c.alters_feltDownstream (alters_cutOff c.toConsistent ht)

theorem isolates_retire :
    Isolates bounds.lowest (g.severed t) (.task t) (retire t g).2 := by
  obtain ⟨-, hheld, hawaiting⟩ := task_severed ht
  rw [retire_severed]
  exact isolates_dismiss (tracked_severed ht c.toConsistent) hheld hawaiting _ _

theorem Coherent.retire : (retire t g).2.Coherent bounds := by
  obtain ⟨hid, hheld, hawaiting⟩ := task_severed ht
  rw [retire_severed]
  exact Coherent.dismiss (tracked_severed ht c.toConsistent) hheld hawaiting (c.severed ht) hid

end Severed

end Graph

end PriorityDonation
