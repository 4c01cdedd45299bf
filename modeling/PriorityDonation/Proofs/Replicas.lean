import PriorityDonation.Proofs.DonationValues

/-!
# Graphs that differ in their caches only

No transition reads a cache or a flag, except to pick a waiter. So graphs with the same ties still
have the same ties after the same transition, although different nodes are marked on the way. What
evaluation answers does depend on the caches, but where no task donates to itself the clean nodes of
both graphs show the one solution of the same equations.
-/

namespace PriorityDonation

namespace Arena

variable {α : Type} [Inhabited α] {arena other : Arena α}

theorem get_allocate (arena : Arena α) (make : Option α → α) (slot : Nat) :
    (allocate make arena).2.get slot =
      if slot = (allocate make arena).1 ∧ slot < (allocate make arena).2.size then
        make (if arena.free = [] then none else some (arena.get slot))
      else arena.get slot := by
  obtain ⟨slots, _ | ⟨first, free⟩⟩ := arena
  · simp only [allocate, get_eq, size, Array.getElem?_push, Array.size_push]
    by_cases hslot : slot = slots.size <;> simp [hslot]
  · have hmodify := get_modify ⟨slots, free⟩ first slot (make ∘ some)
    simp only [modify, get_eq, size] at hmodify
    simp only [allocate, get_eq, size, Array.size_modify, hmodify, eq_comm (a := first)]
    rfl

/-- Arenas whose records look alike still do so when a slot is taken into use. -/
theorem allocate_alike (look : α → α) (make : Option α → α) (size : other.size = arena.size)
    (free : other.free = arena.free) (get : ∀ slot, look (other.get slot) = look (arena.get slot))
    (hmake : ∀ x y : Option α, y.map look = x.map look → look (make y) = look (make x)) :
    (allocate make other).1 = (allocate make arena).1 ∧
      (allocate make other).2.size = (allocate make arena).2.size ∧
      (allocate make other).2.free = (allocate make arena).2.free ∧
      ∀ slot, look ((allocate make other).2.get slot) =
        look ((allocate make arena).2.get slot) := by
  have shape : (allocate make other).1 = (allocate make arena).1 ∧
      (allocate make other).2.size = (allocate make arena).2.size ∧
      (allocate make other).2.free = (allocate make arena).2.free := by
    obtain ⟨slots, free⟩ := arena
    obtain ⟨slots', free'⟩ := other
    simp only [Arena.size] at size free
    obtain rfl := free
    cases free' <;> simp [allocate, Arena.size, size]
  obtain ⟨hslot, hsize, hfree⟩ := shape
  refine ⟨hslot, hsize, hfree, fun slot => ?_⟩
  rw [get_allocate, get_allocate, hslot, hsize, free]
  split
  · refine hmake _ _ ?_
    split <;> simp [get]
  · exact get slot

end Arena

namespace Graph

variable {g h : Graph} {q t : Nat}

namespace SameTies

variable (a : SameTies g h)
include a

/-- What keeps the ties in each of two graphs. -/
theorem congr {g' h' : Graph} (b : SameTies g g') (b' : SameTies h h') : SameTies g' h' :=
  (b.symm.trans a).trans b'

theorem modifyTask (t : Nat) {f : Task → Task} (hf : ∀ x : Task, (f x).bare = (f x.bare).bare) :
    SameTies (g.modifyTask t f) (h.modifyTask t f) where
  index := a.index
  taskSlots := by simp [Graph.modifyTask, a.taskSlots]
  freeTasks := a.freeTasks
  queueSlots := a.queueSlots
  freeQueues := a.freeQueues
  task t' := by
    simp only [task_modifyTask, a.taskSlots]
    split
    · rw [hf, a.task, ← hf]
    · exact a.task t'
  queue q := a.queue q

theorem modifyQueue (q : Nat) {f : WaitQueue → WaitQueue}
    (hf : ∀ x : WaitQueue, (f x).bare = (f x.bare).bare) :
    SameTies (g.modifyQueue q f) (h.modifyQueue q f) where
  index := a.index
  taskSlots := a.taskSlots
  freeTasks := a.freeTasks
  queueSlots := by simp [Graph.modifyQueue, a.queueSlots]
  freeQueues := a.freeQueues
  task t := a.task t
  queue q' := by
    simp only [queue_modifyQueue, a.queueSlots]
    split
    · rw [hf, a.queue, ← hf]
    · exact a.queue q'

theorem invalidate (n : Node) : SameTies (g.invalidate n) (h.invalidate n) :=
  a.congr (g.sameTies_invalidate n) (h.sameTies_invalidate n)

theorem count (f : Counters → Counters) : SameTies (g.count f) (h.count f) :=
  a.congr (g.sameTies_count f) (h.sameTies_count f)

theorem clearHolder (q : Nat) : SameTies (g.clearHolder q) (h.clearHolder q) := by
  unfold Graph.clearHolder
  rw [a.holder]
  split
  · exact a
  · exact ((a.modifyQueue q fun _ => rfl).modifyTask _ fun _ => rfl).invalidate _

theorem enqueue (q t : Nat) : SameTies (g.enqueue q t) (h.enqueue q t) := by
  unfold Graph.enqueue
  rw [a.holder]
  split
  · exact (((a.clearHolder q).modifyQueue q fun _ => rfl).modifyTask t fun _ => rfl).invalidate _
  · exact ((a.modifyQueue q fun _ => rfl).modifyTask t fun _ => rfl).invalidate _

theorem dequeue (q t : Nat) : SameTies (g.dequeue q t) (h.dequeue q t) :=
  ((a.modifyQueue q fun _ => rfl).modifyTask t fun _ => rfl).invalidate _

theorem ite {p : Prop} [Decidable p] {g' h' : Graph} (b : SameTies g' h') :
    SameTies (if p then g else g') (if p then h else h') := by
  split
  · exact a
  · exact b

theorem setHolder (q t : Nat) : SameTies (g.setHolder q t) (h.setHolder q t) := by
  have b := (a.dequeue q t).ite (p := t ∈ (g.queue q).waiters) a
  unfold Graph.setHolder
  simp only [a.waiters]
  have b' := b.ite (p := ((if t ∈ (g.queue q).waiters then g.dequeue q t else g).queue q).holder =
    some t) (b.clearHolder q)
  simp only [b.holder]
  exact ((b'.modifyQueue q fun _ => rfl).modifyTask t fun _ => rfl).invalidate _

theorem setBase (t : Nat) (base : Priority) : SameTies (g.setBase t base) (h.setBase t base) := by
  unfold Graph.setBase
  rw [a.base]
  exact a.ite ((a.modifyTask t fun _ => rfl).invalidate _)

theorem destroyQueue (q : Nat) : SameTies (g.destroyQueue q) (h.destroyQueue q) := by
  have b := (a.clearHolder q).modifyQueue q (f := WaitQueue.destroy) fun _ => rfl
  exact ⟨b.index, b.taskSlots, b.freeTasks, b.queueSlots, congrArg (q :: ·) b.freeQueues, b.task,
    b.queue⟩

theorem foldl {α : Type} (l : List α) {f : Graph → α → Graph}
    (hf : ∀ (x : α) {g h : Graph}, SameTies g h → SameTies (f g x) (f h x)) :
    SameTies (l.foldl f g) (l.foldl f h) := by
  induction l generalizing g h with
  | nil => exact a
  | cons x rest ih => exact ih (hf x a)

theorem retire (t : Nat) : SameTies (Graph.retire t g).2 (Graph.retire t h).2 := by
  have severed := a.modifyTask t (f := Task.sever) fun _ => rfl
  have released := severed.foldl (g.task t).held (f := fun g q => g.modifyQueue q (·.releaseFrom t))
    fun q _ _ b => b.modifyQueue q fun x => by
      unfold WaitQueue.releaseFrom
      split <;> simp_all [WaitQueue.bare, WaitQueue.withHolder]
  have left := released.foldl (g.task t).awaiting
    (f := fun g q => (g.modifyQueue q (·.dequeue t)).invalidate (.queue q))
    fun q _ _ b => (b.modifyQueue q fun _ => rfl).invalidate _
  have cleaned := left.modifyTask t (f := Task.clean) fun _ => rfl
  unfold Graph.retire
  simp only [a.held, a.awaiting, a.id]
  exact ⟨congrArg (·.erase (g.task t).id) cleaned.index, cleaned.taskSlots,
    congrArg (t :: ·) cleaned.freeTasks, cleaned.queueSlots, cleaned.freeQueues, cleaned.task,
    cleaned.queue⟩

theorem attach (id : TaskId) (base : Priority) :
    (Graph.attach id base h).1 = (Graph.attach id base g).1 ∧
      SameTies (Graph.attach id base g).2 (Graph.attach id base h).2 := by
  have taken := Arena.allocate_alike Task.bare (fun _ => .fresh id base) a.taskSlots a.freeTasks
    a.task fun _ _ _ => rfl
  unfold Graph.attach
  rw [a.lookup?]
  cases g.lookup? id with
  | some slot => exact ⟨rfl, a⟩
  | none =>
    generalize Arena.allocate (fun _ => Task.fresh id base) g.tasks = first at taken ⊢
    generalize Arena.allocate (fun _ => Task.fresh id base) h.tasks = second at taken ⊢
    obtain ⟨hslot, hsize, hfree, hget⟩ := taken
    refine ⟨hslot, ?_, hsize, hfree, a.queueSlots, a.freeQueues, hget, a.queue⟩
    change h.index.insert id second.1 = g.index.insert id first.1
    rw [hslot, a.index]

theorem createQueue (transfers : Bool) (floor : Priority) :
    (Graph.createQueue transfers floor h).1 = (Graph.createQueue transfers floor g).1 ∧
      SameTies (Graph.createQueue transfers floor g).2 (Graph.createQueue transfers floor h).2 := by
  have taken := Arena.allocate_alike WaitQueue.bare
    (fun earlier => .fresh (earlier.elim 0 (·.generation + 1)) transfers floor)
    a.queueSlots a.freeQueues a.queue ?_
  · unfold Graph.createQueue
    generalize Arena.allocate (fun earlier : Option WaitQueue =>
      .fresh (earlier.elim 0 (·.generation + 1)) transfers floor) g.queues = first at taken ⊢
    generalize Arena.allocate (fun earlier : Option WaitQueue =>
      .fresh (earlier.elim 0 (·.generation + 1)) transfers floor) h.queues = second at taken ⊢
    obtain ⟨hslot, hsize, hfree, hget⟩ := taken
    refine ⟨?_, a.index, a.taskSlots, a.freeTasks, hsize, hfree, a.task, hget⟩
    have hgeneration := congrArg WaitQueue.generation (hget first.1)
    change QueueHandle.mk second.1 (second.2.get second.1).generation = _
    rw [hslot]
    exact congrArg (QueueHandle.mk first.1) hgeneration
  · -- the generation of the earlier queue is no part of its cache
    rintro (_ | x) (_ | y) hxy
    · rfl
    · cases hxy
    · cases hxy
    · have hgeneration := congrArg WaitQueue.generation (Option.some.inj hxy)
      simp only [WaitQueue.bare] at hgeneration
      simp [WaitQueue.fresh, hgeneration]

end SameTies

/-- No task donates to itself. -/
def CirclesNowhere (g : Graph) : Prop := g.CircleFree fun _ => True

variable {bounds : Bounds} {n : Node} {nodes : List Node}

theorem SameTies.circlesNowhere (a : SameTies g h) : h.CirclesNowhere ↔ g.CirclesNowhere :=
  a.circleFree _

theorem CirclesNowhere.acyclicAbove (hfree : g.CirclesNowhere) (c : g.Consistent) (n : Node) :
    g.AcyclicAbove n := by
  have task (t : Nat) : g.AcyclicAbove (.task t) :=
    acyclicAbove_of_circleFree c fun w _ => hfree w trivial
  cases n with
  | task t => exact task t
  | queue q =>
    refine acyclicAbove_of_feeders fun m hm => ?_
    obtain ⟨w, _, rfl⟩ := List.mem_map.mp hm.2
    exact task w

section Unique

variable (a : SameTies g h) (c : g.Coherent bounds) (ch : h.Coherent bounds)
  (hfree : g.CirclesNowhere)
include c

theorem shown_above (ht : g.Tracked t) (hd : g.dirty (.task t) = false) (hfree : g.CirclesNowhere) :
    g.UniqueSolution bounds.lowest (g.Above · t) (g.shown bounds.lowest) := by
  refine shown_solution c _ (fun w _ => hfree w trivial) (g.closed_above t)
    (fun w hw => tracked_of_above c.toConsistent ht hw) fun w hw => ?_
  by_contra hw'
  rw [Bool.not_eq_false] at hw'
  simp [c.closed.upstream (upstream_of_above c.toConsistent hw) hw'] at hd

include a ch hfree

theorem SameTies.shown_eq (ht : g.Tracked t) (hd : g.dirty (.task t) = false)
    (hd' : h.dirty (.task t) = false) : h.shown bounds.lowest t = g.shown bounds.lowest t := by
  have first := shown_above c ht hd hfree
  have second := a.uniqueSolution
    (shown_above ch ((a.tracked t).mpr ht) hd' (a.circlesNowhere.mpr hfree))
  have hsolves (w : Nat) (hw : g.Above w t) : g.Solves bounds.lowest (h.shown bounds.lowest) w := by
    refine second.solves w ?_
    rw [Above, a.donatesTo]
    exact hw
  exact first.unique _ hsolves t .refl

/-- What is clean in both graphs shows the same priority in both. -/
theorem SameTies.value_of_clean (hu : g.InUse n) (hd : g.dirty n = false)
    (hd' : h.dirty n = false) : h.value bounds.lowest n = g.value bounds.lowest n := by
  cases n with
  | task t => exact a.shown_eq c ch hfree hu hd hd'
  | queue q =>
    have hfree' := a.circlesNowhere.mpr hfree
    rw [value_queue c hu hd (hfree.acyclicAbove c.toConsistent _),
      value_queue ch ((a.inUse _).mpr hu) hd' (hfree'.acyclicAbove ch.toConsistent _), a.donation]
    unfold Graph.donation
    split
    · rename_i hc
      congr 1
      refine List.map_congr_left fun w hw => ?_
      have hf : g.Feeds (.task w) (.queue q) := ⟨hc, List.mem_map_of_mem hw⟩
      exact a.shown_eq c ch hfree (c.tracked_of_waiter hw) (clean_of_feeds c hf hd)
        (clean_of_feeds ch (a.feeds ▸ hf) hd')
    · rfl

/-- Evaluation gives the same answers in both graphs. -/
theorem SameTies.priorities_eq {g' h' : Graph} {priorities others : List Priority}
    (he : Evaluates bounds.lowest g nodes priorities g')
    (he' : Evaluates bounds.lowest h nodes others h') (hu : ∀ n ∈ nodes, g.InUse n) :
    others = priorities := by
  have ties := a.congr he.sameTies he'.sameTies
  rw [he.answers, he'.answers]
  refine List.map_congr_left fun n hn => ?_
  refine ties.value_of_clean (c.evaluates he) (ch.evaluates he')
    (he.sameTies.circlesNowhere.mpr hfree) ((he.sameTies.inUse n).mpr (hu n hn)) ?_ ?_
  · exact he.clean_of_flags (fun m hm => (c.flags m hm).1) hn
  · exact he'.clean_of_flags (fun m hm => (ch.flags m hm).1) hn

theorem SameTies.evaluate_eq (hu : g.InUse n) :
    (evaluate bounds.lowest n h).1 = (evaluate bounds.lowest n g).1 := by
  have h := a.priorities_eq c ch hfree (evaluate_evaluates bounds.lowest n g)
    (evaluate_evaluates bounds.lowest n h) (by simpa using hu)
  exact (List.cons.inj h).1

theorem SameTies.pick_eq (q : Nat) :
    (pick bounds.lowest q h).1 = (pick bounds.lowest q g).1 := by
  obtain ⟨priorities, g', he, hpick⟩ := pick_evaluates bounds.lowest q g
  obtain ⟨others, h', he', hpick'⟩ := pick_evaluates bounds.lowest q h
  rw [a.waiters] at he'
  have hsame := a.priorities_eq c ch hfree he he' fun n hn => by
    obtain ⟨t, ht, rfl⟩ := List.mem_map.mp hn
    exact c.tracked_of_waiter ht
  rw [hpick, hpick', a.waiters, hsame]

end Unique

end Graph

end PriorityDonation
