import PriorityDonation.Proofs.Ledger

/-!
# What pays for rebuilds

A rebuild takes a dirty flag down, and every flag was put up by a walk that counted an invalidation
for it. Flags also come down for nothing: when a task without queues answers, when a task retires,
and when a queue is destroyed or a slot is used again. So the rebuilds and the flags still up
together never outgrow the invalidations. A reset of the counters leaves the flags alone, and those
that are up at that moment pay for as many rebuilds afterwards.

A task is lifted only where its rebuild is finished, and each rebuild that was begun is finished
once, also on a circle, where a task may be finished while the rebuild that led to it is under way.
-/

namespace PriorityDonation

/-- The number of dirty flags that are up, in use or not. -/
def Graph.flags (g : Graph) : Nat :=
  g.tasks.total (·.dirty.toNat) + g.queues.total (·.dirty.toNat)

/-- The number of tasks that a node is. -/
def Node.tasks : Node → Nat
  | .task _ => 1
  | .queue _ => 0

/-- On the way from one graph to another, invalidations paid for rebuilds and for flags, task
rebuilds paid for donations, and so many queues were handed over. -/
structure Graph.Pays (g : Graph) (handoffs : Nat) (h : Graph) : Prop where
  rebuilds : g.counters.invalidations + (h.counters.rebuilds + h.flags) ≤
    h.counters.invalidations + (g.counters.rebuilds + g.flags)
  donations : g.counters.taskRebuilds + h.counters.donations ≤
    h.counters.taskRebuilds + g.counters.donations
  handoffs : h.counters.handoffs = g.counters.handoffs + handoffs

/-- Whether a command handed a queue over to a waiter, going by its answer. -/
def Command.handsOver : Command → Except Fault Reply → Bool
  | .perform (.nextThread _), .ok (.task (some _)) => true
  | _, _ => false

/-- The number of times that a queue was handed over in a run. -/
def handovers (transcript : List (Command × Except Fault Reply)) : Nat :=
  transcript.countP fun entry => entry.1.handsOver entry.2

namespace Arena

variable {α : Type} [Inhabited α] (arena : Arena α) (weight : α → Nat) (h : weight default = 0)
include h

/-- Where there is no slot, nothing is changed and the default record weighs nothing. -/
theorem total_modify_le (slot : Nat) (f : α → α) :
    (arena.modify slot f).total weight + weight (arena.get slot) ≤
      arena.total weight + weight (f (arena.get slot)) := by
  by_cases hslot : slot < arena.size
  · exact Nat.le_of_eq (arena.total_modify weight f hslot)
  · have hle := Nat.le_of_not_lt hslot
    rw [arena.total_modify_of_size_le weight f hle, get_of_size_le hle, h]
    omega

theorem total_allocate_le (make : Option α → α) (hmake : ∀ earlier, weight (make earlier) = 0) :
    (allocate make arena).2.total weight ≤ arena.total weight := by
  obtain ⟨slots, _ | ⟨slot, free⟩⟩ := arena
  · simp [allocate, total_eq, hmake]
  · have hmodify := total_modify_le ⟨slots, free⟩ weight h slot (make ∘ some)
    rw [Function.comp_apply, hmake] at hmodify
    change (modify ⟨slots, free⟩ slot (make ∘ some)).total weight ≤ (mk slots free).total weight
    omega

end Arena

namespace Graph

variable {bounds : Bounds} {g h k : Graph} {floor : Priority} {n : Node} {q t : Nat}

theorem flags_modifyTask (g : Graph) (t : Nat) (f : Task → Task) :
    (g.modifyTask t f).flags + (g.task t).dirty.toNat ≤
      g.flags + (f (g.task t)).dirty.toNat := by
  have hmodify := g.tasks.total_modify_le (·.dirty.toNat) rfl t f
  change (g.tasks.modify t f).total _ + g.queues.total _ + _ ≤ _
  rw [flags, task]
  omega

theorem flags_modifyQueue (g : Graph) (q : Nat) (f : WaitQueue → WaitQueue) :
    (g.modifyQueue q f).flags + (g.queue q).dirty.toNat ≤
      g.flags + (f (g.queue q)).dirty.toNat := by
  have hmodify := g.queues.total_modify_le (·.dirty.toNat) rfl q f
  change g.tasks.total _ + (g.queues.modify q f).total _ + _ ≤ _
  rw [flags, queue]
  omega

/-- No flag goes up where a record is changed otherwise. -/
theorem flags_modifyTask_le (g : Graph) (t : Nat) {f : Task → Task}
    (hf : (f (g.task t)).dirty.toNat ≤ (g.task t).dirty.toNat) :
    (g.modifyTask t f).flags ≤ g.flags := by
  have hflags := g.flags_modifyTask t f
  omega

theorem flags_modifyQueue_le (g : Graph) (q : Nat) {f : WaitQueue → WaitQueue}
    (hf : (f (g.queue q)).dirty.toNat ≤ (g.queue q).dirty.toNat) :
    (g.modifyQueue q f).flags ≤ g.flags := by
  have hflags := g.flags_modifyQueue q f
  omega

theorem flags_modifyQueues_le (g : Graph) (queues : List Nat) {f : WaitQueue → WaitQueue}
    (hf : ∀ x, (f x).dirty = x.dirty) : (g.modifyQueues queues f).flags ≤ g.flags := by
  induction queues generalizing g with
  | nil => exact Nat.le_refl _
  | cons q rest ih =>
    rw [modifyQueues_cons]
    exact Nat.le_trans (ih _) (g.flags_modifyQueue_le q (Nat.le_of_eq (by rw [hf])))

theorem counters_modifyQueues (g : Graph) (queues : List Nat) (f : WaitQueue → WaitQueue) :
    (g.modifyQueues queues f).counters = g.counters := by
  induction queues generalizing g with
  | nil => rfl
  | cons q rest ih => exact ih _

theorem flags_mark {g : Graph} (hm : g.markable n = true) : (g.mark n).flags ≤ g.flags + 1 := by
  cases n with
  | task t =>
    have hflags := g.flags_modifyTask t Task.mark
    change (g.modifyTask t Task.mark).flags ≤ _
    have hone : (g.task t).mark.dirty.toNat = 1 := rfl
    omega
  | queue q =>
    have hflags := g.flags_modifyQueue q WaitQueue.mark
    change (g.modifyQueue q WaitQueue.mark).flags ≤ _
    have hone : (g.queue q).mark.dirty.toNat = 1 := rfl
    omega

namespace Pays

theorem refl (g : Graph) : g.Pays 0 g := ⟨Nat.le_refl _, Nat.le_refl _, rfl⟩

theorem trans {a b : Nat} (first : g.Pays a h) (second : h.Pays b k) : g.Pays (a + b) k := by
  obtain ⟨hrebuilds, hdonations, hhandoffs⟩ := first
  obtain ⟨krebuilds, kdonations, khandoffs⟩ := second
  exact ⟨by omega, by omega, by omega⟩

theorem of_flags (counters : h.counters = g.counters) (flags : h.flags ≤ g.flags) : g.Pays 0 h := by
  refine ⟨?_, Nat.le_of_eq (by rw [counters]), by rw [counters, Nat.add_zero]⟩
  rw [counters]
  omega

end Pays

theorem pays_mark (hm : g.markable n = true) : g.Pays 0 (g.mark n) := by
  have hflags := flags_mark hm
  have hcounters := g.counters_mark n
  refine ⟨?_, Nat.le_of_eq (by simp only [hcounters]), by simp only [hcounters, Nat.add_zero]⟩
  simp only [hcounters, Counters.rebuilds]
  omega

theorem pays_invalidate (g : Graph) (n : Node) : g.Pays 0 (g.invalidate n) := by
  refine invalidate_induction (g := g) (Q := fun m => g.Pays 0 m.graph) ?_ (.refl g)
  rintro ⟨g', _ | ⟨m, pending⟩⟩ m' hm hstep
  · simp [Marking.step] at hstep
  · simp only [Marking.step] at hstep
    split at hstep
    · rename_i hmarkable
      cases hstep
      exact hm.trans (pays_mark hmarkable)
    · cases hstep
      exact hm

theorem pays_invalidateAll (g : Graph) (nodes : List Node) : g.Pays 0 (g.invalidateAll nodes) := by
  induction nodes generalizing g with
  | nil => exact .refl g
  | cons n rest ih =>
    rw [invalidateAll_cons]
    exact (g.pays_invalidate n).trans (ih _)

theorem pays_retie (g : Graph) (q t : Nat) {f : WaitQueue → WaitQueue} {f' : Task → Task}
    (hf : ∀ x, (f x).dirty = x.dirty) (hf' : ∀ x, (f' x).dirty = x.dirty) :
    g.Pays 0 (g.retie q t f f') := by
  refine .of_flags rfl ?_
  have hqueue := g.flags_modifyQueue_le q (f := f) (Nat.le_of_eq (by rw [hf]))
  refine Nat.le_trans ?_ hqueue
  exact (g.modifyQueue q f).flags_modifyTask_le t (Nat.le_of_eq (by rw [hf']))

theorem Edit.pays {e : Graph} (he : g.Edit bounds e n) : g.Pays 0 e := by
  cases he with
  | drop | join | leave | take => exact g.pays_retie _ _ (fun _ => rfl) fun _ => rfl
  | rebase => exact .of_flags rfl (g.flags_modifyTask_le _ (Nat.le_refl _))

theorem pays_attach (g : Graph) (id : TaskId) (base : Priority) :
    g.Pays 0 (attach id base g).2 := by
  unfold attach
  split
  · exact .refl g
  · have htotal := g.tasks.total_allocate_le (·.dirty.toNat) rfl (fun _ => .fresh id base)
      fun _ => rfl
    exact .of_flags rfl (Nat.add_le_add_right htotal _)

theorem pays_createQueue (g : Graph) (transfers : Bool) (floor : Priority) :
    g.Pays 0 (createQueue transfers floor g).2 := by
  have htotal := g.queues.total_allocate_le (·.dirty.toNat) rfl
    (fun earlier => .fresh (earlier.elim 0 (·.generation + 1)) transfers floor) fun _ => rfl
  exact .of_flags rfl (Nat.add_le_add_left htotal _)

theorem pays_discard (g : Graph) (q : Nat) : g.Pays 0 (g.discard q) :=
  .of_flags rfl (g.flags_modifyQueue_le q (f := WaitQueue.destroy) (Nat.zero_le _))

theorem pays_cutOff (g : Graph) (t : Nat) : g.Pays 0 (g.cutOff t) := by
  have hrelease (x : WaitQueue) : (x.releaseFrom t).dirty = x.dirty := by
    unfold WaitQueue.releaseFrom
    split <;> rfl
  refine .of_flags ?_ ?_
  · simp only [cutOff, counters_modifyQueues]
    rfl
  · have hsever := g.flags_modifyTask_le t (f := Task.sever) (Nat.le_refl _)
    have hheld := (g.modifyTask t Task.sever).flags_modifyQueues_le (g.task t).held hrelease
    exact Nat.le_trans (flags_modifyQueues_le _ _ fun _ => rfl) (Nat.le_trans hheld hsever)

theorem pays_retire (g : Graph) (t : Nat) : g.Pays 0 (retire t g).2 := by
  rw [retire_severed]
  have hsevered := (g.pays_cutOff t).trans (pays_invalidateAll _ ((g.task t).awaiting.map .queue))
  have hdismiss : (g.severed t).Pays 0 ((g.severed t).dismiss t (g.task t).id) :=
    .of_flags rfl ((g.severed t).flags_modifyTask_le t (f := Task.clean) (Nat.zero_le _))
  exact hsevered.trans hdismiss

theorem pays_visit_known {priority : Priority} (hv : g.visit floor n = (.known priority, h)) :
    g.Pays 0 h := by
  cases n with
  | task t =>
    simp only [visit] at hv
    split at hv
    · cases hv
      exact .of_flags rfl (g.flags_modifyTask_le t (f := Task.settle) (Nat.zero_le _))
    · split at hv <;> cases hv
      exact .refl g
  | queue q =>
    simp only [visit] at hv
    split at hv
    · cases hv
      exact .refl g
    · split at hv <;> cases hv
      exact .refl g

/-- A rebuild that begins takes a flag down. -/
theorem flags_visit_rebuild {frame : Frame} (hv : g.visit floor n = (.rebuild frame, h)) :
    h.flags + 1 ≤ g.flags ∧ h.counters = { g.counters with
      taskRebuilds := g.counters.taskRebuilds + n.tasks
      queueRebuilds := g.counters.queueRebuilds + (1 - n.tasks) } := by
  have hdirty := (visit_rebuild hv).2.dirty_self
  cases n with
  | task t =>
    simp only [visit] at hv
    split at hv
    · cases hv
    · split at hv <;> cases hv
      have hflags := g.flags_modifyTask t Task.settle
      have hone : (g.task t).dirty.toNat = 1 := congrArg Bool.toNat hdirty
      have hzero : (g.task t).settle.dirty.toNat = 0 := rfl
      refine ⟨?_, rfl⟩
      change (g.modifyTask t Task.settle).flags + 1 ≤ _
      omega
  | queue q =>
    simp only [visit] at hv
    split at hv
    · cases hv
    · split at hv <;> cases hv
      have hflags := g.flags_modifyQueue q (·.settle floor)
      have hone : (g.queue q).dirty.toNat = 1 := congrArg Bool.toNat hdirty
      have hzero : ((g.queue q).settle floor).dirty.toNat = 0 := rfl
      refine ⟨?_, rfl⟩
      change (g.modifyQueue q (·.settle floor)).flags + 1 ≤ _
      omega

/-- A rebuild that ends lifts one task at most. -/
theorem flags_finish (g : Graph) (n : Node) (priority : Priority) :
    (g.finish n priority).flags ≤ g.flags ∧ ∃ lifted ≤ n.tasks,
      (g.finish n priority).counters =
        { g.counters with donations := g.counters.donations + lifted } := by
  cases n with
  | task t =>
    have hflags := g.flags_modifyTask_le t (f := (·.withCached priority)) (Nat.le_refl _)
    simp only [finish]
    split
    · exact ⟨hflags, 1, Nat.le_refl 1, rfl⟩
    · exact ⟨hflags, 0, Nat.zero_le 1, rfl⟩
  | queue q =>
    exact ⟨g.flags_modifyQueue_le q (f := (·.withCached priority)) (Nat.le_refl _), 0,
      Nat.le_refl 0, rfl⟩

/-- What is rebuilt while a node is open pays for itself, so the node pays for its own rebuild with
its flag, and for its donation with its rebuild. -/
theorem Evaluates.pays {nodes : List Node} {priorities : List Priority}
    (he : Evaluates floor g nodes priorities h) : g.Pays 0 h := by
  induction he with
  | nil g => exact .refl g
  | known hv _ ih => exact (pays_visit_known hv).trans ih
  | @rebuild g h k l n frame rest priority inner priorities hv _ _ _ ihInner ihRest =>
    obtain ⟨hflags, hcounters⟩ := flags_visit_rebuild hv
    obtain ⟨kflags, lifted, hlifted, kcounters⟩ := k.flags_finish n priority
    obtain ⟨hrebuilds, hdonations, hhandoffs⟩ := ihInner
    have htasks : n.tasks ≤ 1 := by cases n <;> simp [Node.tasks]
    have node : g.Pays 0 (k.finish n priority) := by
      refine ⟨?_, ?_, ?_⟩
      · simp only [kcounters, hcounters, Counters.rebuilds] at *
        omega
      · simp only [kcounters, hcounters] at *
        omega
      · simp only [kcounters, hcounters] at *
        omega
    exact node.trans ihRest

end Graph

open PriorityDonation.Graph

variable {s : Scheduler}

theorem Operation.Part.pays {operation : Operation} {g h : Graph} (hp : operation.Part s g h) :
    g.Pays 0 h := by
  cases hp with
  | attach task => exact s.graph.pays_attach task _
  | @edit _ e v he => exact he.pays.trans (e.pays_invalidate v)
  | create _ => exact s.graph.pays_createQueue _ _
  | discard _ _ _ _ => exact g.pays_discard _
  | retire _ _ => exact s.graph.pays_retire _
  | evaluateTask _ => exact (evaluate_evaluates _ _ g).pays
  | evaluateQueue _ _ => exact (evaluate_evaluates _ _ s.graph).pays

theorem Operation.Parts.pays {operation : Operation} {g h : Graph} (hp : operation.Parts s g h) :
    g.Pays 0 h := by
  induction hp with
  | refl => exact .refl g
  | tail _ hlast ih => exact ih.trans hlast.pays

/-- All but a reset count nothing else than the handover. -/
theorem Operation.pays_tally {operation : Operation} (hne : operation ≠ .resetStatistics)
    (answer : Except Fault Reply) (g : Graph) :
    g.Pays ((Command.perform operation).handsOver answer).toNat
      (g.count (operation.tally answer)) := by
  have handover : g.Pays 1 (g.count fun c => { c with handoffs := c.handoffs + 1 }) :=
    ⟨Nat.le_refl _, Nat.le_refl _, rfl⟩
  cases operation with
  | resetStatistics => exact absurd rfl hne
  | nextThread queue =>
    rcases answer with fault | reply
    · exact .refl g
    · cases reply with
      | task value =>
        cases value with
        | none => exact .refl g
        | some task => exact handover
      | _ => exact .refl g
  | _ => exact .refl g

namespace Scheduler

theorem next_pays (c : s.graph.Coherent s.bounds) {command : Command}
    (hne : command ≠ .perform .resetStatistics) :
    s.graph.Pays (command.handsOver (s.answer command)).toNat (s.next command).graph := by
  cases command with
  | setInterrupts interrupts => exact .refl s.graph
  | perform operation =>
    obtain ⟨_, _, g, hparts, hgraph⟩ := operation.does c
    have hop : operation ≠ .resetStatistics := fun h => hne (h ▸ rfl)
    have pays := hparts.pays.trans
      (Operation.pays_tally hop (s.answer (.perform operation)) g)
    rw [Nat.zero_add] at pays
    exact hgraph ▸ pays

theorem after_pays (c : s.graph.Coherent s.bounds) {commands : List Command}
    (hreset : .perform .resetStatistics ∉ commands) :
    s.graph.Pays (handovers (s.transcript commands)) (s.after commands).graph := by
  induction commands generalizing s with
  | nil => exact .refl s.graph
  | cons command rest ih =>
    rw [List.mem_cons, not_or] at hreset
    obtain ⟨hne, hrest⟩ := hreset
    have pays := (next_pays c (Ne.symm hne)).trans (ih (coherent_next c command) hrest)
    have hcount : handovers (s.transcript (command :: rest)) =
        (command.handsOver (s.answer command)).toNat +
          handovers ((s.next command).transcript rest) := by
      rw [transcript, handovers, List.countP_cons, Nat.add_comm]
      cases command.handsOver (s.answer command) <;> rfl
    rw [hcount]
    exact pays

theorem Reachable.donations_le (reachable : s.Reachable) :
    s.graph.counters.donations ≤ s.graph.counters.taskRebuilds := by
  induction reachable with
  | fresh hbuild => exact (build_eq_ok hbuild).2.2 ▸ Nat.le_refl 0
  | @next s command reachable ih =>
    by_cases hreset : command = .perform .resetStatistics
    · subst hreset
      exact Nat.le_refl 0
    · have pays := (next_pays reachable.coherent hreset).donations
      omega

/-- In every history each rebuild has been paid for, by an invalidation or by a flag that was set
when the counters were last reset, and so are the flags that are still set. -/
theorem rebuilds_paid {bounds : Bounds} {interrupts : InterruptFlag} {events : List Event}
    (hbuild : build bounds interrupts = (.ok s, events)) (commands : List Command) :
    let g := (s.after commands).graph
    (.perform .resetStatistics ∉ commands →
      g.counters.rebuilds + g.flags ≤ g.counters.invalidations ∧
        g.counters.handoffs = handovers (s.transcript commands)) ∧
    (∀ before later, commands = before ++ .perform .resetStatistics :: later →
      .perform .resetStatistics ∉ later →
      g.counters.rebuilds + g.flags ≤ g.counters.invalidations + (s.after before).graph.flags ∧
        g.counters.handoffs =
          handovers (((s.after before).next (.perform .resetStatistics)).transcript later)) ∧
    g.counters.donations ≤ g.counters.taskRebuilds := by
  have reachable : s.Reachable := .fresh hbuild
  refine ⟨fun hreset => ?_, fun before later hcommands hreset => ?_, ?_⟩
  · have pays := after_pays reachable.coherent hreset
    obtain ⟨hrebuilds, _, hhandoffs⟩ := pays
    rw [(build_eq_ok hbuild).2.2] at hrebuilds hhandoffs
    have hflags : ({} : Graph).flags = 0 := rfl
    simp only [hflags, Counters.rebuilds] at hrebuilds hhandoffs ⊢
    omega
  · have hafter : s.after commands =
        ((s.after before).next (.perform .resetStatistics)).after later := by
      rw [hcommands, after, List.foldl_append]
      rfl
    have hnext := (reachable.after before).next (.perform .resetStatistics)
    obtain ⟨hrebuilds, _, hhandoffs⟩ := after_pays hnext.coherent hreset
    have hflags : ((s.after before).next (.perform .resetStatistics)).graph.flags =
        (s.after before).graph.flags := rfl
    have hcounters : ((s.after before).next (.perform .resetStatistics)).graph.counters = {} := rfl
    simp only [hafter, hflags, hcounters, Counters.rebuilds] at hrebuilds hhandoffs ⊢
    omega
  · exact (reachable.after commands).donations_le

/-- A waiter gets a higher priority, which leaves three nodes dirty. -/
def beforeReset : List Command :=
  List.map .perform
    [.newWaitQueue true, .acquire ⟨0, 0⟩ ⟨1⟩, .waitForAccess ⟨0, 0⟩ ⟨2⟩, .effectivePriority ⟨1⟩,
      .setPriority ⟨2⟩ 5]

/-- The holder is rebuilt without a new invalidation, and then the waiter gets the queue. -/
def afterReset : List Command :=
  List.map .perform [.effectivePriority ⟨1⟩, .nextThread ⟨0, 0⟩]

theorem rebuilds_paid_afterReset :
    (let g := (after ⟨.standard, Bounds.standard_valid, ⟨false⟩, {}⟩ beforeReset).graph;
      g.counters.rebuilds + 3 ≤ g.counters.invalidations ∧ g.counters.handoffs = 0) ∧
    (let g := (after ⟨.standard, Bounds.standard_valid, ⟨false⟩, {}⟩
        (beforeReset ++ .perform .resetStatistics :: afterReset)).graph;
      g.counters.rebuilds + g.flags ≤ g.counters.invalidations + 3 ∧ g.counters.handoffs = 1 ∧
        g.counters.donations ≤ g.counters.taskRebuilds) := by
  have hbuild := build_of_valid Bounds.standard_valid ⟨false⟩
  have hflags : (after ⟨.standard, Bounds.standard_valid, ⟨false⟩, {}⟩
      beforeReset).graph.flags = 3 := by decide +kernel
  obtain ⟨hfirst, _, _⟩ := rebuilds_paid hbuild beforeReset
  obtain ⟨_, hlater, hdonations⟩ := rebuilds_paid hbuild
    (beforeReset ++ .perform .resetStatistics :: afterReset)
  obtain ⟨hrebuilds, hhandoffs⟩ := hfirst (by decide)
  obtain ⟨hrebuilds', hhandoffs'⟩ := hlater beforeReset afterReset rfl (by decide)
  refine ⟨⟨hflags ▸ hrebuilds, hhandoffs.trans ?_⟩, hflags ▸ hrebuilds', hhandoffs'.trans ?_,
    hdonations⟩
  · decide +kernel
  · decide +kernel

end Scheduler

end PriorityDonation
