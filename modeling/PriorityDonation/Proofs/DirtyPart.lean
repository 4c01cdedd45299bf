import PriorityDonation.Proofs.WalkCosts

/-!
# A question rebuilds the dirty part it needs

What a node may take priority from is the node itself and all that supplies it: the queues that a
task holds, if they transfer, the waiters of such a queue, and so on. A question about a node opens
the dirty nodes of this part that keep their priority in a cache, each once, and nothing else.

Evaluation opens nodes only on its way upstream, so it stays within the part. That it misses no
dirty node there does not follow from the walk, which turns back at clean nodes. It follows from the
flags being closed before and after: the node asked about is clean in the end, so no dirty node can
be left upstream of it.
-/

namespace PriorityDonation

namespace Graph

/-- The first node may add to the priority of the second one. -/
inductive Supplies (g : Graph) : Node → Node → Prop
  | holds {q t : Nat} : q ∈ (g.task t).held → (g.queue q).transfers = true →
      Supplies g (.queue q) (.task t)
  | waits {q t : Nat} : (g.queue q).transfers = true → t ∈ (g.queue q).waiters →
      Supplies g (.task t) (.queue q)

/-- A node and everything that supplies it, near or far. -/
def supply (g : Graph) (n : Node) : Set Node := {m | Relation.ReflTransGen g.Supplies m n}

variable {bounds : Bounds} {g h : Graph} {floor : Priority} {n m : Node} {nodes : List Node}
  {priorities : List Priority}

theorem supplies_iff {a b : Node} : g.Supplies a b ↔ g.conducts a = true ∧ g.Feeds a b := by
  constructor
  · rintro (⟨hheld, hc⟩ | ⟨hc, hwaits⟩)
    · exact ⟨hc, rfl, List.mem_map_of_mem hheld⟩
    · exact ⟨rfl, hc, List.mem_map_of_mem hwaits⟩
  · rintro ⟨ha, hb, hdonor⟩
    cases b with
    | task t =>
      obtain ⟨q, hq, rfl⟩ := List.mem_map.mp hdonor
      exact .holds hq ha
    | queue q =>
      obtain ⟨t, ht, rfl⟩ := List.mem_map.mp hdonor
      exact .waits hb ht

theorem upstream_of_supply (hm : m ∈ g.supply n) : g.Upstream m n :=
  Relation.ReflTransGen.mono (fun _ _ hab => (supplies_iff.mp hab).2) _ _ hm

/-- A node upstream belongs to the part unless it is a blocked queue. -/
theorem supply_of_upstream (hup : g.Upstream m n) (hc : g.conducts m = true) : m ∈ g.supply n := by
  induction hup using Relation.ReflTransGen.head_induction_on with
  | refl => exact .refl
  | head hf _ ih => exact .head (supplies_iff.mpr ⟨hc, hf⟩) (ih hf.1)

namespace Evaluates

/-- Evaluation writes no cache outside the part upstream of its nodes. -/
theorem cached_of_not_upstream (he : Evaluates floor g nodes priorities h)
    (hm : ∀ n ∈ nodes, g.conducts m = true → ¬ g.Upstream m n) : h.cached m = g.cached m := by
  induction he with
  | nil => rfl
  | @known g h k n rest priority priorities hv _ ih =>
    have ties := (visit_known hv).2.ties
    have hvisit : h.cached m = g.cached m := by
      have hcached := g.cached_visit floor n m
      rw [hv] at hcached
      refine hcached.trans (if_neg ?_)
      rintro ⟨rfl, hc, -⟩
      exact hm m List.mem_cons_self hc .refl
    refine (ih fun n' hn' => ?_).trans hvisit
    rw [ties.conducts, ties.upstream]
    exact hm n' (List.mem_cons_of_mem n hn')
  | @rebuild g h k l n frame rest priority inner priorities hv hinner _ _ ihInner ihRest =>
    obtain ⟨rfl, ho⟩ := visit_rebuild hv
    have hconducts := conducts_of_caches ho.caches
    have hne : m ≠ n := by
      rintro rfl
      exact hm m List.mem_cons_self hconducts .refl
    have ties := (ho.ties.trans hinner.sameTies).trans (k.sameTies_finish n priority)
    have hdonors : k.cached m = h.cached m := by
      refine ihInner fun d hd hc hup => ?_
      rw [ho.ties.conducts] at hc
      rw [ho.ties.upstream] at hup
      exact hm n List.mem_cons_self hc (hup.tail ⟨hconducts, hd⟩)
    have hrest : l.cached m = (k.finish n priority).cached m := by
      refine ihRest fun n' hn' => ?_
      rw [ties.conducts, ties.upstream]
      exact hm n' (List.mem_cons_of_mem n hn')
    rw [hrest, (k.cached_finish n priority m).1 hne, hdonors, ho.cached m hne]

end Evaluates

/-- Once a node has been evaluated, nothing upstream of it is dirty. -/
theorem Coherent.clean_upstream (c : g.Coherent bounds)
    (he : Evaluates bounds.lowest g [n] priorities h) (hup : g.Upstream m n) :
    h.dirty m = false := by
  by_contra hd
  rw [Bool.not_eq_false] at hd
  have hn : h.dirty n = false :=
    he.clean_of_flags (fun n hn => (c.flags n hn).1) List.mem_cons_self
  simp [(c.evaluates he).closed.upstream (he.sameTies.upstream ▸ hup) hd] at hn

/-- The slots of the nodes of one kind, counted by a weight that tells the kind. -/
theorem ncard_slots {kind : Nat → Node} {weight : Node → Nat} (inj : Function.Injective kind)
    (one : ∀ slot, weight (kind slot) = 1) (zero : ∀ n, (∀ slot, n ≠ kind slot) → weight n = 0)
    (hnodes : nodes.Nodup) : {slot | kind slot ∈ nodes}.ncard = (nodes.map weight).sum := by
  induction nodes with
  | nil => simp
  | cons n rest ih =>
    obtain ⟨hn, hrest⟩ := List.nodup_cons.mp hnodes
    rw [List.map_cons, List.sum_cons, ← ih hrest]
    by_cases hkind : ∃ slot, n = kind slot
    · obtain ⟨slot, rfl⟩ := hkind
      have hset : {slot' | kind slot' ∈ kind slot :: rest} =
          insert slot {slot' | kind slot' ∈ rest} := by
        ext slot'
        simp [inj.eq_iff]
      have hfinite : {slot' | kind slot' ∈ rest}.Finite :=
        rest.finite_toSet.preimage inj.injOn
      have hnew : slot ∉ {slot' | kind slot' ∈ rest} := hn
      rw [hset, Set.ncard_insert_of_notMem hnew hfinite, one, Nat.add_comm]
    · have hother : ∀ slot, n ≠ kind slot := fun slot h => hkind ⟨slot, h⟩
      have hset : {slot | kind slot ∈ n :: rest} = {slot | kind slot ∈ rest} := by
        ext slot
        simp [(hother slot).symm]
      rw [hset, zero n hother, Nat.zero_add]

theorem ncard_tasks (hnodes : nodes.Nodup) :
    {t | .task t ∈ nodes}.ncard = (nodes.map Node.tasks).sum := by
  refine ncard_slots (fun _ _ => Node.task.inj) (fun _ => rfl) (fun n hn => ?_) hnodes
  cases n with
  | task t => exact absurd rfl (hn t)
  | queue q => rfl

theorem ncard_queues (hnodes : nodes.Nodup) :
    {q | .queue q ∈ nodes}.ncard = (nodes.map (1 - ·.tasks)).sum := by
  refine ncard_slots (fun _ _ => Node.queue.inj) (fun _ => rfl) (fun n hn => ?_) hnodes
  cases n with
  | task t => rfl
  | queue q => exact absurd rfl (hn q)

/-- What is opened is what is dirty in the part and keeps its priority in a cache. -/
theorem Coherent.mem_pushed {stack : List Frame} {steps : Nat} {reads : List (Node × Node)}
    {pushed : List Node} (c : g.Coherent bounds)
    (he : Evaluates bounds.lowest g [n] priorities h)
    (a : g.Account stack steps reads pushed h) :
    m ∈ pushed ↔ m ∈ g.supply n ∧ g.caches m = true ∧ g.dirty m = true := by
  rw [a.mem_pushed]
  constructor
  · rintro ⟨hc, hd, hclean⟩
    obtain ⟨n', hn', hup⟩ := he.upstream_of_cleaned hd hclean
    rw [List.mem_singleton.mp hn'] at hup
    exact ⟨supply_of_upstream hup (conducts_of_caches hc), hc, hd⟩
  · rintro ⟨hm, hc, hd⟩
    exact ⟨hc, hd, c.clean_upstream he (upstream_of_supply hm)⟩

end Graph

namespace Scheduler

open PriorityDonation.Graph

variable {s : Scheduler} {n : Node}

/-- The question about the priority of a node. -/
def questionAbout (s : Scheduler) : Node → Operation
  | .task t => .effectivePriority (s.graph.task t).id
  | .queue q => .queuePriority ⟨q, (s.graph.queue q).generation⟩

theorem next_questionAbout (c : s.graph.Consistent) (disabled : s.interrupts.enabled = false)
    (hn : s.graph.InUse n) : (s.next (.perform (s.questionAbout n))).graph =
      (evaluate s.bounds.lowest n s.graph).2 := by
  cases n with
  | task t =>
    have ht : s.graph.lookup? (s.graph.task t).id = some t := (c.lookup_iff _ t).mpr ⟨hn, rfl⟩
    obtain ⟨hslot, hgraph⟩ := slotOf_of_some ht
    change ((s.questionAbout (.task t)).perform.effect s).2.graph = _
    rw [questionAbout, Operation.perform, Call.effect_map, effect_effectivePriority,
      guarded_of_disabled disabled, hslot, hgraph]
    rfl
  | queue q =>
    have hq : s.graph.resolve? ⟨q, (s.graph.queue q).generation⟩ = some q :=
      if_pos ⟨hn, rfl⟩
    change ((s.questionAbout (.queue q)).perform.effect s).2.graph = _
    rw [questionAbout, Operation.perform, Call.effect_map, effect_queuePriority,
      onQueue_of_some disabled hq]
    rfl

/-- At every point of every history, a question about a node rebuilds each dirty node of its supply
that keeps its priority in a cache, once, leaves the whole supply clean, and touches nothing else.
-/
theorem question_rebuilds_dirty_part (reachable : s.Reachable) (n : Node) :
    let g := s.graph
    let h := (evaluate s.bounds.lowest n g).2
    (s.interrupts.enabled = false → g.InUse n →
      (s.next (.perform (s.questionAbout n))).graph = h) ∧
    h.counters = { g.counters with
      taskRebuilds := g.counters.taskRebuilds +
        {t | .task t ∈ g.supply n ∧ (g.task t).dirty = true ∧ (g.task t).held ≠ []}.ncard
      queueRebuilds := g.counters.queueRebuilds +
        {q | .queue q ∈ g.supply n ∧ (g.queue q).dirty = true ∧
          (g.queue q).transfers = true}.ncard
      donations := h.counters.donations } ∧
    (∀ m ∈ g.supply n, h.dirty m = false) ∧
    (∀ m ∉ g.supply n, h.dirty m = g.dirty m ∧ h.cached m = g.cached m) ∧
    SameTies g h := by
  have c := reachable.coherent
  have he := evaluate_evaluates s.bounds.lowest n s.graph
  obtain ⟨states, _, _, a⟩ := exists_evaluation s.bounds.lowest n s.graph
  have hmem (m : Node) := c.mem_pushed (m := m) he a
  refine ⟨next_questionAbout c.toConsistent, ?_, ?_, ?_, he.sameTies⟩
  · have htasks : {t | .task t ∈ s.graph.supply n ∧ (s.graph.task t).dirty = true ∧
        (s.graph.task t).held ≠ []} = {t | .task t ∈ Rebuild.pushes s.bounds.lowest states} := by
      ext t
      simp [hmem, caches, dirty, and_comm]
    have hqueues : {q | .queue q ∈ s.graph.supply n ∧ (s.graph.queue q).dirty = true ∧
        (s.graph.queue q).transfers = true} =
          {q | .queue q ∈ Rebuild.pushes s.bounds.lowest states} := by
      ext q
      simp [hmem, caches, dirty, and_comm]
    rw [htasks, hqueues, ncard_tasks a.nodup, ncard_queues a.nodup]
    exact a.counters
  · exact fun m hm => c.clean_upstream he (upstream_of_supply hm)
  · intro m hm
    have hnot (hc : s.graph.conducts m = true) : ¬ s.graph.Upstream m n :=
      fun hup => hm (supply_of_upstream hup hc)
    refine ⟨?_, he.cached_of_not_upstream fun n' hn' => List.mem_singleton.mp hn' ▸ hnot⟩
    rw [Bool.eq_iff_iff]
    refine ⟨he.of_dirty, fun hd => ?_⟩
    by_contra hclean
    obtain ⟨n', hn', hup⟩ := he.upstream_of_cleaned hd (by simpa using hclean)
    exact hnot (c.flags m hd).1 (List.mem_singleton.mp hn' ▸ hup)

/-- In a circle of two tasks one has been raised since the last question. Its waiter holds another
queue, which is not affected. -/
def raisedInCircle : Scheduler :=
  closedCircle.after <| List.map .perform
    [.newWaitQueue true, .acquire ⟨2, 0⟩ ⟨1⟩, .waitForAccess ⟨2, 0⟩ ⟨3⟩, .effectivePriority ⟨1⟩,
      .setPriority ⟨2⟩ 5]

theorem question_rebuilds_dirty_part_raisedInCircle :
    let g := raisedInCircle.graph
    let h := (raisedInCircle.next (.perform (raisedInCircle.questionAbout (.task 0)))).graph
    {t | .task t ∈ g.supply (.task 0) ∧ (g.task t).dirty = true ∧ (g.task t).held ≠ []}.ncard = 2 ∧
      {q | .queue q ∈ g.supply (.task 0) ∧ (g.queue q).dirty = true ∧
        (g.queue q).transfers = true}.ncard = 2 ∧
      g.dirty (.task 1) = true ∧ h.dirty (.task 1) = false := by
  have reachable : raisedInCircle.Reachable :=
    ((Reachable.fresh (build_of_valid Bounds.standard_valid ⟨false⟩)).after _).after _
  have htracked : raisedInCircle.graph.InUse (.task 0) := ⟨by decide +kernel, by decide +kernel⟩
  obtain ⟨hnext, hcounters, hclean, _, _⟩ := question_rebuilds_dirty_part reachable (.task 0)
  rw [← hnext (by decide +kernel) htracked] at hcounters hclean
  have htasks := congrArg Counters.taskRebuilds hcounters
  have hqueues := congrArg Counters.queueRebuilds hcounters
  have hbefore : raisedInCircle.graph.counters = ⟨9, 2, 3, 0, 0⟩ := by decide +kernel
  have hafter : (raisedInCircle.next (.perform
      (raisedInCircle.questionAbout (.task 0)))).graph.counters = ⟨9, 4, 5, 1, 0⟩ := by
    decide +kernel
  have hwaits : raisedInCircle.graph.Supplies (.task 1) (.queue 0) :=
    .waits (by decide +kernel) (by decide +kernel)
  have hholds : raisedInCircle.graph.Supplies (.queue 0) (.task 0) :=
    .holds (by decide +kernel) (by decide +kernel)
  simp only [hbefore, hafter] at htasks hqueues
  refine ⟨by omega, by omega, by decide +kernel, ?_⟩
  exact hclean (.task 1) (.tail (.single hwaits) hholds)

end Scheduler

end PriorityDonation
