import PriorityDonation.Proofs.PriorityBounds
import PriorityDonation.Proofs.StickyAnswers

/-!
# Direct donation in a deadlock

Around a circle a task need not show what all tasks upstream of it have, but it always shows at
least the base priority of each task that waits directly for one of its queues, and exactly what its
queues make of it. A walk that begins at a task reads every queue from its holder, while the holder
is being rebuilt, so no clean task has read a queue that is finished later. A walk that begins at a
queue is harmless as well, unless the queue lies on a circle: then the walk comes to the holder,
which reads the queue before it is finished.
-/

namespace PriorityDonation

namespace Graph

/-- A task shows the largest of its base and what its queues show, and a queue shows no less than
the base of each waiter. -/
def Direct (floor : Priority) (g : Graph) : Node → Prop
  | .task t => g.Balanced floor (.task t)
  | .queue q => ∀ m ∈ g.sources (.queue q), g.seed floor m ≤ g.value floor (.queue q)

/-- Clean nodes show what is donated to them directly, apart from the nodes left. -/
def DirectBut (g : Graph) (floor : Priority) (left : Node → Prop) : Prop :=
  ∀ n, g.InUse n → ¬ left n → g.dirty n = false → g.Direct floor n

/-- A queue is evaluated for its holder while that is being rebuilt, or lies on no circle. -/
def ReadByHolder (g : Graph) (left : Node → Prop) (nodes : List Node) : Prop :=
  ∀ q, .queue q ∈ nodes → ∀ n, g.Feeds (.queue q) n → left n ∨ ¬ g.OnCycle (.queue q)

variable {bounds : Bounds} {g h k : Graph} {floor : Priority} {nodes : List Node} {n m : Node}
  {q t : Nat} {left : Node → Prop}

theorem Lone.direct (hn : g.Lone floor n) : g.Direct floor n := by
  cases n with
  | task t => exact hn.balanced
  | queue q => simp [Direct, hn.1]

theorem SameAbove.direct (same : SameAbove g h floor n) (hn : g.Direct floor n) :
    h.Direct floor n := by
  cases n with
  | task t => exact same.balanced hn
  | queue q =>
    intro m hm
    have hup : h.Upstream m (.queue q) := .single (feeds_iff.mpr hm)
    rw [same.sources _ .refl] at hm
    rw [same.seed m hup, same.value _ .refl]
    exact hn m hm

theorem readsUpstream_direct (floor : Priority) : ReadsUpstream floor (Direct floor) where
  congr same hn := same.direct hn
  lone hn := hn.direct

/-- What a queue makes of its waiters is read from their bases, so only a task can lose by a change
of what its sources show. -/
theorem SameTies.direct (a : SameTies g h) (hn : h.value floor n = g.value floor n)
    (hs : ∀ q, .queue q ∈ g.sources n → h.value floor (.queue q) = g.value floor (.queue q))
    (hd : g.Direct floor n) : h.Direct floor n := by
  cases n with
  | task t =>
    refine a.balanced hn (fun m hm => ?_) hd
    obtain ⟨q, _, rfl⟩ := List.mem_map.mp (feeds_iff.mpr hm).2
    exact hs q hm
  | queue q =>
    intro m hm
    rw [a.sources] at hm
    rw [a.seed, hn]
    exact hd m hm

namespace ReadByHolder

theorem tail (hr : g.ReadByHolder left (n :: nodes)) (a : SameTies g h) :
    h.ReadByHolder left nodes := by
  intro q hq m hm
  rw [a.feeds] at hm
  rw [OnCycle, a.feeds]
  exact hr q (List.mem_cons_of_mem n hq) m hm

/-- The queues of a task that is being rebuilt. -/
theorem donors (c : g.Consistent) (ho : Opened g n h) :
    h.ReadByHolder (fun m => left m ∨ m = n) (g.donors n) := by
  intro q hq m hm
  rw [ho.ties.feeds] at hm
  cases n with
  | task t =>
    obtain ⟨q', hq', heq⟩ := List.mem_map.mp hq
    cases heq
    cases m with
    | task t' =>
      obtain ⟨q'', hq'', heq⟩ := List.mem_map.mp hm.2
      cases heq
      have hholder := (c.holder_iff q t).mpr hq'
      rw [(c.holder_iff q t').mpr hq''] at hholder
      exact Or.inl (Or.inr (congrArg Node.task (Option.some.inj hholder)))
    | queue q'' => simp [Feeds, Graph.donors] at hm
  | queue q' => simp [Graph.donors] at hq

end ReadByHolder

theorem Opened.directBut (ho : Opened g n h) (closed : g.DirtyClosed g.Feeds left)
    (direct : g.DirectBut floor left) : h.DirectBut floor (fun m => left m ∨ m = n) := by
  intro m hu hm hd
  have hne : m ≠ n := fun h => hm (Or.inr h)
  have hclean := ho.clean_of_ne hne hd
  refine ho.ties.direct (ho.value hne) (fun q hq => ho.value ?_)
    (direct m ((ho.ties.inUse m).mp hu) (fun h => hm (Or.inl h)) hclean)
  rintro rfl
  rcases closed _ m (feeds_iff.mpr hq) ho.dirty_self with hd' | hl
  · simp [hclean] at hd'
  · exact hm (Or.inl hl)

/-- A node is finished with what its donors show. -/
theorem direct_finish {inner : List Priority} (hc : g.caches n = true)
    (he : inner = (g.donors n).map (g.value floor))
    (donors : ∀ d ∈ g.donors n, g.Grounded floor d) :
    (g.finish n (inner.foldl max (g.seed floor n))).Direct floor n := by
  have ties := g.sameTies_finish n (inner.foldl max (g.seed floor n))
  have hvalue : (g.finish n (inner.foldl max (g.seed floor n))).value floor n =
      inner.foldl max (g.seed floor n) := value_finish_self _ hc
  have hsources : g.sources n = g.donors n := if_pos (conducts_of_caches hc)
  cases n with
  | task t =>
    have hvalues : (g.donors (.task t)).map
        ((g.finish (.task t) (inner.foldl max (g.seed floor (.task t)))).value floor) = inner := by
      rw [he]
      refine List.map_congr_left fun m hm => value_finish_of_ne g _ ?_
      rintro rfl
      simp [Graph.donors] at hm
    rw [Direct, Balanced, ties.sources, hsources, ties.seed, hvalues, hvalue]
  | queue q =>
    intro m hm
    rw [ties.sources, hsources] at hm
    rw [hvalue, ties.seed]
    refine Int32.le_trans (donors m hm).seed_le ((le_foldl_max inner _).2 _ ?_)
    rw [he]
    exact List.mem_map_of_mem hm

/-- The nodes that have been evaluated for a node that is finished. -/
theorem finish_directBut {inner : List Priority} (ho : Opened g n h)
    (he : Evaluates floor h (g.donors n) inner k) (closed : g.DirtyClosed g.Feeds left)
    (hread : ∀ q, n = .queue q → ∀ m, g.Feeds n m → left m ∨ ¬ g.OnCycle n)
    (grounded : ∀ d ∈ g.donors n, k.Grounded floor d)
    (direct : k.DirectBut floor (fun m => left m ∨ m = n)) :
    (k.finish n (inner.foldl max (g.seed floor n))).DirectBut floor left := by
  have ties := ho.ties.trans he.sameTies
  have tiesFinish := k.sameTies_finish n (inner.foldl max (g.seed floor n))
  intro m hu hm hd
  rw [dirty_finish] at hd
  by_cases hmn : m = n
  · subst hmn
    have hdonors := ties.donors m
    rw [← ties.seed floor m]
    exact direct_finish (ties.caches m ▸ ho.caches) (hdonors ▸ he.answers) (hdonors ▸ grounded)
  refine tiesFinish.direct (value_finish_of_ne k _ hmn) (fun q hq => value_finish_of_ne k _ ?_)
    (direct m ((tiesFinish.inUse m).mp hu) (fun h => h.elim hm hmn) hd)
  -- the queue just finished has a holder that is being rebuilt or has stayed dirty
  rintro rfl
  have hfeeds : g.Feeds (.queue q) m := ties.feeds ▸ feeds_iff.mpr hq
  rcases hread q rfl m hfeeds with hl | hcycle
  · exact hm hl
  · exact hcycle (he.onCycle_of_clean ho closed hfeeds hmn hm hd)

theorem Evaluates.directBut {priorities : List Priority} (c : g.Consistent)
    (he : Evaluates floor g nodes priorities h)
    (flags : ∀ n, g.dirty n = true → g.conducts n = true) (closed : g.DirtyClosed g.Feeds left)
    (hread : g.ReadByHolder left nodes) (grounded : g.CleanNodes (Grounded floor))
    (direct : g.DirectBut floor left) : h.DirectBut floor left := by
  induction he generalizing left with
  | nil g => exact direct
  | @known g h k n rest priority priorities hv hrest ih =>
    have ha := (visit_known hv).2
    have hstep : Evaluates floor g [n] [priority] h := .known hv (.nil h)
    refine ih (c.congr ha.ties) (hstep.flags flags) (hstep.dirtyClosed flags closed)
      (hread.tail ha.ties) (hstep.grounded c flags grounded) fun m hu hm hd => ?_
    by_cases hg : g.dirty m = true
    · obtain ⟨rfl, hc⟩ := ha.cleaned m hg hd
      exact (lone_of_not_caches (ha.ties.caches m ▸ hc)).direct
    · exact ha.ties.direct (ha.value m) (fun q _ => ha.value _)
        (direct m ((ha.ties.inUse m).mp hu) hm (by simpa using hg))
  | @rebuild g h k l n frame rest priority inner priorities hv hinner hp hrest ihInner ihRest =>
    obtain ⟨rfl, ho⟩ := visit_rebuild hv
    have ch := c.congr ho.ties
    have opened := grounded_opened hv grounded
    have hdone := ihInner ch (ho.flags flags) (ho.dirtyClosed closed) (.donors c ho) opened
      (ho.directBut closed direct)
    have hstep : Evaluates floor g [n] [priority] (k.finish n priority) :=
      .rebuild hv hinner hp (.nil _)
    refine ihRest (c.congr hstep.sameTies) (hstep.flags flags) (hstep.dirtyClosed flags closed)
      (hread.tail hstep.sameTies) (hstep.grounded c flags grounded) ?_
    subst hp
    refine finish_directBut ho hinner closed ?_ (fun d hd => ?_) hdone
    · rintro q rfl m hm
      exact hread q List.mem_cons_self m hm
    · have hgrounded := hinner.grounded ch (ho.flags flags) opened
      refine hgrounded d ?_ (hinner.clean_of_flags (ho.flags flags) hd)
      exact (hinner.sameTies.inUse d).mpr (ch.inUse_of_donor (ho.ties.donors n ▸ hd))

/-- Evaluation that begins at a task, or at a queue on no circle. -/
theorem evaluate_direct (c : g.Coherent bounds) (hn : ∀ q, n = .queue q → ¬ g.OnCycle n)
    (grounded : g.CleanNodes (Grounded bounds.lowest))
    (direct : g.CleanNodes (Direct bounds.lowest)) :
    (evaluate bounds.lowest n g).2.CleanNodes (Direct bounds.lowest) := by
  have he := evaluate_evaluates bounds.lowest n g
  have flags (m : Node) (hd : g.dirty m = true) : g.conducts m = true := (c.flags m hd).1
  have hread : g.ReadByHolder (fun _ => False) [n] := by
    intro q hq m _
    rw [List.mem_singleton] at hq
    exact Or.inr (hq ▸ hn q hq.symm)
  have hdone := he.directBut c.toConsistent flags c.closed hread grounded
    fun m hu _ hd => direct m hu hd
  exact fun m hu hd => hdone m hu id hd

end Graph

open PriorityDonation.Graph

namespace Scheduler

variable {s : Scheduler} {task : TaskId} {q t w : Nat}

/-- A command that asks for no donation of a queue on a circle. -/
def Spares (s : Scheduler) : Command → Prop
  | .perform operation => ∀ queue q, operation.donation? = some queue →
      s.graph.resolve? queue = some q → ¬ s.graph.OnCycle (.queue q)
  | .setInterrupts _ => True

/-- The schedulers at the points of a history in which the donation of a queue is never asked for
while the queue lies on a circle. -/
inductive SparinglyReachable : Scheduler → Prop
  | fresh {bounds : Bounds} {interrupts : InterruptFlag} {s : Scheduler} {events : List Event} :
      build bounds interrupts = (.ok s, events) → SparinglyReachable s
  | next {s : Scheduler} (command : Command) :
      SparinglyReachable s → s.Spares command → SparinglyReachable (s.next command)

theorem SparinglyReachable.reachable (h : s.SparinglyReachable) : s.Reachable := by
  induction h with
  | fresh hbuild => exact .fresh hbuild
  | next command _ _ ih => exact ih.next command

theorem SparinglyReachable.direct (h : s.SparinglyReachable) :
    s.graph.CleanNodes (Direct s.bounds.lowest) := by
  have both : s.graph.CleanNodes fun g n =>
      g.Grounded s.bounds.lowest n ∧ g.Direct s.bounds.lowest n := by
    induction h with
    | fresh hbuild =>
      rw [(build_eq_ok hbuild).2.2]
      exact fun n hu => absurd hu (not_inUse_empty n)
    | @next s command h spares ih =>
      have c := h.reachable.coherent
      rw [bounds_next c]
      cases command with
      | setInterrupts interrupts => exact ih
      | perform operation =>
        refine operation.cleanNodes c (fun g n => ∀ q, n = .queue q → ¬ g.OnCycle n)
          ((readsUpstream_grounded _).and (readsUpstream_direct _)) ?_ ?_ ?_ ih
        · intro g n cg _ hn hg n' hu hd
          have grounded : g.CleanNodes (Grounded s.bounds.lowest) := fun m hu hd => (hg m hu hd).1
          have direct : g.CleanNodes (Direct s.bounds.lowest) := fun m hu hd => (hg m hu hd).2
          refine ⟨?_, evaluate_direct cg hn grounded direct n' hu hd⟩
          exact (evaluate_evaluates _ n g).grounded cg.toConsistent
            (fun m hd => (cg.flags m hd).1) grounded n' hu hd
        · rintro g t q ⟨⟩
        · rintro queue q hq hresolve _ ⟨⟩
          exact spares queue q hq hresolve
  exact fun n hu hd => (both n hu hd).2

/-- A clean task shows what its queues make of it, and they show no less than what their waiters
have. -/
theorem direct_of_clean {h : Graph} (ch : h.Coherent s.bounds)
    (direct : h.CleanNodes (Direct s.bounds.lowest)) (ht : h.Tracked t)
    (hd : h.dirty (.task t) = false) :
    h.value s.bounds.lowest (.task t) =
        ((h.task t).held.map fun q => h.value s.bounds.lowest (.queue q)).foldl max
          (h.task t).base ∧
      ∀ q ∈ (h.task t).held, h.Settled s.bounds.lowest (.queue q) ∧
        ∀ w, (h.queue q).transfers = true → w ∈ (h.queue q).waiters →
          (h.task w).base ≤ h.value s.bounds.lowest (.task t) := by
  have hbalanced : h.Balanced s.bounds.lowest (.task t) := direct (.task t) ht hd
  have hsources : h.sources (.task t) = (h.task t).held.map .queue := rfl
  rw [Graph.Balanced, hsources, List.map_map] at hbalanced
  refine ⟨hbalanced, fun q hq => ?_⟩
  have hf : h.Feeds (.queue q) (.task t) := ⟨rfl, List.mem_map_of_mem hq⟩
  have hclean := clean_of_feeds ch hf hd
  refine ⟨⟨fun _ => hclean, fun hc hcaches => ?_⟩, fun w hc hw => ?_⟩
  · rw [show h.caches (.queue q) = h.conducts (.queue q) from rfl, hc] at hcaches
    cases hcaches
  · have hwaits : h.Feeds (.task w) (.queue q) := ⟨hc, List.mem_map_of_mem hw⟩
    have hbase := direct (.queue q) (ch.inUse_of_donor hf.2) hclean _ (feeds_iff.mp hwaits)
    refine Int32.le_trans hbase ?_
    rw [hbalanced]
    exact (le_foldl_max _ _).2 _ (List.mem_map_of_mem hq)

/-- Whatever circles there are, a task has at least the base priority of everybody who waits for it
directly, and exactly the largest of its base and what its queues donate, as they answer next. -/
theorem direct_donation (reachable : s.SparinglyReachable)
    (disabled : s.interrupts.enabled = false) (ht : s.graph.lookup? task = some t) :
    ∃ effective, s.answer (.perform (.effectivePriority task)) = .ok (.priority effective) ∧
      (∀ q w, (s.graph.queue q).holder = some t → (s.graph.queue q).transfers = true →
        w ∈ (s.graph.queue q).waiters → (s.graph.task w).base ≤ effective) ∧
      let asked := s.next (.perform (.effectivePriority task))
      ∃ donations : Nat → Priority,
        (∀ q ∈ (s.graph.task t).held,
          let queue : QueueHandle := ⟨q, (s.graph.queue q).generation⟩
          asked.answer (.perform (.queuePriority queue)) = .ok (.priority (donations q)) ∧
            asked.next (.perform (.queuePriority queue)) = asked) ∧
        effective = ((s.graph.task t).held.map donations).foldl max (s.graph.task t).base := by
  have c := reachable.reachable.coherent
  have htracked := ((c.lookup_iff task t).mp ht).1
  have he := evaluate_evaluates s.bounds.lowest (.task t) s.graph
  have direct := evaluate_direct c (n := .task t) (by simp) reachable.reachable.grounded
    reachable.direct
  have heffect : (Operation.effectivePriority task).perform.effect s =
      (.ok (.priority (evaluate s.bounds.lowest (.task t) s.graph).1),
        s.withGraph (evaluate s.bounds.lowest (.task t) s.graph).2) := by
    obtain ⟨hslot, hgraph⟩ := slotOf_of_some ht
    rw [Operation.perform, Call.effect_map, effect_effectivePriority,
      guarded_of_disabled disabled, hslot, hgraph]
    rfl
  have hasked : s.next (.perform (.effectivePriority task)) = s.withGraph _ :=
    congrArg Prod.snd heffect
  rw [hasked]
  have hanswer := evaluate_fst s.bounds.lowest (.task t) s.graph
  generalize evaluate s.bounds.lowest (.task t) s.graph = evaluated at *
  obtain ⟨effective, h⟩ := evaluated
  have ties := he.sameTies
  have hclean := he.clean (n := .task t) List.mem_cons_self rfl
  obtain ⟨hvalue, hqueues⟩ := direct_of_clean (c.evaluates he) direct
    ((ties.tracked t).mpr htracked) hclean
  simp only at hanswer
  rw [← hanswer] at hvalue hqueues
  simp only [ties.held, ties.base, ties.transfers, ties.waiters] at hvalue hqueues
  refine ⟨effective, congrArg Prod.fst heffect, fun q w hholder hc hw => ?_,
    fun q => h.value s.bounds.lowest (.queue q), fun q hq => ?_, hvalue⟩
  · exact (hqueues q ((c.holder_iff q t).mp hholder)).2 w hc hw
  · have hlive := (c.held_inUse q t hq).2
    have hresolve : h.resolve? ⟨q, (s.graph.queue q).generation⟩ = some q := by
      simp [resolve?, ties.live, ties.generation, hlive]
    have hsettles : (s.withGraph h).Settles (.queuePriority ⟨q, (s.graph.queue q).generation⟩) := by
      intro _ q' hq'
      cases hresolve.symm.trans hq'
      exact (hqueues q hq).1
    have heffect' := hsettles.effect rfl
    refine ⟨(congrArg Prod.fst heffect').trans ?_, congrArg Prod.snd heffect'⟩
    simp [reading, disabled, hresolve]

theorem SparinglyReachable.after (h : s.SparinglyReachable) {operations : List Operation}
    (hnone : ∀ operation ∈ operations, operation.donation? = none) :
    (s.after (operations.map .perform)).SparinglyReachable := by
  induction operations generalizing s with
  | nil => exact h
  | cons operation rest ih =>
    refine ih (h.next (.perform operation) fun queue q hq => ?_) fun o ho =>
      hnone o (List.mem_cons_of_mem operation ho)
    simp [hnone operation List.mem_cons_self] at hq

/-- Two tasks wait for each other and priorities are asked for in between, and a third task waits
with the second for what the first holds. -/
def questionedCircle : Scheduler :=
  after ⟨.standard, Bounds.standard_valid, ⟨false⟩, {}⟩ <| List.map .perform
    [.newWaitQueue true, .newWaitQueue true, .acquire ⟨0, 0⟩ ⟨1⟩, .acquire ⟨1, 0⟩ ⟨2⟩,
      .waitForAccess ⟨1, 0⟩ ⟨1⟩, .waitForAccess ⟨0, 0⟩ ⟨2⟩, .effectivePriority ⟨2⟩,
      .waitForAccess ⟨0, 0⟩ ⟨3⟩, .setPriority ⟨2⟩ 4, .effectivePriority ⟨2⟩, .setPriority ⟨3⟩ 6]

theorem direct_donation_questionedCircle :
    ∃ effective,
      questionedCircle.answer (.perform (.effectivePriority ⟨1⟩)) = .ok (.priority effective) ∧
        4 ≤ effective ∧ 6 ≤ effective ∧
        let asked := questionedCircle.next (.perform (.effectivePriority ⟨1⟩))
        ∃ donation,
          asked.answer (.perform (.queuePriority ⟨0, 0⟩)) = .ok (.priority donation) ∧
            effective = max 1 donation := by
  have reachable : questionedCircle.SparinglyReachable :=
    (SparinglyReachable.fresh (build_of_valid Bounds.standard_valid ⟨false⟩)).after (by decide)
  have hlookup : questionedCircle.graph.lookup? ⟨1⟩ = some 0 := by decide +kernel
  obtain ⟨effective, hanswer, hbound, donations, hqueues, hvalue⟩ :=
    direct_donation reachable (by decide +kernel) hlookup
  have hheld : (questionedCircle.graph.task 0).held = [0] := by decide +kernel
  have hbase : (questionedCircle.graph.task 0).base = 1 := by decide +kernel
  have hsecond : (questionedCircle.graph.task 1).base = 4 := by decide +kernel
  have hthird : (questionedCircle.graph.task 2).base = 6 := by decide +kernel
  have hholder : (questionedCircle.graph.queue 0).holder = some 0 := by decide +kernel
  have htransfers : (questionedCircle.graph.queue 0).transfers = true := by decide +kernel
  have hwaiters : (questionedCircle.graph.queue 0).waiters = [1, 2] := by decide +kernel
  have hgeneration : (questionedCircle.graph.queue 0).generation = 0 := by decide +kernel
  have hfirst := hqueues 0 (hheld ▸ List.mem_cons_self)
  simp only [hgeneration] at hfirst
  rw [hheld, hbase] at hvalue
  refine ⟨effective, hanswer, ?_, ?_, donations 0, hfirst.1, hvalue⟩
  · exact hsecond ▸ hbound 0 1 hholder htransfers (by simp [hwaiters])
  · exact hthird ▸ hbound 0 2 hholder htransfers (by simp [hwaiters])

end Scheduler

end PriorityDonation
