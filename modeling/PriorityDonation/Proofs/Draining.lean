import Mathlib.Data.List.Sort
import PriorityDonation.Proofs.Grants

/-!
# Draining a queue

A queue that is granted again and again is granted to each of its waiters once. A grant takes the
queue's donation from one task and gives it to another. No task that still waits for the queue can
be below either of them unless it donates to itself, so where there are no circles the priorities of
those that wait on are not changed by the grant, and the waiters are served in the order of the
priorities they had at first, equals in order of arrival.
-/

namespace PriorityDonation

/-- The entries by falling priority. Entries of the same priority keep their order. -/
def byPriority {α : Type} (priorities : α → Priority) (entries : List α) : List α :=
  entries.insertionSort fun first second => priorities second ≤ priorities first

/-- The first of the best entries comes first, and the others are sorted without it. -/
theorem byPriority_of_best {α : Type} {priorities : α → Priority} {earlier later : List α}
    {best : α} (lt_best : ∀ entry ∈ earlier, priorities entry < priorities best)
    (le_best : ∀ entry ∈ later, priorities entry ≤ priorities best) :
    byPriority priorities (earlier ++ best :: later) =
      best :: byPriority priorities (earlier ++ later) := by
  induction earlier with
  | nil => exact List.insertionSort_cons_of_forall_rel _ le_best
  | cons first rest ih =>
    obtain ⟨hfirst, hrest⟩ := List.forall_mem_cons.mp lt_best
    have hsorted := ih hrest
    simp only [byPriority] at hsorted ⊢
    rw [List.cons_append, List.insertionSort_cons, hsorted, List.orderedInsert_cons,
      if_neg (Int32.not_le.mpr hfirst), List.cons_append, List.insertionSort_cons]

theorem map_byPriority {α β : Type} (priorities : β → Priority) (f : α → β) (entries : List α) :
    (byPriority (priorities ∘ f) entries).map f = byPriority priorities (entries.map f) :=
  List.map_insertionSort _ _ f entries fun _ _ _ _ => Iff.rfl

namespace Graph

variable {bounds : Bounds} {g h : Graph} {floor priority priority' : Priority} {q t w : Nat}

/-- Graphs that differ in one queue only, apart from their caches. -/
structure AlikeBut (q : Nat) (g h : Graph) : Prop where
  base (t : Nat) : (h.task t).base = (g.task t).base
  transfers (q' : Nat) : (h.queue q').transfers = (g.queue q').transfers
  holder (q' : Nat) : q' ≠ q → (h.queue q').holder = (g.queue q').holder
  waiters (q' : Nat) : q' ≠ q → (h.queue q').waiters = (g.queue q').waiters

theorem AlikeBut.symm (a : AlikeBut q g h) : AlikeBut q h g :=
  ⟨fun t => (a.base t).symm, fun q' => (a.transfers q').symm, fun q' hne => (a.holder q' hne).symm,
    fun q' hne => (a.waiters q' hne).symm⟩

theorem Granted.alikeBut (granted : g.Granted q t h) : AlikeBut q g h where
  base := granted.base
  transfers := granted.roster.transfers
  holder q' hne := by rw [granted.holder, if_neg hne]
  waiters q' hne := by rw [granted.waiters, if_neg hne]

theorem donatesTo_iff_queue (c : g.Consistent) : g.DonatesTo w t ↔
    ∃ q, (g.queue q).transfers = true ∧ w ∈ (g.queue q).waiters ∧ (g.queue q).holder = some t := by
  simp only [DonatesTo, c.waiter_iff]
  constructor <;> rintro ⟨q, h₁, h₂, h₃⟩ <;> exact ⟨q, h₂, h₁, h₃⟩

/-- What a waiter receives does not come through the queue he waits for, as he would donate to
himself. -/
theorem AlikeBut.above (a : AlikeBut q g h) (cg : g.Consistent) (ch : h.Consistent)
    (hfree : g.CirclesNowhere) (hw : w ∈ (g.queue q).waiters) {x : Nat} (habove : g.Above x w) :
    h.Above x w := by
  induction habove using Relation.ReflTransGen.head_induction_on with
  | refl => exact .refl
  | head hstep hrest ih =>
    refine Relation.ReflTransGen.head ?_ ih
    obtain ⟨q', hc, hwaits, hholder⟩ := (donatesTo_iff_queue cg).mp hstep
    by_cases hq : q' = q
    · subst hq
      have hback := (donatesTo_iff_queue cg).mpr ⟨q', hc, hw, hholder⟩
      exact absurd (Relation.TransGen.head' hback hrest) (hfree w trivial)
    · refine (donatesTo_iff_queue ch).mpr ⟨q', ?_, ?_, ?_⟩
      · rw [a.transfers, hc]
      · rwa [a.waiters q' hq]
      · rw [a.holder q' hq, hholder]

theorem AlikeBut.largestBase (a : AlikeBut q g h) (cg : g.Consistent) (ch : h.Consistent)
    (hg : g.CirclesNowhere) (hh : h.CirclesNowhere) (hw : w ∈ (g.queue q).waiters)
    (hw' : w ∈ (h.queue q).waiters) (hl : g.LargestBase (g.Above · w) priority) :
    h.LargestBase (h.Above · w) priority := by
  obtain ⟨⟨x, hx, hbase⟩, hle⟩ := hl
  refine ⟨⟨x, a.above cg ch hg hw hx, by rw [a.base, hbase]⟩, fun y hy => ?_⟩
  rw [a.base]
  exact hle y (a.symm.above ch cg hh hw' hy)

theorem LargestBase.unique {part : Nat → Prop} (hl : g.LargestBase part priority)
    (hl' : g.LargestBase part priority') : priority = priority' := by
  obtain ⟨⟨x, hx, rfl⟩, hle⟩ := hl
  obtain ⟨⟨y, hy, rfl⟩, hle'⟩ := hl'
  exact Int32.le_antisymm (hle' x hx) (hle y hy)

/-- Without circles the waiters answer with the largest base priorities above them. -/
theorem Ranked.largestBase {earlier later : List (Nat × Priority)} {best : Nat × Priority}
    (ranked : g.Ranked bounds.lowest q earlier best later h) (c : g.Coherent bounds)
    (hfree : g.CirclesNowhere) :
    ∀ entry ∈ earlier ++ best :: later, g.LargestBase (g.Above · entry.1) entry.2 := by
  intro entry hentry
  have hbehind (w : Nat) (_ : g.Behind q w) := hfree w trivial
  have hw : entry.1 ∈ (g.queue q).waiters := ranked.waiters ▸ List.mem_map_of_mem hentry
  have hlargest := solution_largestBase c.toConsistent hbehind (g.closed_behind q)
    (ranked.evaluates.behind_solution c hbehind).solves
    (fun w hw => (c.bases w (tracked_of_behind c.toConsistent hw)).1) entry.1 ⟨entry.1, hw, .refl⟩
  rwa [ranked.shown entry hentry] at hlargest

/-- By the priorities they answered with, the best of the waiters comes first. -/
theorem Ranked.byPriority_waiters {earlier later : List (Nat × Priority)} {best : Nat × Priority}
    (ranked : g.Ranked floor q earlier best later h) {priorities : Nat → Priority}
    (hpriorities : ∀ entry ∈ earlier ++ best :: later, priorities entry.1 = entry.2) :
    byPriority priorities (g.queue q).waiters =
      best.1 :: byPriority priorities ((earlier ++ later).map Prod.fst) := by
  have hbest := hpriorities best (List.mem_append_right earlier List.mem_cons_self)
  rw [ranked.waiters, List.map_append, List.map_append, List.map_cons]
  refine byPriority_of_best ?_ ?_
  · refine List.forall_mem_map.mpr fun entry hentry => ?_
    rw [hbest, hpriorities entry (List.mem_append_left _ hentry)]
    exact ranked.lt_best entry hentry
  · refine List.forall_mem_map.mpr fun entry hentry => ?_
    rw [hbest, hpriorities entry (List.mem_append_right _ (List.mem_cons_of_mem _ hentry))]
    exact ranked.le_best entry hentry

theorem evaluate_largestBase (c : g.Coherent bounds) (ht : g.Tracked t)
    (hfree : g.CirclesNowhere) :
    g.LargestBase (g.Above · t) (evaluate bounds.lowest (.task t) g).1 := by
  have he := evaluate_evaluates bounds.lowest (.task t) g
  have habove (w : Nat) (_ : g.Above w t) := hfree w trivial
  have hsolution := he.solution c (n := .task t) ht
    (fun w hw => ⟨rfl, upstream_of_above c.toConsistent hw⟩) habove (g.closed_above t)
  rw [he.priority_eq]
  exact solution_largestBase c.toConsistent habove (g.closed_above t) hsolution.solves
    (fun w hw => (c.bases w (tracked_of_above c.toConsistent ht hw)).1) t .refl

end Graph

namespace Scheduler

open PriorityDonation.Graph Call

variable {s : Scheduler} {queue : QueueHandle} {q : Nat} {order : List Nat}

/-- The queue may be granted. -/
structure Ready (s : Scheduler) (queue : QueueHandle) (q : Nat) : Prop where
  coherent : s.graph.Coherent s.bounds
  disabled : s.interrupts.enabled = false
  named : s.graph.resolve? queue = some q

/-- The queue is granted to these tasks, in this order, and then nobody waits for it. -/
inductive Drains (queue : QueueHandle) (q : Nat) : Scheduler → List Nat → Prop
  | done {s : Scheduler} : (s.graph.queue q).waiters = [] →
      s.answer (.perform (.nextThread queue)) = .ok (.task none) → Drains queue q s []
  | grant {s : Scheduler} {earlier later : List (Nat × Priority)} {best : Nat × Priority}
      {k : Graph} {order : List Nat} : s.graph.Ranked s.bounds.lowest q earlier best later k →
      s.answer (.perform (.nextThread queue)) = .ok (.task (some (s.graph.task best.1).id)) →
      s.graph.Granted q best.1 (s.next (.perform (.nextThread queue))).graph →
      Drains queue q (s.next (.perform (.nextThread queue))) order →
      Drains queue q s (best.1 :: order)

theorem Ready.next {t : Nat} (ready : s.Ready queue q)
    (granted : s.graph.Granted q t (s.next (.perform (.nextThread queue))).graph) :
    (s.next (.perform (.nextThread queue))).Ready queue q where
  coherent := coherent_next ready.coherent _
  disabled := by
    have follows := (Operation.nextThread queue).follows ready.coherent
    exact (congrArg InterruptFlag.enabled follows.interrupts).trans ready.disabled
  named := by rw [granted.roster.resolve?, ready.named]

theorem effect_of_answer {winner : Option TaskId}
    (h : s.answer (.perform (.nextThread queue)) = .ok (.task winner)) :
    (nextThread queue).effect s = (.ok winner, s.next (.perform (.nextThread queue))) := by
  have hmap : (Operation.nextThread queue).perform.effect s =
      (((nextThread queue).effect s).1.map Reply.task, ((nextThread queue).effect s).2) :=
    effect_map _ _
  have hresult : ((nextThread queue).effect s).1.map Reply.task = .ok (.task winner) :=
    (congrArg Prod.fst hmap).symm.trans h
  have hnext : ((nextThread queue).effect s).2 = s.next (.perform (.nextThread queue)) :=
    (congrArg Prod.snd hmap).symm
  rcases heffect : (nextThread queue).effect s with ⟨_ | answer, s'⟩
  · simp [heffect, Except.map] at hresult
  · rw [heffect] at hresult hnext
    cases hresult
    rw [← hnext]

theorem exists_drains (ready : s.Ready queue q) : ∃ order, Drains queue q s order := by
  generalize hn : (s.graph.queue q).waiters.length = n
  induction n generalizing s with
  | zero =>
    have hw := List.length_eq_zero_iff.mp hn
    have heffect := nextThread_of_no_waiters ready.disabled ready.named hw
    exact ⟨[], .done hw (congrArg Prod.fst heffect)⟩
  | succ n ih =>
    obtain ⟨earlier, best, later, k, ranked, hanswer, granted⟩ :=
      nextThread_granted ready.disabled ready.named ready.coherent fun hw => by simp [hw] at hn
    obtain ⟨order, drains⟩ := ih (ready.next granted) (by
      rw [granted.waiters, if_pos rfl, ranked.others ready.coherent.toTied]
      rw [ranked.waiters] at hn
      simp only [List.length_map, List.length_append, List.length_cons] at hn ⊢
      omega)
    exact ⟨best.1 :: order, .grant ranked hanswer granted drains⟩

namespace Drains

theorem perm (drains : Drains queue q s order) (ready : s.Ready queue q) :
    order.Perm (s.graph.queue q).waiters := by
  induction drains with
  | done hw => rw [hw]
  | grant ranked _ granted _ ih =>
    have hothers := ih (ready.next granted)
    rw [granted.waiters, if_pos rfl, ranked.others ready.coherent.toTied] at hothers
    rw [ranked.waiters]
    rw [List.map_append] at hothers ⊢
    exact (hothers.cons _).trans List.perm_middle.symm

theorem transcript (drains : Drains queue q s order) :
    (s.transcript (.replicate (order.length + 1) (.perform (.nextThread queue)))).map Prod.snd =
      order.map (fun t => .ok (.task (some (s.graph.task t).id))) ++ [.ok (.task none)] := by
  induction drains with
  | done _ hanswer =>
    simp only [List.length_nil, List.replicate_succ, Scheduler.transcript, List.map_cons, hanswer]
    rfl
  | grant _ hanswer granted _ ih =>
    simp only [granted.roster.id] at ih
    rw [List.length_cons, List.replicate_succ, Scheduler.transcript, List.map_cons, ih, hanswer]
    rfl

theorem grantUpTo (drains : Drains queue q s order) :
    ((Scheduler.grantUpTo (order.length + 1) queue).effect s).1 =
      .ok (order.map fun t => (s.graph.task t).id) := by
  induction drains with
  | done _ hanswer =>
    rw [Scheduler.grantUpTo, effect_bind, effect_of_answer hanswer]
    rfl
  | grant _ hanswer granted _ ih =>
    simp only [granted.roster.id] at ih
    rw [List.length_cons, Scheduler.grantUpTo, effect_bind, effect_of_answer hanswer]
    simp only [effect_bind]
    generalize (Scheduler.grantUpTo _ queue).effect _ = outcome at ih ⊢
    obtain ⟨result, s'⟩ := outcome
    cases ih
    rfl

theorem sorted (drains : Drains queue q s order) (ready : s.Ready queue q)
    (priorities : Nat → Priority)
    (hfree : ∀ grants ≤ order.length,
      (s.after (.replicate grants (.perform (.nextThread queue)))).graph.CirclesNowhere)
    (hlargest : ∀ w ∈ (s.graph.queue q).waiters,
      s.graph.LargestBase (s.graph.Above · w) (priorities w)) :
    order = byPriority priorities (s.graph.queue q).waiters := by
  induction drains with
  | done hw =>
    rw [hw]
    rfl
  | @grant s earlier later best k order ranked _ granted _ ih =>
    have c := ready.coherent
    have ready' := ready.next granted
    have hg : s.graph.CirclesNowhere := hfree 0 (by simp)
    have hh : (s.next (.perform (.nextThread queue))).graph.CirclesNowhere := hfree 1 (by simp)
    have hothers := granted.waiters q
    rw [if_pos rfl, ranked.others c.toTied] at hothers
    have hstill {w : Nat} (hw : w ∈ (earlier ++ later).map Prod.fst) :
        w ∈ (s.graph.queue q).waiters := by
      rw [ranked.waiters]
      exact ((List.sublist_cons_self best later).append_left earlier).map _ |>.subset hw
    have hpriorities : ∀ entry ∈ earlier ++ best :: later, priorities entry.1 = entry.2 := by
      intro entry hentry
      refine (hlargest entry.1 ?_).unique (ranked.largestBase c hg entry hentry)
      exact ranked.waiters ▸ List.mem_map_of_mem hentry
    -- The grant changes no priority of those that wait on, so the first priorities serve again.
    have hrest := ih ready' (fun grants hle => hfree (grants + 1) (Nat.succ_le_succ hle))
      fun w hw => granted.alikeBut.largestBase c.toConsistent ready'.coherent.toConsistent hg hh
        (hstill (hothers ▸ hw)) hw (hlargest w (hstill (hothers ▸ hw)))
    rw [hrest, hothers, ranked.byPriority_waiters hpriorities]

end Drains

/-- Granting a queue until there is nobody left grants it once to each waiter. If there are no
circles at first nor after any of the grants, the waiters are served in the order of the effective
priorities they had at first, and in order of arrival among equals. -/
theorem draining_sorts (reachable : s.Reachable) (disabled : s.interrupts.enabled = false)
    (hq : s.graph.resolve? queue = some q) :
    ∃ served : List TaskId, served.Perm (s.waitersOf q) ∧ served.Nodup ∧
      (s.transcript (.replicate ((s.waitersOf q).length + 1) (.perform (.nextThread queue)))).map
        Prod.snd = served.map (fun task => .ok (.task (some task))) ++ [.ok (.task none)] ∧
      ((drain queue).run s).result = .ok served ∧
      ((∀ grants ≤ (s.waitersOf q).length,
          (s.after (.replicate grants (.perform (.nextThread queue)))).graph.CirclesNowhere) →
        ∃ priorities : TaskId → Priority,
          (∀ task ∈ s.waitersOf q,
            s.answer (.perform (.effectivePriority task)) = .ok (.priority (priorities task))) ∧
          served = byPriority priorities (s.waitersOf q)) := by
  have ready : s.Ready queue q := ⟨reachable.coherent, disabled, hq⟩
  have c := ready.coherent
  have tracked := tracked_waiters c q
  obtain ⟨order, drains⟩ := exists_drains ready
  have hperm := drains.perm ready
  have hlength : order.length = (s.waitersOf q).length := by
    rw [waitersOf, List.length_map, hperm.length_eq]
  refine ⟨order.map fun t => (s.graph.task t).id, hperm.map _, ?_, ?_, ?_, fun hfree => ?_⟩
  · refine (hperm.nodup_iff.mpr (c.waiters_nodup q)).map_on fun t ht t' ht' hid => ?_
    exact c.id_inj (tracked t' (hperm.subset ht')) (tracked t (hperm.subset ht)) hid
  · rw [← hlength, drains.transcript, List.map_map]
    rfl
  · change ((drain queue).effect s).1 = _
    rw [drain, effect_inspect_bind, ← (resolve?_eq_some hq).1, ← hperm.length_eq, drains.grantUpTo]
  · let priorities (task : TaskId) : Priority :=
      (evaluate s.bounds.lowest (.task (s.slotOf task)) s.graph).1
    have hlookup (t : Nat) (ht : t ∈ (s.graph.queue q).waiters) :
        s.graph.lookup? (s.graph.task t).id = some t := (c.lookup_iff _ t).mpr ⟨tracked t ht, rfl⟩
    have hslot (t : Nat) (ht : t ∈ (s.graph.queue q).waiters) :
        s.slotOf (s.graph.task t).id = t := (slotOf_of_some (hlookup t ht)).1
    refine ⟨priorities, List.forall_mem_map.mpr fun t ht => ?_, ?_⟩
    · have hanswer := effectivePriority_eq disabled (hlookup t ht)
      have hmap := congrArg Prod.fst
        (effect_map Reply.priority (effectivePriority (s.graph.task t).id) (s := s))
      refine hmap.trans ?_
      simp only [priorities, hslot t ht]
      exact congrArg (Except.map Reply.priority) hanswer
    · have hsorted := drains.sorted ready (fun t => priorities (s.graph.task t).id)
        (hlength ▸ hfree) fun t ht => by
          simp only [priorities, hslot t ht]
          exact evaluate_largestBase c (tracked t ht) (hfree 0 (Nat.zero_le _))
      rw [hsorted, waitersOf, ← map_byPriority]
      rfl

theorem draining_sorts_tiedWaits :
    tiedWaits.waitersOf 0 = [⟨2⟩, ⟨3⟩, ⟨4⟩] ∧
      ((drain ⟨0, 0⟩).run tiedWaits).result = .ok [⟨3⟩, ⟨4⟩, ⟨2⟩] ∧
      ∃ priorities : TaskId → Priority,
        (∀ task ∈ tiedWaits.waitersOf 0, tiedWaits.answer (.perform (.effectivePriority task)) =
          .ok (.priority (priorities task))) ∧
        [⟨3⟩, ⟨4⟩, ⟨2⟩] = byPriority priorities [⟨2⟩, ⟨3⟩, ⟨4⟩] := by
  have reachable : tiedWaits.Reachable :=
    (Reachable.fresh (build_of_valid Bounds.standard_valid ⟨false⟩)).after _
  have hq : tiedWaits.graph.resolve? ⟨0, 0⟩ = some 0 := by decide +kernel
  have hwaiters : tiedWaits.waitersOf 0 = [⟨2⟩, ⟨3⟩, ⟨4⟩] := by decide +kernel
  have hascending : ∀ grants ≤ 3,
      let g := (tiedWaits.after (.replicate grants (.perform (.nextThread ⟨0, 0⟩)))).graph
      ∀ w < g.tasks.size, ∀ q ∈ (g.task w).awaiting, ∀ t ∈ (g.queue q).holder.toList, w < t := by
    decide +kernel
  have hfree : ∀ grants ≤ (tiedWaits.waitersOf 0).length, (tiedWaits.after
      (.replicate grants (.perform (.nextThread ⟨0, 0⟩)))).graph.CirclesNowhere := by
    rw [hwaiters]
    exact fun grants hle => circlesNowhere_of_ascending (hascending grants hle)
  obtain ⟨served, -, -, -, hdrain, hsorted⟩ := draining_sorts reachable (by decide +kernel) hq
  obtain ⟨priorities, hpriorities, hserved⟩ := hsorted hfree
  have hresult : ((drain ⟨0, 0⟩).run tiedWaits).result = .ok [⟨3⟩, ⟨4⟩, ⟨2⟩] := by decide +kernel
  obtain rfl : served = [⟨3⟩, ⟨4⟩, ⟨2⟩] := Except.ok.inj (hdrain.symm.trans hresult)
  exact ⟨hwaiters, hresult, priorities, hpriorities, hwaiters ▸ hserved⟩

end Scheduler

end PriorityDonation
