import PriorityDonation.Proofs.PriorityBounds
import PriorityDonation.Proofs.QueryIndependence
import PriorityDonation.Proofs.RebuildBudget

/-!
# Grants

A queue is granted to the waiter that answers with the highest effective priority when the waiters
are asked in order of arrival, and to the earliest of them among equals. Asking rebuilds caches and
changes no tie, so the waiter that was chosen waits still when the queue is granted to it. The grant
moves this one task from the waiters to the holder, takes the queue from whoever held it before, and
leaves all other ties and all base priorities as they were.
-/

namespace PriorityDonation

/-- The first of the best entries parts the list: the entries before it are worse, and those after
it are no better. -/
theorem maxOn?_split {α : Type} {f : α → Priority} {entries : List α} {best : α}
    (h : entries.maxOn? f = some best) :
    ∃ earlier later, entries = earlier ++ best :: later ∧ (∀ entry ∈ earlier, f entry < f best) ∧
      ∀ entry ∈ later, f entry ≤ f best := by
  induction entries generalizing best with
  | nil => simp at h
  | cons first rest ih =>
    rw [List.maxOn?_cons, Option.some.injEq] at h
    cases hrest : rest.maxOn? f with
    | none =>
      have hsome : (rest.maxOn? f).isSome ↔ rest ≠ [] := List.isSome_maxOn?_iff
      have hnil : rest = [] := by simpa [hrest] using hsome
      subst hnil
      rw [hrest] at h
      obtain rfl : first = best := h
      exact ⟨[], [], by simp⟩
    | some other =>
      obtain ⟨earlier, later, hsplit, hearlier, hlater⟩ := ih hrest
      rw [hrest, Option.elim_some, maxOn_eq_if] at h
      split at h
      · rename_i hle
        subst h
        refine ⟨[], rest, rfl, by simp, fun entry hentry => ?_⟩
        have hbest := List.le_apply_get_maxOn?_of_mem (f := f) hentry
        simp only [hrest, Option.get_some] at hbest
        exact Int32.le_trans hbest hle
      · rename_i hlt
        subst h
        refine ⟨first :: earlier, later, by rw [hsplit]; rfl, ?_, hlater⟩
        exact List.forall_mem_cons.mpr ⟨Int32.not_le.mp hlt, hearlier⟩

namespace Graph

variable {bounds : Bounds} {g h k : Graph} {floor : Priority} {q t : Nat}

/-- The waiters of a queue with the priorities that they answered with, cut at the first of the
best. -/
structure Ranked (g : Graph) (floor : Priority) (q : Nat) (earlier : List (Nat × Priority))
    (best : Nat × Priority) (later : List (Nat × Priority)) (h : Graph) : Prop where
  waiters : (g.queue q).waiters = (earlier ++ best :: later).map Prod.fst
  evaluated : evaluateAll floor ((g.queue q).waiters.map .task) g =
    ((earlier ++ best :: later).map Prod.snd, h)
  lt_best : ∀ entry ∈ earlier, entry.2 < best.2
  le_best : ∀ entry ∈ later, entry.2 ≤ best.2

theorem pick_of_no_waiters (hw : (g.queue q).waiters = []) : pick floor q g = (none, g) := by
  simp only [pick, hw]
  rfl

theorem pick_ranked (floor : Priority) (hw : (g.queue q).waiters ≠ []) :
    ∃ earlier best later h,
      g.Ranked floor q earlier best later h ∧ pick floor q g = (some best.1, h) := by
  have hpick : pick floor q g =
      ((((g.queue q).waiters.zip (evaluateAll floor ((g.queue q).waiters.map .task) g).1).maxOn?
        Prod.snd).map Prod.fst, (evaluateAll floor ((g.queue q).waiters.map .task) g).2) := rfl
  have hlength : (g.queue q).waiters.length =
      (evaluateAll floor ((g.queue q).waiters.map .task) g).1.length := by
    rw [(evaluateAll_evaluates floor _ g).answers, List.length_map, List.length_map]
  generalize hasked : evaluateAll floor ((g.queue q).waiters.map .task) g = asked at hpick hlength
  obtain ⟨priorities, h⟩ := asked
  cases hbest : ((g.queue q).waiters.zip priorities).maxOn? Prod.snd with
  | none => exact absurd ((pick_sound floor q g).2.2 (by rw [hpick, hbest]; rfl)) hw
  | some best =>
    obtain ⟨earlier, later, hsplit, hearlier, hlater⟩ := maxOn?_split hbest
    have hfst := List.map_fst_zip (Nat.le_of_eq hlength)
    have hsnd := List.map_snd_zip (Nat.le_of_eq hlength.symm)
    rw [hsplit] at hfst hsnd
    refine ⟨earlier, best, later, h, ⟨hfst.symm, hsnd ▸ hasked, hearlier, hlater⟩, ?_⟩
    rw [hpick, hbest, Option.map_some]

namespace Ranked

variable {earlier later : List (Nat × Priority)} {best : Nat × Priority}
  (ranked : g.Ranked floor q earlier best later h)
include ranked

theorem evaluates : Evaluates floor g ((g.queue q).waiters.map .task)
    ((earlier ++ best :: later).map Prod.snd) h := by
  have he := evaluateAll_evaluates floor ((g.queue q).waiters.map .task) g
  rwa [ranked.evaluated] at he

/-- The waiters show the priorities that they answered with. -/
theorem shown : ∀ entry ∈ earlier ++ best :: later, h.shown floor entry.1 = entry.2 := by
  have hanswers := ranked.evaluates.answers
  rw [ranked.waiters, List.map_map, List.map_map] at hanswers
  exact fun entry hentry => (List.map_inj_left.mp hanswers entry hentry).symm

theorem best_mem : best.1 ∈ (g.queue q).waiters := by
  rw [ranked.waiters]
  exact List.mem_map_of_mem (List.mem_append_right earlier List.mem_cons_self)

/-- Without the best one, the waiters keep their order. -/
theorem others (c : g.Tied) :
    (g.queue q).waiters.filter (· ≠ best.1) = (earlier ++ later).map Prod.fst := by
  have nodup := c.waiters_nodup q
  rw [ranked.waiters, List.map_append, List.map_cons, List.nodup_middle, List.nodup_cons,
    ← List.map_append] at nodup
  have kept (entries : List (Nat × Priority)) (hsub : ∀ entry ∈ entries, entry ∈ earlier ++ later) :
      (entries.map Prod.fst).filter (· ≠ best.1) = entries.map Prod.fst := by
    refine List.filter_eq_self.mpr fun t ht => decide_eq_true ?_
    rintro rfl
    obtain ⟨entry, hentry, hfst⟩ := List.mem_map.mp ht
    exact nodup.1 (List.mem_map.mpr ⟨entry, hsub entry hentry, hfst⟩)
  rw [ranked.waiters, List.map_append, List.map_cons, List.filter_append, List.filter_cons,
    if_neg (by simp), kept earlier fun _ => List.mem_append_left later,
    kept later fun _ => List.mem_append_right earlier, List.map_append]

end Ranked

/-- The second graph is the first one after a queue was granted to one of its waiters. -/
structure Granted (g : Graph) (q t : Nat) (h : Graph) : Prop where
  roster : SameRoster g h
  outline : h.outline =
    { g.outline with
      holder := fun q' => if q' = q then some t else g.outline.holder q'
      waiters := fun q' => if q' = q then (g.outline.waiters q).filter (· ≠ t)
        else g.outline.waiters q' }

theorem SameTies.granted (ties : SameTies g k) (c : k.Coherent bounds)
    (hq : (g.queue q).live = true) (ht : t ∈ (g.queue q).waiters) (f : Counters → Counters) :
    g.Granted q t (((k.dequeue q t).setHolder q t).count f) := by
  have hlive : (k.queue q).live = true := by rw [ties.live, hq]
  have hw : t ∈ (k.queue q).waiters := by rwa [ties.waiters]
  have htracked := c.tracked_of_waiter hw
  have hedits := setHolder_edits hlive bounds htracked
  have houtline := outline_setHolder hlive htracked
  rw [setHolder_dequeue hlive hw]
  refine ⟨(ties.sameRoster.trans hedits.sameRoster).trans (sameTies_count _ f).sameRoster, ?_⟩
  rw [((k.setHolder q t).sameTies_count f).outline, houtline, ties.outline]

namespace Granted

variable (granted : g.Granted q t h)
include granted

theorem base (t' : Nat) : (h.task t').base = (g.task t').base :=
  congrArg (Outline.base · t') granted.outline

theorem holder (q' : Nat) :
    (h.queue q').holder = if q' = q then some t else (g.queue q').holder :=
  congrArg (Outline.holder · q') granted.outline

theorem waiters (q' : Nat) : (h.queue q').waiters =
    if q' = q then (g.queue q).waiters.filter (· ≠ t) else (g.queue q').waiters :=
  congrArg (Outline.waiters · q') granted.outline

end Granted

theorem closed_behind (g : Graph) (q : Nat) :
    ∀ w w', g.DonatesTo w w' → g.Behind q w' → g.Behind q w :=
  fun _ _ hstep ⟨waiter, hw, habove⟩ => ⟨waiter, hw, habove.head hstep⟩

/-- Waiters that no circle lies behind answer with the solution of their equations. -/
theorem Evaluates.behind_solution {priorities : List Priority} (c : g.Coherent bounds)
    (he : Evaluates bounds.lowest g ((g.queue q).waiters.map .task) priorities h)
    (hfree : g.CircleFree (g.Behind q)) :
    g.UniqueSolution bounds.lowest (g.Behind q) (h.shown bounds.lowest) := by
  have ties := he.sameTies
  have ch := c.evaluates he
  refine ties.uniqueSolution (shown_solution ch _ ((ties.circleFree _).mpr hfree) ?_ ?_ ?_)
  · rw [ties.donatesTo]
    exact g.closed_behind q
  · exact fun w hw => (ties.tracked w).mpr (tracked_of_behind c.toConsistent hw)
  · rintro w ⟨waiter, hw, habove⟩
    have hclean : h.dirty (.task waiter) = false := he.clean (List.mem_map_of_mem hw) rfl
    have hup := upstream_of_above c.toConsistent habove
    rw [← ties.upstream] at hup
    by_contra hd
    simp [ch.closed.upstream hup (by simpa using hd)] at hclean

end Graph

namespace Scheduler

open PriorityDonation.Graph

variable {s s' : Scheduler} {queue : QueueHandle} {q t : Nat}

/-- What tasks answer when they are asked for their effective priorities one after the other. -/
def asked (s : Scheduler) (tasks : List TaskId) : List (Except Fault Reply) :=
  (s.transcript (tasks.map fun task => .perform (.effectivePriority task))).map Prod.snd

theorem asked_evaluateAll (disabled : s.interrupts.enabled = false) (c : s.graph.Consistent)
    {slots : List Nat} (tracked : ∀ t ∈ slots, s.graph.Tracked t) :
    s.asked (slots.map fun t => (s.graph.task t).id) =
      (evaluateAll s.bounds.lowest (slots.map .task) s.graph).1.map fun p => .ok (.priority p) := by
  induction slots generalizing s with
  | nil => rfl
  | cons t rest ih =>
    obtain ⟨ht, hrest⟩ := List.forall_mem_cons.mp tracked
    have ties := sameTies_evaluate s.bounds.lowest (.task t) s.graph
    obtain ⟨hslot, hgraph⟩ := slotOf_of_some ((c.lookup_iff _ t).mpr ⟨ht, rfl⟩)
    have heffect : (Operation.effectivePriority (s.graph.task t).id).perform.effect s =
        (.ok (.priority (evaluate s.bounds.lowest (.task t) s.graph).1),
          s.withGraph (evaluate s.bounds.lowest (.task t) s.graph).2) := by
      rw [Operation.perform, Call.effect_map, effect_effectivePriority,
        guarded_of_disabled disabled, hslot, hgraph]
      rfl
    have hanswer : s.answer (.perform (.effectivePriority (s.graph.task t).id)) = _ :=
      congrArg Prod.fst heffect
    have hnext : s.next (.perform (.effectivePriority (s.graph.task t).id)) = _ :=
      congrArg Prod.snd heffect
    have hlater := ih (s := s.withGraph (evaluate s.bounds.lowest (.task t) s.graph).2) disabled
      (c.congr ties) fun t' ht' => (ties.tracked t').mpr (hrest t' ht')
    simp only [graph_withGraph, bounds_withGraph, ties.id] at hlater
    rw [List.map_cons, List.map_cons, evaluateAll_cons, List.map_cons, ← hlater]
    simp only [asked, List.map_cons, transcript, hanswer, hnext]

section Granting

variable (disabled : s.interrupts.enabled = false) (hq : s.graph.resolve? queue = some q)
include disabled hq

theorem nextThread_of_no_waiters (hw : (s.graph.queue q).waiters = []) :
    (Operation.nextThread queue).perform.effect s = (.ok (.task none), s) := by
  rw [Operation.perform, Call.effect_map, effect_nextThread, onQueue_of_some disabled hq,
    pick_of_no_waiters hw]
  rfl

/-- A queue with waiters is granted to the best of them. -/
theorem nextThread_granted (c : s.graph.Coherent s.bounds) (hw : (s.graph.queue q).waiters ≠ []) :
    ∃ earlier best later k, s.graph.Ranked s.bounds.lowest q earlier best later k ∧
      s.answer (.perform (.nextThread queue)) = .ok (.task (some (s.graph.task best.1).id)) ∧
      s.graph.Granted q best.1 (s.next (.perform (.nextThread queue))).graph := by
  obtain ⟨earlier, best, later, k, ranked, hpick⟩ := pick_ranked s.bounds.lowest hw
  have granted := ranked.evaluates.sameTies.granted (c.evaluates ranked.evaluates)
    (resolve?_eq_some hq).2.1 ranked.best_mem fun c => { c with handoffs := c.handoffs + 1 }
  have heffect : (Operation.nextThread queue).perform.effect s =
      (.ok (.task (some (((k.dequeue q best.1).setHolder q best.1).task best.1).id)),
        s.withGraph (((k.dequeue q best.1).setHolder q best.1).count
          fun c => { c with handoffs := c.handoffs + 1 })) := by
    rw [Operation.perform, Call.effect_map, effect_nextThread, onQueue_of_some disabled hq, hpick]
    rfl
  have hnext : s.next (.perform (.nextThread queue)) = _ := congrArg Prod.snd heffect
  refine ⟨earlier, best, later, k, ranked, ?_, hnext ▸ granted⟩
  rw [← granted.roster.id]
  exact congrArg Prod.fst heffect

end Granting

/-- The second scheduler is the first one after a queue was granted to one of its waiters. -/
structure Grants (s : Scheduler) (q : Nat) (winner : TaskId) (others : List TaskId)
    (s' : Scheduler) : Prop where
  holder : s'.holderOf q = some winner
  waiters : s'.waitersOf q = others
  /-- The winner holds the queue, and nobody else has it among those he holds. -/
  held (t : Nat) : q ∈ (s'.graph.task t).held ↔ s'.graph.lookup? winner = some t
  released (t : Nat) : (s.graph.queue q).holder = some t → q ∉ (s'.graph.task t).held
  awaited (t : Nat) : s'.graph.lookup? winner = some t → q ∉ (s'.graph.task t).awaiting
  handoffs : s'.graph.counters.handoffs = s.graph.counters.handoffs + 1
  elsewhere (q' : Nat) : q' ≠ q → s'.holderOf q' = s.holderOf q' ∧ s'.waitersOf q' = s.waitersOf q'
  base? (task : TaskId) : s'.graph.base? task = s.graph.base? task

theorem grants_of_granted {answer : TaskId} (c : s.graph.Coherent s.bounds)
    (ht : t ∈ (s.graph.queue q).waiters)
    (hanswer : s.answer (.perform (.nextThread queue)) = .ok (.task (some answer)))
    (granted : s.graph.Granted q t (s.next (.perform (.nextThread queue))).graph) :
    s.Grants q (s.graph.task t).id
      (((s.graph.queue q).waiters.filter (· ≠ t)).map fun t' => (s.graph.task t').id)
      (s.next (.perform (.nextThread queue))) := by
  have cnext := coherent_next c (.perform (.nextThread queue))
  have hcommand : Command.perform (.nextThread queue) ≠ .perform .resetStatistics := by simp
  have pays := next_pays c hcommand
  rw [hanswer] at pays
  generalize s.next (.perform (.nextThread queue)) = s' at granted cnext pays
  have roster := granted.roster
  have htracked := c.tracked_of_waiter ht
  have hlookup : s'.graph.lookup? (s.graph.task t).id = some t := by
    rw [roster.lookup?]
    exact (c.lookup_iff _ t).mpr ⟨htracked, rfl⟩
  refine ⟨?_, ?_, ?_, ?_, ?_, pays.handoffs, ?_, ?_⟩
  · simp only [holderOf, granted.holder, if_true, Option.map_some, roster.id]
  · simp only [waitersOf, granted.waiters, if_true, roster.id]
  · intro t'
    rw [← cnext.holder_iff, granted.holder, if_pos rfl, hlookup]
  · intro t' hholder hheld
    rw [← cnext.holder_iff, granted.holder, if_pos rfl] at hheld
    cases hheld
    exact c.held_not_awaiting q t ((c.holder_iff q t).mp hholder) ((c.waiter_iff q t).mp ht)
  · intro t' ht' hawaiting
    rw [← cnext.waiter_iff, granted.waiters, if_pos rfl] at hawaiting
    cases hlookup.symm.trans ht'
    simp at hawaiting
  · intro q' hne
    simp only [holderOf, waitersOf, granted.holder, granted.waiters, if_neg hne, roster.id,
      and_self]
  · intro task
    exact roster.base? (funext granted.base) task

/-- Granting a queue that nobody waits for changes nothing. Otherwise the waiter of the highest
priority gets it, the earliest to arrive among equals, and nothing else changes hands. -/
theorem first_best_granted (reachable : s.Reachable) (disabled : s.interrupts.enabled = false)
    (hq : s.graph.resolve? queue = some q) :
    (s.waitersOf q = [] → s.answer (.perform (.nextThread queue)) = .ok (.task none) ∧
      s.next (.perform (.nextThread queue)) = s) ∧
    (s.waitersOf q ≠ [] → ∃ (earlier : List (TaskId × Priority)) (winner : TaskId)
      (highest : Priority) (later : List (TaskId × Priority)),
      s.waitersOf q = (earlier ++ (winner, highest) :: later).map Prod.fst ∧
      s.asked (s.waitersOf q) =
        (earlier ++ (winner, highest) :: later).map (fun entry => .ok (.priority entry.2)) ∧
      (∀ entry ∈ earlier, entry.2 < highest) ∧ (∀ entry ∈ later, entry.2 ≤ highest) ∧
      s.answer (.perform (.nextThread queue)) = .ok (.task (some winner)) ∧
      s.Grants q winner ((earlier ++ later).map Prod.fst)
        (s.next (.perform (.nextThread queue))) ∧
      (s.graph.CircleFree (s.graph.Behind q) →
        ∃ priorities t, s.graph.UniqueSolution s.bounds.lowest (s.graph.Behind q) priorities ∧
          s.graph.lookup? winner = some t ∧ priorities t = highest)) := by
  have c := reachable.coherent
  have tracked := tracked_waiters c q
  constructor
  · intro hnone
    have heffect := nextThread_of_no_waiters disabled hq (List.map_eq_nil_iff.mp hnone)
    exact ⟨congrArg Prod.fst heffect, congrArg Prod.snd heffect⟩
  intro hsome
  obtain ⟨earlier, best, later, k, ranked, hanswer, granted⟩ :=
    nextThread_granted disabled hq c fun hw => hsome (by rw [waitersOf, hw]; rfl)
  let name (entry : Nat × Priority) : TaskId × Priority := ((s.graph.task entry.1).id, entry.2)
  have hwaiters : s.waitersOf q =
      (earlier.map name ++ name best :: later.map name).map Prod.fst := by
    simp [waitersOf, ranked.waiters, name, Function.comp_def]
  have hasked : s.asked (s.waitersOf q) =
      (earlier.map name ++ name best :: later.map name).map
        fun entry => .ok (.priority entry.2) := by
    rw [waitersOf, asked_evaluateAll disabled c.toConsistent tracked, ranked.evaluated]
    simp [name, Function.comp_def]
  refine ⟨earlier.map name, (s.graph.task best.1).id, best.2, later.map name, hwaiters, hasked,
    List.forall_mem_map.mpr ranked.lt_best, List.forall_mem_map.mpr ranked.le_best, hanswer,
    ?_, ?_⟩
  · have grants := grants_of_granted c ranked.best_mem hanswer granted
    rw [ranked.others c.toTied] at grants
    simpa [name, Function.comp_def] using grants
  · intro hfree
    have hlookup := (c.lookup_iff _ _).mpr ⟨tracked _ ranked.best_mem, rfl⟩
    refine ⟨_, best.1, ranked.evaluates.behind_solution c hfree, hlookup, ?_⟩
    exact ranked.shown best (List.mem_append_right earlier List.mem_cons_self)

/-- Of three waiters the second one answers with what a fourth task donates to it, and the third one
with a base as high. -/
def tiedWaits : Scheduler :=
  let wanted : QueueHandle := ⟨0, 0⟩
  let other : QueueHandle := ⟨1, 0⟩
  after ⟨.standard, Bounds.standard_valid, ⟨false⟩, {}⟩ <| List.map .perform
    [.newWaitQueue true, .newWaitQueue true, .setPriority ⟨5⟩ 5, .waitForAccess wanted ⟨2⟩,
      .setPriority ⟨4⟩ 5, .acquire other ⟨3⟩, .waitForAccess wanted ⟨3⟩, .waitForAccess wanted ⟨4⟩,
      .waitForAccess other ⟨5⟩, .acquire wanted ⟨1⟩]

theorem first_best_granted_tiedWaits :
    tiedWaits.asked [⟨2⟩, ⟨3⟩, ⟨4⟩] = [.ok (.priority 1), .ok (.priority 5), .ok (.priority 5)] ∧
      tiedWaits.answer (.perform (.nextThread ⟨0, 0⟩)) = .ok (.task (some ⟨3⟩)) ∧
      tiedWaits.Grants 0 ⟨3⟩ [⟨2⟩, ⟨4⟩] (tiedWaits.next (.perform (.nextThread ⟨0, 0⟩))) ∧
      ∃ priorities t, tiedWaits.graph.UniqueSolution tiedWaits.bounds.lowest
          (tiedWaits.graph.Behind 0) priorities ∧
        tiedWaits.graph.lookup? ⟨3⟩ = some t ∧ priorities t = 5 := by
  have reachable : tiedWaits.Reachable :=
    (Reachable.fresh (build_of_valid Bounds.standard_valid ⟨false⟩)).after _
  have hfree : tiedWaits.graph.CirclesNowhere := circlesNowhere_of_ascending (by decide +kernel)
  have hwaiters : tiedWaits.waitersOf 0 = [⟨2⟩, ⟨3⟩, ⟨4⟩] := by decide +kernel
  have hasked : tiedWaits.asked (tiedWaits.waitersOf 0) =
      [.ok (.priority 1), .ok (.priority 5), .ok (.priority 5)] := by decide +kernel
  have hanswer : tiedWaits.answer (.perform (.nextThread ⟨0, 0⟩)) = .ok (.task (some ⟨3⟩)) := by
    decide +kernel
  have hq : tiedWaits.graph.resolve? ⟨0, 0⟩ = some 0 := by decide +kernel
  obtain ⟨earlier, winner, highest, later, hsplit, hpriorities, -, -, hwinner, grants, hsolution⟩ :=
    (first_best_granted reachable (by decide +kernel) hq).2 (by decide +kernel)
  obtain rfl : winner = ⟨3⟩ := by simpa [hanswer] using hwinner.symm
  have hothers : (earlier ++ later).map Prod.fst = [⟨2⟩, ⟨4⟩] :=
    grants.waiters.symm.trans (by decide +kernel)
  rw [hwaiters] at hsplit
  rw [hasked] at hpriorities
  obtain rfl : highest = 5 := by
    rcases earlier with _ | ⟨_, _ | ⟨_, _ | ⟨_, rest⟩⟩⟩ <;> simp_all
  exact ⟨hwaiters ▸ hasked, hanswer, hothers ▸ grants, hsolution fun w _ => hfree w trivial⟩

end Scheduler

end PriorityDonation
