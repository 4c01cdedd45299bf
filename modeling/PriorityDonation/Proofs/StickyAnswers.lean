import Mathlib.Control.Monad.Basic
import PriorityDonation.Proofs.Ledger
import PriorityDonation.Proofs.Settlement

/-!
# Answers that stick

Once a priority has been worked out, or the best waiter of a queue, the nodes asked for are settled.
More questions settle more nodes and leave the settled ones alone, so the answer stays the same
until something is changed, also where priority flows in a circle and the answer depends on what was
asked first. Only a new task may appear in between, in a slot that no settled node has.
-/

namespace PriorityDonation

/-- Whether an operation answers with a priority that it works out, or with the best waiter. -/
def Operation.asks : Operation → Bool
  | peekNext _ | queuePriority _ | effectivePriority _ => true
  | _ => false

namespace Graph

variable {g h : Graph} {floor base : Priority} {id : TaskId} {slot q : Nat} {n : Node}

/-- The waiter that shows the highest priority, the earliest to arrive among equals. -/
def best (g : Graph) (floor : Priority) (q : Nat) : Option Nat :=
  let waiters := (g.queue q).waiters
  ((waiters.zip (waiters.map fun t => g.value floor (.task t))).maxOn? Prod.snd).map Prod.fst

theorem mem_waiters_of_best {t : Nat} (ht : g.best floor q = some t) :
    t ∈ (g.queue q).waiters := by
  obtain ⟨⟨t', priority⟩, hbest, rfl⟩ := Option.map_eq_some_iff.mp ht
  exact (List.of_mem_zip (List.maxOn?_mem hbest)).1

theorem best_congr (waiters : (h.queue q).waiters = (g.queue q).waiters)
    (value : ∀ t ∈ (g.queue q).waiters, h.value floor (.task t) = g.value floor (.task t)) :
    h.best floor q = g.best floor q := by
  simp only [best, waiters, List.map_congr_left value]

theorem pick_best (floor : Priority) (q : Nat) (g : Graph) :
    (pick floor q g).1 = (pick floor q g).2.best floor q ∧
      ∀ t ∈ (g.queue q).waiters, (pick floor q g).2.Settled floor (.task t) := by
  obtain ⟨priorities, h, he, hpick⟩ := pick_evaluates floor q g
  rw [hpick, best, he.sameTies.waiters, he.answers, List.map_map]
  exact ⟨rfl, fun t ht => he.settled (List.mem_map_of_mem ht)⟩

theorem pick_settled (hn : ∀ t ∈ (g.queue q).waiters, g.Settled floor (.task t)) :
    pick floor q g = (g.best floor q, g) := by
  have hall : ∀ n ∈ (g.queue q).waiters.map Node.task, g.Settled floor n := by
    simpa using hn
  simp only [pick, evaluateAll_settled hall, best, List.map_map]
  rfl

theorem Attached.keeps_settled (a : Attached g id base slot h) (c : g.Consistent) (hu : g.InUse n)
    (hn : g.Settled floor n) :
    h.Settled floor n ∧ h.value floor n = g.value floor n := by
  have i := a.isolates c floor
  have hne : n ≠ .task slot := by
    rintro rfl
    exact a.not_tracked hu
  obtain ⟨hdirty, hcached, hconducts, hcaches, -, hseed⟩ := i.read hne
  refine ⟨⟨?_, ?_⟩, (i.other hne).2.2.2.2⟩
  · rw [hconducts, hdirty]
    exact hn.clean
  · rw [hconducts, hcaches, hcached, hseed]
    exact hn.cached

end Graph

namespace Scheduler

open PriorityDonation.Graph

variable {α : Type} {s s' s'' : Scheduler} {queue : QueueHandle}

/-- All that was settled is settled still and shows the same priority, and nobody sees a difference
but for tasks that were not tracked. -/
structure Deepens (s s' : Scheduler) : Prop where
  bounds : s'.bounds = s.bounds
  interrupts : s'.interrupts = s.interrupts
  lookup? {id : TaskId} {t : Nat} : s.graph.lookup? id = some t → s'.graph.lookup? id = some t
  resolve? (handle : QueueHandle) : s'.graph.resolve? handle = s.graph.resolve? handle
  waiters (q : Nat) : (s'.graph.queue q).waiters = (s.graph.queue q).waiters
  id {t : Nat} : s.graph.Tracked t → (s'.graph.task t).id = (s.graph.task t).id
  inUse {n : Node} : s.graph.InUse n → s'.graph.InUse n
  settled {n : Node} : s.graph.InUse n → s.graph.Settled s.bounds.lowest n →
    s'.graph.Settled s.bounds.lowest n ∧
      s'.graph.value s.bounds.lowest n = s.graph.value s.bounds.lowest n

namespace Deepens

theorem refl (s : Scheduler) : s.Deepens s :=
  ⟨rfl, rfl, fun ht => ht, fun _ => rfl, fun _ => rfl, fun _ => rfl, fun hu => hu,
    fun _ hn => ⟨hn, rfl⟩⟩

theorem trans (d : s.Deepens s') (d' : s'.Deepens s'') : s.Deepens s'' where
  bounds := d'.bounds.trans d.bounds
  interrupts := d'.interrupts.trans d.interrupts
  lookup? h := d'.lookup? (d.lookup? h)
  resolve? handle := (d'.resolve? handle).trans (d.resolve? handle)
  waiters q := (d'.waiters q).trans (d.waiters q)
  id ht := (d'.id (d.inUse (n := .task _) ht)).trans (d.id ht)
  inUse hu := d'.inUse (d.inUse hu)
  settled hu hn := by
    obtain ⟨hsettled, hvalue⟩ := d.settled hu hn
    obtain ⟨hsettled', hvalue'⟩ := d'.settled (d.inUse hu) (d.bounds.symm ▸ hsettled)
    rw [d.bounds] at hsettled' hvalue'
    exact ⟨hsettled', hvalue'.trans hvalue⟩

theorem of_evaluates {nodes : List Node} {priorities : List Priority} {h : Graph}
    (he : Evaluates s.bounds.lowest s.graph nodes priorities h) : s.Deepens (s.withGraph h) where
  bounds := rfl
  interrupts := rfl
  lookup? h := (he.sameTies.lookup? _).trans h
  resolve? := he.sameTies.resolve?
  waiters := he.sameTies.waiters
  id _ := he.sameTies.id _
  inUse := (he.sameTies.inUse _).mpr
  settled _ hn := he.keeps_settled hn

theorem attaching (c : s.graph.Consistent) (task : TaskId) :
    s.Deepens (s.withGraph (s.attaching task)) := by
  cases hid : s.graph.lookup? task with
  | some t =>
    rw [(slotOf_of_some hid).2]
    exact .refl s
  | none =>
    have a := attach_attached c.toRostered s.bounds.initial hid
    have hne {t : Nat} (ht : s.graph.Tracked t) : t ≠ s.slotOf task := by
      rintro rfl
      exact a.not_tracked ht
    refine ⟨rfl, rfl, ?_, ?_, ?_, ?_, ?_, a.keeps_settled c⟩
    · intro id t ht
      rw [graph_withGraph, Scheduler.attaching, a.lookup?, if_neg]
      · exact ht
      · rintro rfl
        simp [hid] at ht
    · intro handle
      simp only [graph_withGraph, Graph.resolve?, queue_attaching]
    · intro q
      rw [graph_withGraph, queue_attaching]
    · intro t ht
      rw [graph_withGraph, Scheduler.attaching, a.task_of_ne (hne ht)]
    · intro n hu
      cases n with
      | task t => exact (a.tracked t).mpr (Or.inl hu)
      | queue q =>
        change ((s.attaching task).queue q).live = true
        rw [queue_attaching]
        exact hu

theorem guarded {body : Except Fault α × Scheduler} (hbody : s.Deepens body.2) :
    s.Deepens (s.guarded body).2 := guarded_induction (.refl s) hbody

theorem onQueue {body : Nat → Except Fault α × Scheduler}
    (hbody : ∀ slot, s.Deepens (body slot).2) : s.Deepens (s.onQueue queue body).2 :=
  onQueue_induction (.refl s) fun slot _ => hbody slot

end Deepens

theorem deepens_pick (q : Nat) :
    s.Deepens (s.withGraph (pick s.bounds.lowest q s.graph).2) := by
  obtain ⟨priorities, h, he, hpick⟩ := pick_evaluates s.bounds.lowest q s.graph
  rw [hpick]
  exact .of_evaluates he

end Scheduler

open Scheduler PriorityDonation.Graph

variable {s s' : Scheduler}

theorem Operation.deepens (operation : Operation) (hfills : operation.fills = true)
    (c : s.graph.Consistent) : s.Deepens (operation.perform.effect s).2 := by
  cases operation with
  | peekNext queue =>
    rw [perform, Call.effect_map, effect_peekNext]
    exact .onQueue fun slot => deepens_pick slot
  | queuePriority queue =>
    rw [perform, Call.effect_map, effect_queuePriority]
    exact .onQueue fun slot => .of_evaluates (evaluate_evaluates _ _ _)
  | effectivePriority task =>
    rw [perform, Call.effect_map, effect_effectivePriority]
    have hattached := Deepens.attaching c task
    refine .guarded (hattached.trans ?_)
    exact .of_evaluates (s := s.withGraph (s.attaching task)) (evaluate_evaluates _ _ _)
  | listTasks =>
    rw [perform, Call.effect_map, effect_listTasks]
    exact .guarded (.of_evaluates (evaluateAll_evaluates _ _ _))
  | dumpQueue queue =>
    rw [perform, Call.effect_map, effect_dumpQueue]
    refine .onQueue fun slot => ?_
    refine (Deepens.of_evaluates (evaluate_evaluates _ (.queue slot) _)).trans ?_
    exact .of_evaluates (s := s.withGraph (evaluate s.bounds.lowest (.queue slot) s.graph).2)
      (evaluateAll_evaluates _ _ _)
  | _ => cases hfills

namespace Scheduler

/-- The answer to a question that takes no work. -/
def reading (s : Scheduler) (question : Operation) : Except Fault Reply :=
  if s.interrupts.enabled then .error .interruptsEnabled else match question with
    | .effectivePriority task =>
        .ok (.priority (s.graph.value s.bounds.lowest (.task (s.slotOf task))))
    | .queuePriority queue => match s.graph.resolve? queue with
        | some q => .ok (.priority (s.graph.value s.bounds.lowest (.queue q)))
        | none => .error (.unknownQueue queue)
    | .peekNext queue => match s.graph.resolve? queue with
        | some q => .ok (.task ((s.graph.best s.bounds.lowest q).map fun t => (s.graph.task t).id))
        | none => .error (.unknownQueue queue)
    | _ => .ok .done

/-- Whether a question takes no work. -/
def Settles (s : Scheduler) (question : Operation) : Prop :=
  s.interrupts.enabled = false → match question with
    | .effectivePriority task => ∃ t, s.graph.lookup? task = some t ∧
        s.graph.Settled s.bounds.lowest (.task t)
    | .queuePriority queue => ∀ q, s.graph.resolve? queue = some q →
        s.graph.Settled s.bounds.lowest (.queue q)
    | .peekNext queue => ∀ q, s.graph.resolve? queue = some q →
        ∀ t ∈ (s.graph.queue q).waiters, s.graph.Settled s.bounds.lowest (.task t)
    | _ => True

variable {question : Operation} {queue : QueueHandle}

theorem Settles.effect (hasks : question.asks = true) (hs : s.Settles question) :
    question.perform.effect s = (s.reading question, s) := by
  cases question with
  | effectivePriority task =>
    rw [Operation.perform, Call.effect_map, effect_effectivePriority, map_guarded]
    cases hi : s.interrupts.enabled with
    | true => simp [guarded, reading, hi]
    | false =>
      obtain ⟨t, ht, hn⟩ := hs hi
      obtain ⟨hslot, hgraph⟩ := slotOf_of_some ht
      simp [guarded, reading, hi, hslot, hgraph, evaluate_settled hn, Except.map]
  | queuePriority queue =>
    rw [Operation.perform, Call.effect_map, effect_queuePriority, map_onQueue]
    cases hi : s.interrupts.enabled with
    | true => simp [onQueue, guarded, reading, hi]
    | false =>
      cases hq : s.graph.resolve? queue with
      | none => simp [onQueue_of_none hi hq, reading, hi, hq]
      | some q =>
        simp [onQueue_of_some hi hq, reading, hi, hq, evaluate_settled (hs hi q hq), Except.map]
  | peekNext queue =>
    rw [Operation.perform, Call.effect_map, effect_peekNext, map_onQueue]
    cases hi : s.interrupts.enabled with
    | true => simp [onQueue, guarded, reading, hi]
    | false =>
      cases hq : s.graph.resolve? queue with
      | none => simp [onQueue_of_none hi hq, reading, hi, hq]
      | some q =>
        simp [onQueue_of_some hi hq, reading, hi, hq, pick_settled (hs hi q hq), Except.map]
  | _ => cases hasks

/-- A question settles what it asks for, and is answered with what is there afterwards. -/
theorem settles_question (hasks : question.asks = true) (c : s.graph.Coherent s.bounds) :
    (question.perform.effect s).2.Settles question ∧
      (question.perform.effect s).1 = (question.perform.effect s).2.reading question := by
  cases question with
  | effectivePriority task =>
    rw [Operation.perform, Call.effect_map, effect_effectivePriority, map_guarded]
    cases hi : s.interrupts.enabled with
    | true => simp [guarded, reading, Settles, hi]
    | false =>
      have hsettled := settled_evaluate s.bounds.lowest (.task (s.slotOf task)) (s.attaching task)
      have hanswer := evaluate_fst s.bounds.lowest (.task (s.slotOf task)) (s.attaching task)
      have ties := sameTies_evaluate s.bounds.lowest (.task (s.slotOf task)) (s.attaching task)
      have hlookup := (ties.lookup? task).trans (lookup?_attaching c task)
      have hslot := (slotOf_of_some (s := s.withGraph _) hlookup).1
      rw [guarded_of_disabled hi]
      refine ⟨fun _ => ⟨_, hlookup, hsettled⟩, ?_⟩
      simp [reading, hi, hslot, hanswer, Except.map]
  | queuePriority queue =>
    rw [Operation.perform, Call.effect_map, effect_queuePriority, map_onQueue]
    cases hi : s.interrupts.enabled with
    | true => simp [onQueue, guarded, reading, Settles, hi]
    | false =>
      cases hq : s.graph.resolve? queue with
      | none => simp [onQueue_of_none hi hq, reading, Settles, hi, hq]
      | some q =>
        have hsettled := settled_evaluate s.bounds.lowest (.queue q) s.graph
        have hanswer := evaluate_fst s.bounds.lowest (.queue q) s.graph
        have ties := sameTies_evaluate s.bounds.lowest (.queue q) s.graph
        have hq' := (ties.resolve? queue).trans hq
        rw [onQueue_of_some hi hq]
        refine ⟨fun _ q' h => ?_, ?_⟩
        · cases hq'.symm.trans h
          exact hsettled
        · simp [reading, hi, hq', hanswer, Except.map]
  | peekNext queue =>
    rw [Operation.perform, Call.effect_map, effect_peekNext, map_onQueue]
    cases hi : s.interrupts.enabled with
    | true => simp [onQueue, guarded, reading, Settles, hi]
    | false =>
      cases hq : s.graph.resolve? queue with
      | none => simp [onQueue_of_none hi hq, reading, Settles, hi, hq]
      | some q =>
        obtain ⟨hbest, hsettled⟩ := pick_best s.bounds.lowest q s.graph
        have ties := (pick_sound s.bounds.lowest q s.graph).1
        have hq' := (ties.resolve? queue).trans hq
        rw [onQueue_of_some hi hq]
        refine ⟨fun _ q' h t ht => ?_, ?_⟩
        · cases hq'.symm.trans h
          exact hsettled t (ties.waiters q ▸ ht)
        · simp [reading, hi, hq', hbest, Except.map]
  | _ => cases hasks

/-- More questions change neither what is settled nor how it reads. -/
theorem Deepens.settles (d : s.Deepens s') (c : s.graph.Consistent)
    (hasks : question.asks = true) (hs : s.Settles question) :
    s'.Settles question ∧ s'.reading question = s.reading question := by
  cases hi : s.interrupts.enabled with
  | true =>
    have hi' : s'.interrupts.enabled = true := by rw [d.interrupts, hi]
    simp [Settles, reading, hi, hi']
  | false =>
  have hi' : s'.interrupts.enabled = false := by rw [d.interrupts, hi]
  cases question with
  | effectivePriority task =>
    obtain ⟨t, ht, hn⟩ := hs hi
    obtain ⟨hsettled, hvalue⟩ := d.settled (n := .task t) ((c.lookup_iff task t).mp ht).1 hn
    have hslot := (slotOf_of_some ht).1
    have hslot' := (slotOf_of_some (d.lookup? ht)).1
    refine ⟨fun _ => ⟨t, d.lookup? ht, d.bounds.symm ▸ hsettled⟩, ?_⟩
    simp [reading, hi, hi', hslot, hslot', d.bounds, hvalue]
  | queuePriority queue =>
    cases hq : s.graph.resolve? queue with
    | none => simp [Settles, reading, hi, hi', d.resolve?, hq]
    | some q =>
      obtain ⟨hsettled, hvalue⟩ := d.settled (n := .queue q) (resolve?_eq_some hq).2.1 (hs hi q hq)
      simp [Settles, reading, hi, hi', d.resolve?, hq, d.bounds, hsettled, hvalue]
  | peekNext queue =>
    cases hq : s.graph.resolve? queue with
    | none => simp [Settles, reading, hi, hi', d.resolve?, hq]
    | some q =>
      have hwaits (t : Nat) (ht : t ∈ (s.graph.queue q).waiters) :=
        d.settled (n := .task t) (c.tracked_of_waiter ht) (hs hi q hq t ht)
      have hbest := best_congr (d.waiters q) fun t ht => (hwaits t ht).2
      have hid : (s.graph.best s.bounds.lowest q).map (fun t => (s'.graph.task t).id) =
          (s.graph.best s.bounds.lowest q).map fun t => (s.graph.task t).id :=
        Option.map_congr fun t ht => d.id (c.tracked_of_waiter (mem_waiters_of_best ht))
      refine ⟨fun _ q' h t ht => ?_, ?_⟩
      · rw [d.resolve?, hq] at h
        cases h
        exact d.bounds.symm ▸ (hwaits t (d.waiters q ▸ ht)).1
      · simp only [reading, hi, hi', d.resolve?, hq, d.bounds, hbest, hid]
  | _ => cases hasks

theorem deepens_after (c : s.graph.Coherent s.bounds) {later : List Operation}
    (hlater : ∀ operation ∈ later, operation.fills = true) :
    s.Deepens (s.after (later.map .perform)) ∧
      (s.after (later.map .perform)).graph.Coherent s.bounds := by
  induction later generalizing s with
  | nil => exact ⟨.refl s, c⟩
  | cons operation rest ih =>
    have hfirst := operation.deepens (hlater operation List.mem_cons_self) c.toConsistent
    have cnext := coherent_next c (.perform operation)
    obtain ⟨hrest, clast⟩ := ih cnext fun o ho => hlater o (List.mem_cons_of_mem operation ho)
    refine ⟨hfirst.trans hrest, ?_⟩
    rw [bounds_next c] at clast
    exact clast

/-- Where the best waiter is settled, the queue is granted to it. -/
theorem Settles.nextThread {q t : Nat} (hs : s.Settles (.peekNext queue)) (c : s.graph.Consistent)
    (disabled : s.interrupts.enabled = false) (hq : s.graph.resolve? queue = some q)
    (hb : s.graph.best s.bounds.lowest q = some t) :
    ∃ g, (nextThread queue).effect s = (.ok (some (s.graph.task t).id), s.withGraph g) ∧
      (s.withGraph g).holderOf q = some (s.graph.task t).id ∧ g.resolve? queue = some q := by
  have hlive := (resolve?_eq_some hq).2.1
  have hw := mem_waiters_of_best hb
  have ht := c.tracked_of_waiter hw
  have roster := (setHolder_edits hlive s.bounds ht).sameRoster
  have hholder := congrArg (Outline.holder · q) (outline_setHolder hlive ht)
  simp only [outline, if_true] at hholder
  refine ⟨((s.graph.dequeue q t).setHolder q t).count fun c =>
    { c with handoffs := c.handoffs + 1 }, ?_, ?_, ?_⟩
  · rw [effect_nextThread, onQueue_of_some disabled hq, pick_settled (hs disabled q hq), hb]
    simp only [setHolder_dequeue hlive hw, roster.id]
  · simp only [setHolder_dequeue hlive hw, holderOf, graph_withGraph, queue_count, task_count,
      hholder, Option.map_some, roster.id]
  · rw [setHolder_dequeue hlive hw, ← hq]
    simp only [Graph.resolve?, queue_count, roster.live, roster.generation]

theorem Settles.grants (hs : s.Settles (.peekNext queue)) (c : s.graph.Consistent) :
    s.answer (.perform (.nextThread queue)) = s.reading (.peekNext queue) ∧
      ∀ task, s.reading (.peekNext queue) = .ok (.task (some task)) →
        (s.next (.perform (.nextThread queue))).answer (.perform (.holder queue)) =
          .ok (.task (some task)) := by
  change ((Operation.nextThread queue).perform.effect s).1 = _ ∧ ∀ task, _ →
    ((Operation.holder queue).perform.effect
      ((Operation.nextThread queue).perform.effect s).2).1 = _
  simp only [Operation.perform, Call.effect_map]
  cases hi : s.interrupts.enabled with
  | true => simp [effect_nextThread, onQueue, guarded, reading, hi, Except.map]
  | false =>
    cases hq : s.graph.resolve? queue with
    | none => simp [effect_nextThread, onQueue_of_none hi hq, reading, hi, hq, Except.map]
    | some q =>
      cases hb : s.graph.best s.bounds.lowest q with
      | none =>
        simp [effect_nextThread, onQueue_of_some hi hq, pick_settled (hs hi q hq), reading, hi, hq,
          hb, Except.map]
      | some t =>
        obtain ⟨g, heffect, hholder, hq'⟩ := hs.nextThread c hi hq hb
        have hi' : (s.withGraph g).interrupts.enabled = false := hi
        rw [heffect, effect_holder, onQueue_of_some hi' hq', hholder]
        simp [reading, hi, hq, hb, Except.map]

/-- Once a question has been answered, more questions of any kind change neither the answer nor
anything that the answer is read from, and a best waiter that was named is the one that is granted.
-/
theorem answers_stick (reachable : s.Reachable) (hasks : question.asks = true)
    {later : List Operation} (hlater : ∀ operation ∈ later, operation.fills = true) :
    let asked := (s.next (.perform question)).after (later.map .perform)
    asked.answer (.perform question) = s.answer (.perform question) ∧
      asked.next (.perform question) = asked ∧
      ∀ queue, question = .peekNext queue →
        asked.answer (.perform (.nextThread queue)) = s.answer (.perform question) ∧
        ∀ task, s.answer (.perform question) = .ok (.task (some task)) →
          (asked.next (.perform (.nextThread queue))).answer (.perform (.holder queue)) =
            .ok (.task (some task)) := by
  intro asked
  have c := reachable.coherent
  have cnext := (reachable.next (.perform question)).coherent
  obtain ⟨hsettles, hanswer⟩ := settles_question hasks c
  obtain ⟨deepens, casked⟩ := deepens_after cnext hlater
  obtain ⟨hsettled, hreading⟩ := deepens.settles cnext.toConsistent hasks hsettles
  have heffect := hsettled.effect hasks
  have hfirst : s.answer (.perform question) = asked.reading question := hanswer.trans hreading.symm
  rw [hfirst]
  refine ⟨congrArg Prod.fst heffect, congrArg Prod.snd heffect, ?_⟩
  rintro queue rfl
  exact hsettled.grants casked.toConsistent

/-- Two tasks wait for each other, and a third one waits with the second for what the first holds.
-/
def crossedWaits : Scheduler :=
  after ⟨.standard, Bounds.standard_valid, ⟨false⟩, {}⟩ <| List.map .perform
    [.newWaitQueue true, .newWaitQueue true, .acquire ⟨0, 0⟩ ⟨1⟩, .acquire ⟨1, 0⟩ ⟨2⟩,
      .waitForAccess ⟨1, 0⟩ ⟨1⟩, .waitForAccess ⟨0, 0⟩ ⟨3⟩, .waitForAccess ⟨0, 0⟩ ⟨2⟩,
      .setPriority ⟨1⟩ 5, .setPriority ⟨3⟩ 4]

theorem answers_stick_crossedWaits :
    let questions : List Operation :=
      [.effectivePriority ⟨1⟩, .queuePriority ⟨1, 0⟩, .effectivePriority ⟨9⟩, .listTasks,
        .dumpQueue ⟨0, 0⟩]
    let asked := (crossedWaits.next (.perform (.peekNext ⟨0, 0⟩))).after (questions.map .perform)
    asked.answer (.perform (.peekNext ⟨0, 0⟩)) = .ok (.task (some ⟨2⟩)) ∧
      asked.next (.perform (.peekNext ⟨0, 0⟩)) = asked ∧
      asked.answer (.perform (.nextThread ⟨0, 0⟩)) = .ok (.task (some ⟨2⟩)) ∧
      (asked.next (.perform (.nextThread ⟨0, 0⟩))).answer (.perform (.holder ⟨0, 0⟩)) =
        .ok (.task (some ⟨2⟩)) := by
  intro questions asked
  have reachable : crossedWaits.Reachable :=
    (Reachable.fresh (build_of_valid Bounds.standard_valid ⟨false⟩)).after _
  have hanswer : crossedWaits.answer (.perform (.peekNext ⟨0, 0⟩)) = .ok (.task (some ⟨2⟩)) := by
    decide +kernel
  have hfills : ∀ operation ∈ questions, operation.fills = true := by decide
  have hasks : (Operation.peekNext ⟨0, 0⟩).asks = true := rfl
  have h := answers_stick reachable hasks hfills
  rw [hanswer] at h
  obtain ⟨hsame, hstate, hgrant⟩ := h
  obtain ⟨hwinner, hholder⟩ := hgrant _ rfl
  exact ⟨hsame, hstate, hwinner, hholder _ rfl⟩

end Scheduler

end PriorityDonation
