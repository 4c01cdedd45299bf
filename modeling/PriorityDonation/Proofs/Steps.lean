import PriorityDonation.Proofs.Retirement

/-!
# Transitions step by step

A transition is a chain of steps, each of which keeps a graph coherent and can rely on what it needs
because the graph it starts from is consistent. What a transition does to the ties and the base
priorities is told by the outline of the graph.

A step either evaluates a node or is a change, and changes are felt downstream only. So a property
that nodes have by what lies upstream of them is kept by a transition as soon as the evaluations in
it keep it. The nodes that a transition evaluates are told by their kind.
-/

namespace PriorityDonation

/-- The base priorities and the ties of the tasks and queues in each slot, read from the queues. -/
structure Outline where
  base : Nat → Priority
  holder : Nat → Option Nat
  waiters : Nat → List Nat

namespace Graph

def outline (g : Graph) : Outline where
  base t := (g.task t).base
  holder q := (g.queue q).holder
  waiters q := (g.queue q).waiters

/-- Any number of edits, each with its marking. -/
def Edits (bounds : Bounds) : Graph → Graph → Prop :=
  Relation.ReflTransGen fun g h => ∃ e v, g.Edit bounds e v ∧ h = e.invalidate v

/-- Any number of edits, each with its marking, that make only some nodes doubtful. -/
def EditsAt (bounds : Bounds) (doubtful : Node → Prop) : Graph → Graph → Prop :=
  Relation.ReflTransGen fun g h => ∃ e v, doubtful v ∧ g.Edit bounds e v ∧ h = e.invalidate v

/-- One step of a transition, with what it relies on. -/
inductive Step (bounds : Bounds) (g : Graph) : Graph → Prop
  | edit {e : Graph} {v : Node} : g.Edit bounds e v → Step bounds g (e.invalidate v)
  | attach (id : TaskId) : Step bounds g (attach id bounds.initial g).2
  | create (transfers : Bool) : Step bounds g (createQueue transfers bounds.lowest g).2
  | discard {q : Nat} : (g.queue q).live = true → (g.queue q).holder = none →
      (g.queue q).waiters = [] → Step bounds g (g.discard q)
  | retire {t : Nat} : g.Tracked t → Step bounds g (retire t g).2
  | evaluate {n : Node} : g.InUse n → Step bounds g (evaluate bounds.lowest n g).2
  | count (f : Counters → Counters) : Step bounds g (g.count f)

def Steps (bounds : Bounds) : Graph → Graph → Prop := Relation.ReflTransGen (Step bounds)

/-- A step that evaluates nothing. -/
inductive Change (bounds : Bounds) (g : Graph) : Graph → Prop
  | edit {e : Graph} {v : Node} : g.Edit bounds e v → Change bounds g (e.invalidate v)
  | attach (id : TaskId) : Change bounds g (attach id bounds.initial g).2
  | create (transfers : Bool) : Change bounds g (createQueue transfers bounds.lowest g).2
  | discard {q : Nat} : (g.queue q).live = true → (g.queue q).holder = none →
      (g.queue q).waiters = [] → Change bounds g (g.discard q)
  | retire {t : Nat} : g.Tracked t → Change bounds g (retire t g).2
  | count (f : Counters → Counters) : Change bounds g (g.count f)

/-- Changes, and evaluations of nodes of some kind, one after the other. -/
def Moves (bounds : Bounds) (kind : Graph → Node → Prop) : Graph → Graph → Prop :=
  Relation.ReflTransGen fun g h =>
    Change bounds g h ∨ ∃ n, g.InUse n ∧ kind g n ∧ h = (evaluate bounds.lowest n g).2

variable {bounds : Bounds} {g h k : Graph} {q t : Nat}

theorem Coherent.step (valid : bounds.Valid) (c : g.Coherent bounds) (hs : g.Step bounds h) :
    h.Coherent bounds := by
  cases hs with
  | edit he => exact c.edit he
  | attach id => exact c.attach valid id
  | create transfers => exact c.createQueue transfers
  | discard hq hholder hwaiters => exact c.discard hq hholder hwaiters
  | retire ht => exact c.retire ht
  | evaluate _ => exact c.evaluates (evaluate_evaluates _ _ _)
  | count f => exact c.count f

theorem Coherent.steps (valid : bounds.Valid) (c : g.Coherent bounds) (hs : g.Steps bounds h) :
    h.Coherent bounds := by
  induction hs with
  | refl => exact c
  | tail _ hstep ih => exact ih.step valid hstep

theorem Change.step (hc : g.Change bounds h) : g.Step bounds h := by
  cases hc with
  | edit he => exact .edit he
  | attach id => exact .attach id
  | create transfers => exact .create transfers
  | discard hq hholder hwaiters => exact .discard hq hholder hwaiters
  | retire ht => exact .retire ht
  | count f => exact .count f

section Kept

variable {kind : Graph → Node → Prop} {P : Graph → Node → Prop}

theorem ReadsUpstream.change (reads : ReadsUpstream bounds.lowest P) (c : g.Coherent bounds)
    (hc : g.Change bounds h) (hg : g.CleanNodes P) : h.CleanNodes P := by
  cases hc with
  | edit he => exact reads.kept (c.alters_feltDownstream (he.alters c.toConsistent)) hg
  | attach id =>
    cases hid : g.lookup? id with
    | none =>
      have a := attach_attached c.toRostered bounds.initial hid
      exact reads.kept ((a.isolates c.toConsistent _).feltDownstream c) hg
    | some slot =>
      rw [attach_of_some _ hid]
      exact hg
  | create transfers =>
    have a := createQueue_created c.toRostered transfers bounds.lowest
    exact reads.kept ((a.isolates c.toConsistent).feltDownstream c) hg
  | discard hq hholder hwaiters =>
    exact reads.kept ((isolates_discard hq hholder hwaiters _).feltDownstream c) hg
  | retire ht =>
    have hsevered := reads.kept (c.severed_feltDownstream ht) hg
    exact reads.kept ((isolates_retire c ht).feltDownstream (c.severed ht)) hsevered
  | count f => exact reads.kept (g.feltDownstream_count _ f) hg

namespace Moves

theorem steps (hm : g.Moves bounds kind h) : g.Steps bounds h := by
  refine Relation.ReflTransGen.mono ?_ _ _ hm
  rintro g h (hc | ⟨n, hn, -, rfl⟩)
  · exact hc.step
  · exact .evaluate hn

theorem cleanNodes (valid : bounds.Valid) (reads : ReadsUpstream bounds.lowest P)
    (evaluates : ∀ g n, g.Coherent bounds → g.InUse n → kind g n → g.CleanNodes P →
      (evaluate bounds.lowest n g).2.CleanNodes P)
    (c : g.Coherent bounds) (hm : g.Moves bounds kind h) (hg : g.CleanNodes P) :
    h.CleanNodes P := by
  induction hm with
  | refl => exact hg
  | tail hfirst hlast ih =>
    have ck := c.steps valid (steps hfirst)
    rcases hlast with hc | ⟨n, hn, hkind, rfl⟩
    · exact reads.change ck hc ih
    · exact evaluates _ n ck hn hkind ih

end Moves

end Kept

theorem SameRoster.refl (g : Graph) : SameRoster g g := (SameTies.refl g).sameRoster

theorem SameRoster.trans (a : SameRoster g h) (b : SameRoster h k) : SameRoster g k :=
  ⟨b.index.trans a.index, b.taskSlots.trans a.taskSlots, b.freeTasks.trans a.freeTasks,
    b.queueSlots.trans a.queueSlots, b.freeQueues.trans a.freeQueues,
    fun t => (b.id t).trans (a.id t), fun q => (b.generation q).trans (a.generation q),
    fun q => (b.live q).trans (a.live q), fun q => (b.transfers q).trans (a.transfers q)⟩

theorem SameTies.outline (a : SameTies g h) : h.outline = g.outline := by
  simp only [Graph.outline, a.base, a.holder, a.waiters]

namespace Edits

theorem sameRoster (hs : g.Edits bounds h) : SameRoster g h := by
  induction hs with
  | refl => exact .refl g
  | tail _ hstep ih =>
    obtain ⟨e, v, he, rfl⟩ := hstep
    exact (ih.trans he.sameRoster).trans (e.sameTies_invalidate v).sameRoster

theorem steps (hs : g.Edits bounds h) : g.Steps bounds h :=
  Relation.ReflTransGen.mono (fun _ _ ⟨_, _, he, hh⟩ => hh ▸ .edit he) _ _ hs

end Edits

namespace EditsAt

variable {doubtful wider : Node → Prop}

theorem edits (hs : g.EditsAt bounds doubtful h) : g.Edits bounds h :=
  Relation.ReflTransGen.mono (fun _ _ ⟨e, v, _, he, hh⟩ => ⟨e, v, he, hh⟩) _ _ hs

theorem mono (hs : g.EditsAt bounds doubtful h) (sub : ∀ v, doubtful v → wider v) :
    g.EditsAt bounds wider h :=
  Relation.ReflTransGen.mono (fun _ _ ⟨e, v, hv, he, hh⟩ => ⟨e, v, sub v hv, he, hh⟩) _ _ hs

theorem of_edit {e : Graph} {v : Node} (he : g.Edit bounds e v) (hv : doubtful v) :
    g.EditsAt bounds doubtful (e.invalidate v) :=
  .single ⟨e, v, hv, he, rfl⟩

end EditsAt

theorem outline_retie (hq : q < g.queues.size) (t : Nat) (f : WaitQueue → WaitQueue)
    (f' : Task → Task) (hf' : ∀ x, (f' x).base = x.base) (n : Node) :
    ((g.retie q t f f').invalidate n).outline =
      { base := g.outline.base
        holder := fun q' => if q' = q then (f (g.queue q)).holder else g.outline.holder q'
        waiters := fun q' =>
          if q' = q then (f (g.queue q)).waiters else g.outline.waiters q' } := by
  rw [((g.retie q t f f').sameTies_invalidate n).outline]
  have hqueue := queue_retie (t := t) hq f f'
  have hbase (t' : Nat) : ((g.retie q t f f').task t').base = (g.task t').base := by
    simp only [retie, task_modifyTask, task_modifyQueue]
    split
    · exact hf' _
    · rfl
  simp only [outline, hqueue, hbase]
  grind

theorem clearHolder_editsAt (bounds : Bounds) (g : Graph) (q : Nat) :
    g.EditsAt bounds (· ∈ g.beneficiaries (.queue q)) (g.clearHolder q) := by
  unfold clearHolder
  split
  · exact .refl
  · rename_i hholder
    exact .of_edit (.drop hholder) (by simp [beneficiaries, hholder])

theorem clearHolder_edits (bounds : Bounds) (g : Graph) (q : Nat) :
    g.Edits bounds (g.clearHolder q) := (g.clearHolder_editsAt bounds q).edits

theorem outline_clearHolder (hq : (g.queue q).live = true) : (g.clearHolder q).outline =
    { g.outline with holder := fun q' => if q' = q then none else g.outline.holder q' } := by
  unfold clearHolder
  split
  · rename_i hholder
    simp only [outline]
    grind
  · rename_i t _
    refine (outline_retie (lt_of_live hq) t (·.withHolder none) (·.release q)
      (fun _ => rfl) _).trans ?_
    simp only [outline, WaitQueue.withHolder]
    grind

theorem dequeue_editsAt (bounds : Bounds) (ht : t ∈ (g.queue q).waiters) :
    g.EditsAt bounds (· = .queue q) (g.dequeue q t) :=
  .of_edit (.leave ht) rfl

theorem outline_dequeue (hq : (g.queue q).live = true) (t : Nat) : (g.dequeue q t).outline =
    { g.outline with
      waiters := fun q' => if q' = q then (g.outline.waiters q).filter (· ≠ t)
        else g.outline.waiters q' } := by
  refine (outline_retie (lt_of_live hq) t (·.dequeue t) (·.leave q) (fun _ => rfl) _).trans ?_
  simp only [outline, WaitQueue.dequeue]
  grind

/-- A waiter that becomes the holder leaves the waiters anyway. -/
theorem setHolder_dequeue (hq : (g.queue q).live = true) (ht : t ∈ (g.queue q).waiters) :
    (g.dequeue q t).setHolder q t = g.setHolder q t := by
  have hwaiters := (congrArg (Outline.waiters · q) (outline_dequeue hq t) :)
  simp only [outline, if_true] at hwaiters
  have hleft : t ∉ ((g.dequeue q t).queue q).waiters := by simp [hwaiters]
  simp only [setHolder, ht, hleft, if_true, if_false]

section Transitions

variable (hq : (g.queue q).live = true)
include hq

theorem enqueue_editsAt (bounds : Bounds) (ht : g.Tracked t) (hw : t ∉ (g.queue q).waiters) :
    g.EditsAt bounds (fun v => v = .queue q ∨ v = .task t ∧ (g.queue q).holder = some t)
      (g.enqueue q t) := by
  unfold enqueue
  split
  · rename_i hheld
    have hclear := g.clearHolder_editsAt bounds q
    have roster := hclear.edits.sameRoster
    have houtline := outline_clearHolder hq
    have hholder := (congrArg (Outline.holder · q) houtline :)
    have hwaiters := (congrArg (Outline.waiters · q) houtline :)
    simp only [outline, if_true] at hholder hwaiters
    have hfirst : g.EditsAt bounds (fun v => v = .queue q ∨ v = .task t ∧
        (g.queue q).holder = some t) (g.clearHolder q) := by
      refine hclear.mono fun v hv => ?_
      simp only [beneficiaries, hheld, Option.toList_some, List.map_cons, List.map_nil,
        List.mem_singleton] at hv
      exact Or.inr ⟨hv, hheld⟩
    refine hfirst.trans (EditsAt.of_edit (.join ?_ ?_ ?_ ?_) (Or.inl rfl))
    · rw [roster.live]
      exact hq
    · exact (roster.tracked t).mpr ht
    · simp [hholder]
    · rw [hwaiters]
      exact hw
  · rename_i hholder
    exact EditsAt.of_edit (.join hq ht hholder hw) (Or.inl rfl)

theorem enqueue_edits (bounds : Bounds) (ht : g.Tracked t) (hw : t ∉ (g.queue q).waiters) :
    g.Edits bounds (g.enqueue q t) := (enqueue_editsAt hq bounds ht hw).edits

theorem outline_enqueue (t : Nat) : (g.enqueue q t).outline =
    { g.outline with
      holder := fun q' => if q' = q ∧ g.outline.holder q = some t then none
        else g.outline.holder q'
      waiters := fun q' => if q' = q then g.outline.waiters q ++ [t]
        else g.outline.waiters q' } := by
  unfold enqueue
  split
  · rename_i h
    have hlive : ((g.clearHolder q).queue q).live = true := by
      rw [(g.clearHolder_edits .standard q).sameRoster.live]
      exact hq
    have houtline := outline_clearHolder hq
    have hwaiters := (congrArg (Outline.waiters · q) houtline :)
    have hholder := (congrArg (Outline.holder · q) houtline :)
    simp only [outline, if_true] at hholder hwaiters
    refine (outline_retie (lt_of_live hlive) t (·.enqueue t) (·.await q) (fun _ => rfl) _).trans ?_
    rw [houtline]
    simp only [outline, WaitQueue.enqueue, hholder, hwaiters, h]
    grind
  · rename_i h
    refine (outline_retie (lt_of_live hq) t (·.enqueue t) (·.await q) (fun _ => rfl) _).trans ?_
    simp only [outline, WaitQueue.enqueue, h, and_false, if_false]
    grind

/-- The task that is to hold the queue stops waiting, and the queue is nobody else's. -/
theorem setHolder_prepares (bounds : Bounds) (ht : g.Tracked t) :
    ∃ k, g.EditsAt bounds (fun v => v = .queue q ∨ v ∈ g.beneficiaries (.queue q)) k ∧
      g.setHolder q t = (k.retie q t (·.withHolder (some t)) (·.acquire q)).invalidate (.task t) ∧
      (∀ t', (k.queue q).holder = some t' → t' = t) ∧
      (∀ q', q' ≠ q → (k.queue q').holder = (g.queue q').holder) ∧
      k.outline.base = g.outline.base ∧
      k.outline.waiters = fun q' => if q' = q then (g.outline.waiters q).filter (· ≠ t)
        else g.outline.waiters q' := by
  obtain ⟨k, hk, hdef, houtline⟩ : ∃ k, g.EditsAt bounds (· = .queue q) k ∧
      k = (if t ∈ (g.queue q).waiters then g.dequeue q t else g) ∧ k.outline =
        { g.outline with
          waiters := fun q' => if q' = q then (g.outline.waiters q).filter (· ≠ t)
            else g.outline.waiters q' } := by
    refine ⟨_, ?_, rfl, ?_⟩
    · split
      · rename_i hw
        exact dequeue_editsAt bounds hw
      · exact .refl
    · split
      · exact outline_dequeue hq t
      · rename_i hw
        have hfilter : (g.queue q).waiters.filter (· ≠ t) = (g.queue q).waiters := by
          refine List.filter_eq_self.mpr fun t' ht' => decide_eq_true ?_
          rintro rfl
          exact hw ht'
        simp only [outline, hfilter]
        grind
  have hlive : (k.queue q).live = true := by
    rw [hk.edits.sameRoster.live]
    exact hq
  have hholder (q' : Nat) := (congrArg (Outline.holder · q') houtline :)
  simp only [outline] at hholder
  have hfirst : g.EditsAt bounds (fun v => v = .queue q ∨ v ∈ g.beneficiaries (.queue q)) k :=
    hk.mono fun _ => Or.inl
  unfold setHolder
  rw [← hdef]
  by_cases h : (k.queue q).holder = some t
  · refine ⟨k, hfirst, by simp only [h, if_true]; rfl, ?_, fun q' _ => hholder q', ?_, ?_⟩
    · intro t' ht'
      rw [h] at ht'
      exact (Option.some.inj ht').symm
    · rw [houtline]
    · rw [houtline]
  · have hclear := outline_clearHolder hlive
    have hcleared (q' : Nat) := (congrArg (Outline.holder · q') hclear :)
    simp only [outline] at hcleared
    have hlast : k.EditsAt bounds (fun v => v = .queue q ∨ v ∈ g.beneficiaries (.queue q))
        (k.clearHolder q) := by
      refine (k.clearHolder_editsAt bounds q).mono fun v hv => ?_
      simp only [beneficiaries, hholder] at hv
      exact Or.inr hv
    refine ⟨k.clearHolder q, hfirst.trans hlast, ?_, ?_, ?_, ?_, ?_⟩
    · simp only [h, if_false]
      rfl
    · intro t' ht'
      simp [hcleared] at ht'
    · intro q' hq'
      rw [hcleared, if_neg hq', hholder]
    · rw [hclear, houtline]
    · rw [hclear, houtline]

theorem setHolder_editsAt (bounds : Bounds) (ht : g.Tracked t) :
    g.EditsAt bounds (fun v => v = .queue q ∨ v = .task t ∨ v ∈ g.beneficiaries (.queue q))
      (g.setHolder q t) := by
  obtain ⟨k, hk, hset, hholder, _, _, hwaiters⟩ := setHolder_prepares hq bounds ht
  have roster := hk.edits.sameRoster
  have hw := (congrFun hwaiters q :)
  simp only [outline, if_true] at hw
  rw [hset]
  refine (hk.mono fun _ => Or.imp_right Or.inr).trans
    (EditsAt.of_edit (.take ?_ ?_ ?_ hholder) (Or.inr (Or.inl rfl)))
  · rw [roster.live]
    exact hq
  · exact (roster.tracked t).mpr ht
  · simp [hw]

theorem setHolder_edits (bounds : Bounds) (ht : g.Tracked t) :
    g.Edits bounds (g.setHolder q t) := (setHolder_editsAt hq bounds ht).edits

theorem outline_setHolder (ht : g.Tracked t) : (g.setHolder q t).outline =
    { g.outline with
      holder := fun q' => if q' = q then some t else g.outline.holder q'
      waiters := fun q' => if q' = q then (g.outline.waiters q).filter (· ≠ t)
        else g.outline.waiters q' } := by
  obtain ⟨k, hk, hset, _, hholder, hbase, hwaiters⟩ :=
    setHolder_prepares hq .standard ht
  have hlive : (k.queue q).live = true := by
    rw [hk.edits.sameRoster.live]
    exact hq
  rw [hset]
  refine (outline_retie (lt_of_live hlive) t (·.withHolder (some t)) (·.acquire q)
    (fun _ => rfl) _).trans ?_
  rw [hbase, hwaiters]
  have hw := (congrFun hwaiters q :)
  simp only [outline, if_true, WaitQueue.withHolder] at hw ⊢
  grind

end Transitions

theorem setBase_editsAt {base : Priority} (ht : g.Tracked t) (hb : base ∈ bounds) :
    g.EditsAt bounds (fun v => v = .task t ∧ base ≠ (g.task t).base) (g.setBase t base) := by
  unfold setBase
  split
  · exact .refl
  · rename_i hne
    exact EditsAt.of_edit (.rebase ht hb) ⟨rfl, Ne.symm hne⟩

theorem setBase_edits {base : Priority} (ht : g.Tracked t) (hb : base ∈ bounds) :
    g.Edits bounds (g.setBase t base) := (setBase_editsAt ht hb).edits

theorem outline_setBase (ht : g.Tracked t) (base : Priority) : (g.setBase t base).outline =
    { g.outline with base := fun t' => if t' = t then base else g.outline.base t' } := by
  have hlt := ht.1
  unfold setBase
  split
  · simp only [outline]
    grind
  · rw [((g.modifyTask t (·.withBase base)).sameTies_invalidate (.task t)).outline]
    simp only [outline, task_modifyTask, queue_modifyTask]
    grind [Task.withBase]

theorem attach_tracked (c : g.Consistent) (id : TaskId) (base : Priority) :
    (attach id base g).2.Tracked (attach id base g).1 ∧
      (attach id base g).2.lookup? id = some (attach id base g).1 := by
  cases hid : g.lookup? id with
  | none =>
    have a := attach_attached c.toRostered base hid
    refine ⟨(a.tracked _).mpr (Or.inr rfl), ?_⟩
    rw [a.lookup?, if_pos rfl]
  | some slot =>
    rw [attach_of_some base hid]
    exact ⟨((c.lookup_iff id slot).mp hid).1, hid⟩

end Graph

end PriorityDonation
