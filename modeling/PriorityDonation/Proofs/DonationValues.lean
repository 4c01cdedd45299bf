import Mathlib.Order.WellFoundedSet
import PriorityDonation.Proofs.Histories

/-!
# Effective priorities as solutions of equations

The effective priority of a task is the largest of its base priority and the donations of the
queues it holds, and a queue that transfers donates the largest effective priority of its waiters.
Where nobody upstream donates to himself along a circle, these equations have exactly one solution,
which is the largest base priority upstream, and the answers of a scheduler agree with it.
-/

namespace PriorityDonation.Graph

/-- The first task waits on a queue that transfers and that the second one holds. -/
def DonatesTo (g : Graph) (w t : Nat) : Prop :=
  ∃ q ∈ (g.task w).awaiting, (g.queue q).transfers = true ∧ (g.queue q).holder = some t

/-- The first task is the second one or donates to it, directly or through others. -/
def Above (g : Graph) : Nat → Nat → Prop := Relation.ReflTransGen g.DonatesTo

/-- No task of this part of the graph donates to itself. -/
def CircleFree (g : Graph) (part : Nat → Prop) : Prop :=
  ∀ w, part w → ¬ Relation.TransGen g.DonatesTo w w

/-- The tasks that wait on a queue that transfers, and the tasks above them. -/
def AboveQueue (g : Graph) (q w : Nat) : Prop :=
  (g.queue q).transfers = true ∧ ∃ w' ∈ (g.queue q).waiters, g.Above w w'

/-- The donation of a queue if the tasks have the given priorities. -/
def donation (g : Graph) (floor : Priority) (priorities : Nat → Priority) (q : Nat) : Priority :=
  if (g.queue q).transfers then ((g.queue q).waiters.map priorities).foldl max floor else floor

/-- The equation of one task. -/
def Solves (g : Graph) (floor : Priority) (priorities : Nat → Priority) (t : Nat) : Prop :=
  priorities t = ((g.task t).held.map (g.donation floor priorities)).foldl max (g.task t).base

/-- The priorities solve the equations of a part of the graph, and no others do. -/
structure UniqueSolution (g : Graph) (floor : Priority) (part : Nat → Prop)
    (priorities : Nat → Priority) : Prop where
  solves : ∀ t, part t → g.Solves floor priorities t
  unique : ∀ others, (∀ t, part t → g.Solves floor others t) → ∀ t, part t → others t = priorities t

/-- The largest base priority in a part of the graph. -/
def LargestBase (g : Graph) (part : Nat → Prop) (priority : Priority) : Prop :=
  (∃ w, part w ∧ (g.task w).base = priority) ∧ ∀ w, part w → (g.task w).base ≤ priority

variable {bounds : Bounds} {g h : Graph} {floor : Priority} {q t w : Nat}

theorem max_cases (a b : Priority) : max a b = a ∨ max a b = b := by
  have h : max a b = if a ≤ b then b else a := rfl
  rw [h]
  split
  · exact Or.inr rfl
  · exact Or.inl rfl

theorem le_max (a b : Priority) : a ≤ max a b ∧ b ≤ max a b := by
  have h : max a b = if a ≤ b then b else a := rfl
  rw [h]
  split
  · rename_i hab
    exact ⟨hab, Int32.le_refl b⟩
  · rename_i hab
    exact ⟨Int32.le_refl a, Int32.le_of_lt (Int32.not_le.mp hab)⟩

theorem foldl_max_mem (l : List Priority) (a : Priority) :
    l.foldl max a = a ∨ l.foldl max a ∈ l := by
  induction l generalizing a with
  | nil => exact Or.inl rfl
  | cons b l ih =>
    rcases ih (max a b) with h | h
    · rcases max_cases a b with hmax | hmax
      · exact Or.inl (h.trans hmax)
      · exact Or.inr (List.mem_cons.mpr (Or.inl (h.trans hmax)))
    · exact Or.inr (List.mem_cons_of_mem b h)

theorem le_foldl_max (l : List Priority) (a : Priority) :
    a ≤ l.foldl max a ∧ ∀ b ∈ l, b ≤ l.foldl max a := by
  induction l generalizing a with
  | nil => exact ⟨Int32.le_refl a, by simp⟩
  | cons b l ih =>
    obtain ⟨hfirst, hrest⟩ := ih (max a b)
    obtain ⟨ha, hb⟩ := le_max a b
    refine ⟨Int32.le_trans ha hfirst, fun c hc => ?_⟩
    rcases List.mem_cons.mp hc with rfl | hc
    · exact Int32.le_trans hb hfirst
    · exact hrest c hc

section Flows

variable (c : g.Consistent)
include c

theorem donatesTo_iff : g.DonatesTo w t ↔
    ∃ q ∈ (g.task t).held, (g.queue q).transfers = true ∧ w ∈ (g.queue q).waiters := by
  simp only [DonatesTo, c.holder_iff, c.waiter_iff]
  constructor <;> rintro ⟨q, hq, hc, hq'⟩ <;> exact ⟨q, hq', hc, hq⟩

theorem upstream_of_above (h : g.Above w t) : g.Upstream (.task w) (.task t) := by
  induction h with
  | refl => exact .refl
  | tail _ hstep ih =>
    obtain ⟨q, hheld, hc, hw⟩ := (donatesTo_iff c).mp hstep
    have first : g.Feeds (.task _) (.queue q) := ⟨hc, List.mem_map_of_mem hw⟩
    have second : g.Feeds (.queue q) (.task _) := ⟨rfl, List.mem_map_of_mem hheld⟩
    exact (ih.tail first).tail second

/-- What flows from one task to another is donated on the way. -/
theorem donates_of_transGen {n : Node} (h : Relation.TransGen g.Feeds (.task w) n) :
    match n with
    | .task t => Relation.TransGen g.DonatesTo w t
    | .queue q => g.AboveQueue q w := by
  induction h with
  | @single n hf =>
    cases n with
    | task t => simp [Feeds, donors] at hf
    | queue q =>
      obtain ⟨w', hw', hn⟩ := List.mem_map.mp hf.2
      cases hn
      exact ⟨hf.1, w, hw', .refl⟩
  | @tail m n _ hf ih =>
    cases n with
    | task t =>
      obtain ⟨q, hq, rfl⟩ := List.mem_map.mp hf.2
      obtain ⟨hc, w', hw', habove⟩ := ih
      exact .tail' habove ((donatesTo_iff c).mpr ⟨q, hq, hc, hw'⟩)
    | queue q =>
      obtain ⟨w', hw', rfl⟩ := List.mem_map.mp hf.2
      exact ⟨hf.1, w', hw', ih.to_reflTransGen⟩

theorem above_of_upstream (h : g.Upstream (.task w) (.task t)) : g.Above w t := by
  rcases Relation.reflTransGen_iff_eq_or_transGen.mp h with heq | htrans
  · cases heq
    exact .refl
  · exact (donates_of_transGen c htrans).to_reflTransGen

/-- There is a task on every circle. -/
theorem acyclicAbove_of_circleFree (hfree : g.CircleFree (g.Above · t)) :
    g.AcyclicAbove (.task t) := by
  have task {w : Nat} (hup : g.Upstream (.task w) (.task t)) : ¬ g.OnCycle (.task w) :=
    fun hcycle => hfree w (above_of_upstream c hup) (donates_of_transGen c hcycle)
  intro m hm hcycle
  cases m with
  | task w => exact task hm hcycle
  | queue q =>
    obtain ⟨n, hn, hback⟩ := Relation.TransGen.head'_iff.mp hcycle
    cases n with
    | task w => exact task (hback.trans hm) (.tail' hback hn)
    | queue q' => simp [Feeds, donors] at hn

omit c in
theorem acyclicAbove_of_feeders {n : Node} (h : ∀ m, g.Feeds m n → g.AcyclicAbove m) :
    g.AcyclicAbove n := by
  intro m hm hcycle
  rcases Relation.ReflTransGen.cases_tail hm with rfl | ⟨k, hk, hf⟩
  · obtain ⟨k, hk, hf⟩ := Relation.TransGen.tail'_iff.mp hcycle
    exact h k hf n hk hcycle
  · exact h k hf m hk hcycle

end Flows

/-- A part of the graph without circles may be gone through from the top. -/
theorem part_induction (c : g.Consistent) {part : Nat → Prop} (hfree : g.CircleFree part)
    {P : Nat → Prop} (step : ∀ t, part t → (∀ w, g.DonatesTo w t → P w) → P t)
    (closed : ∀ w t, g.DonatesTo w t → part t → part w) : ∀ t, part t → P t := by
  let r (w t : Nat) : Prop := g.DonatesTo w t ∧ part t
  have hdonates {w t : Nat} (hr : Relation.TransGen r w t) : Relation.TransGen g.DonatesTo w t :=
    Relation.TransGen.mono (fun _ _ h => h.1) _ _ hr
  have hpart {w t : Nat} (hr : Relation.TransGen r w t) : part w := by
    induction hr using Relation.TransGen.head_induction_on with
    | single h => exact closed _ _ h.1 h.2
    | head h _ ih => exact closed _ _ h.1 ih
  have : IsStrictOrder Nat (Relation.TransGen r) :=
    { irrefl := fun w hw => hfree w (hpart hw) (hdonates hw)
      trans := fun _ _ _ => Relation.TransGen.trans }
  have wf := (Set.finite_Iio g.tasks.size).wellFoundedOn (r := Relation.TransGen r)
  have hlt {w t : Nat} (hw : g.DonatesTo w t) : w < g.tasks.size := by
    obtain ⟨q, hq, _⟩ := hw
    exact (c.awaiting_inUse q w hq).1.1
  have inside : ∀ w < g.tasks.size, part w → P w := by
    intro w hw
    refine wf.induction hw fun t _ ih ht => step t ht fun w' hw' => ?_
    exact ih w' (hlt hw') (.single ⟨hw', ht⟩) (closed w' t hw' ht)
  intro t ht
  exact step t ht fun w hw => inside w (hlt hw) (closed w t hw ht)

section Solutions

variable {part : Nat → Prop} {priorities others : Nat → Priority} (c : g.Consistent)
  (hfree : g.CircleFree part) (closed : ∀ w t, g.DonatesTo w t → part t → part w)
include c hfree closed

theorem solution_unique (hp : ∀ t, part t → g.Solves floor priorities t)
    (ho : ∀ t, part t → g.Solves floor others t) : ∀ t, part t → others t = priorities t := by
  refine part_induction c hfree (fun t ht ih => ?_) closed
  rw [hp t ht, ho t ht]
  congr 1
  refine List.map_congr_left fun q hq => ?_
  unfold donation
  split
  · rename_i hc
    congr 1
    refine List.map_congr_left fun w hw => ih w ?_
    exact (donatesTo_iff c).mpr ⟨q, hq, hc, hw⟩
  · rfl

/-- A solution shows the largest base priority upstream. -/
theorem solution_largestBase (hp : ∀ t, part t → g.Solves floor priorities t)
    (hfloor : ∀ t, part t → floor ≤ (g.task t).base) :
    ∀ t, part t → g.LargestBase (g.Above · t) (priorities t) := by
  refine part_induction c hfree (fun t ht ih => ?_) closed
  have hsolve := hp t ht
  obtain ⟨hbase, hdonations⟩ :=
    le_foldl_max ((g.task t).held.map (g.donation floor priorities)) (g.task t).base
  rw [← hsolve] at hbase hdonations
  constructor
  · rcases foldl_max_mem ((g.task t).held.map (g.donation floor priorities)) (g.task t).base
      with hown | hdonated
    · exact ⟨t, .refl, (hsolve.trans hown).symm⟩
    · rw [← hsolve] at hdonated
      obtain ⟨q, hq, hdonation⟩ := List.mem_map.mp hdonated
      -- a donation above the floor comes from a waiter, and the floor is no more than the base
      have hcases : priorities t = floor ∨
          ∃ w, g.DonatesTo w t ∧ priorities w = priorities t := by
        rw [donation] at hdonation
        split at hdonation
        · rename_i hc
          rcases foldl_max_mem ((g.queue q).waiters.map priorities) floor with h | h
          · exact Or.inl (hdonation.symm.trans h)
          · obtain ⟨w, hw, hwp⟩ := List.mem_map.mp h
            exact Or.inr ⟨w, (donatesTo_iff c).mpr ⟨q, hq, hc, hw⟩, hwp.trans hdonation⟩
        · exact Or.inl hdonation.symm
      rcases hcases with h | ⟨w, hw, hwp⟩
      · exact ⟨t, .refl, Int32.le_antisymm hbase (h ▸ hfloor t ht)⟩
      · obtain ⟨w', hw', hbase'⟩ := (ih w hw).1
        exact ⟨w', hw'.tail hw, hbase'.trans hwp⟩
  · intro w hw
    rcases Relation.ReflTransGen.cases_tail hw with rfl | ⟨w', hw', hstep⟩
    · exact hbase
    · refine Int32.le_trans ((ih w' hstep).2 w hw') ?_
      obtain ⟨q, hq, hc, hwaits⟩ := (donatesTo_iff c).mp hstep
      refine Int32.le_trans ?_ (hdonations _ (List.mem_map_of_mem hq))
      rw [donation, if_pos hc]
      exact (le_foldl_max _ floor).2 _ (List.mem_map_of_mem hwaits)

end Solutions

theorem circleFree_of_lt (h : ∀ w t, g.DonatesTo w t → w < t) (part : Nat → Prop) :
    g.CircleFree part := by
  have hlt {w t : Nat} (htrans : Relation.TransGen g.DonatesTo w t) : w < t := by
    induction htrans with
    | single hstep => exact h _ _ hstep
    | tail _ hstep ih => exact Nat.lt_trans ih (h _ _ hstep)
  exact fun w _ hw => Nat.lt_irrefl w (hlt hw)

/-- The priorities that the tasks show. -/
def shown (g : Graph) (floor : Priority) (t : Nat) : Priority := g.value floor (.task t)

section Shown

variable (c : g.Coherent bounds)
include c

theorem balanced_of_clean {n : Node} (hu : g.InUse n) (hd : g.dirty n = false)
    (hacyclic : g.AcyclicAbove n) : g.Balanced bounds.lowest n :=
  c.sound n hu id hd hacyclic

theorem value_queue (hu : g.InUse (.queue q)) (hd : g.dirty (.queue q) = false)
    (hacyclic : g.AcyclicAbove (.queue q)) :
    g.value bounds.lowest (.queue q) = g.donation bounds.lowest (g.shown bounds.lowest) q := by
  have hb := balanced_of_clean c hu hd hacyclic
  have hshown : g.value bounds.lowest ∘ Node.task = g.shown bounds.lowest := rfl
  rw [hb, donation, sources]
  cases hc : (g.queue q).transfers
  · simp [conducts, hc, seed]
  · simp [conducts, hc, seed, donors, hshown]

theorem clean_of_feeds {m n : Node} (hf : g.Feeds m n) (hd : g.dirty n = false) :
    g.dirty m = false := by
  by_contra hm
  simp [(c.closed m n hf (by simpa using hm)).resolve_right id] at hd

theorem solves_of_clean (ht : g.Tracked t) (hd : g.dirty (.task t) = false)
    (hacyclic : g.AcyclicAbove (.task t)) :
    g.Solves bounds.lowest (g.shown bounds.lowest) t := by
  have hb := balanced_of_clean c (n := .task t) ht hd hacyclic
  have hdonations : (g.sources (.task t)).map (g.value bounds.lowest) =
      (g.task t).held.map (g.donation bounds.lowest (g.shown bounds.lowest)) := by
    have hsources : g.sources (.task t) = (g.task t).held.map .queue := rfl
    rw [hsources, List.map_map]
    refine List.map_congr_left fun q hq => ?_
    have hf : g.Feeds (.queue q) (.task t) := ⟨rfl, List.mem_map_of_mem hq⟩
    exact value_queue c (c.inUse_of_donor hf.2) (clean_of_feeds c hf hd) (hacyclic.of_feeds hf)
  rw [Solves, ← hdonations]
  exact hb

/-- What the tasks above a clean task show is the solution of their equations. -/
theorem shown_solution (part : Nat → Prop) (hfree : g.CircleFree part)
    (closed : ∀ w t, g.DonatesTo w t → part t → part w) (inUse : ∀ t, part t → g.Tracked t)
    (clean : ∀ t, part t → g.dirty (.task t) = false) :
    g.UniqueSolution bounds.lowest part (g.shown bounds.lowest) := by
  have above {w t : Nat} (hw : g.Above w t) (ht : part t) : part w := by
    induction hw using Relation.ReflTransGen.head_induction_on with
    | refl => exact ht
    | head hstep _ ih => exact closed _ _ hstep ih
  have solves (t : Nat) (ht : part t) : g.Solves bounds.lowest (g.shown bounds.lowest) t :=
    solves_of_clean c (inUse t ht) (clean t ht)
      (acyclicAbove_of_circleFree c.toConsistent fun w hw => hfree w (above hw ht))
  exact ⟨solves, fun others ho => solution_unique c.toConsistent hfree closed solves ho⟩

end Shown

namespace SameTies

variable (a : SameTies g h)
include a

theorem donatesTo : h.DonatesTo = g.DonatesTo := by
  funext w t
  simp only [Graph.DonatesTo, a.awaiting, a.transfers, a.holder]

theorem circleFree (part : Nat → Prop) : h.CircleFree part ↔ g.CircleFree part := by
  simp only [CircleFree, a.donatesTo]

theorem donation (floor : Priority) (priorities : Nat → Priority) :
    h.donation floor priorities = g.donation floor priorities := by
  funext q
  simp only [Graph.donation, a.transfers, a.waiters]

theorem uniqueSolution {part : Nat → Prop} {priorities : Nat → Priority}
    (hs : h.UniqueSolution floor part priorities) : g.UniqueSolution floor part priorities := by
  have hsolves (others : Nat → Priority) (t : Nat) :
      h.Solves floor others t ↔ g.Solves floor others t := by
    simp only [Solves, a.donation, a.held, a.base]
  refine ⟨fun t ht => (hsolves _ t).mp (hs.solves t ht), fun others ho => ?_⟩
  exact hs.unique others fun t ht => (hsolves others t).mpr (ho t ht)

end SameTies

theorem inUse_of_upstream (c : g.Consistent) {m n : Node} (hn : g.InUse n)
    (hup : g.Upstream m n) : g.InUse m := by
  induction hup using Relation.ReflTransGen.head_induction_on with
  | refl => exact hn
  | head hf _ _ => exact c.inUse_of_donor hf.2

theorem tracked_of_above (c : g.Consistent) (ht : g.Tracked t) (hw : g.Above w t) : g.Tracked w :=
  inUse_of_upstream c (n := .task t) ht (upstream_of_above c hw)

/-- Evaluating a node finds the solution for the tasks upstream of it. -/
theorem Evaluates.solution {n : Node} {priority : Priority} {part : Nat → Prop}
    (c : g.Coherent bounds) (he : Evaluates bounds.lowest g [n] [priority] h) (hn : g.InUse n)
    (upstream : ∀ t, part t → g.conducts n = true ∧ g.Upstream (.task t) n)
    (hfree : g.CircleFree part) (closed : ∀ w t, g.DonatesTo w t → part t → part w) :
    g.UniqueSolution bounds.lowest part (h.shown bounds.lowest) := by
  have ties := he.sameTies
  have ch := c.evaluates he
  refine ties.uniqueSolution (shown_solution ch part ((ties.circleFree part).mpr hfree) ?_ ?_ ?_)
  · rw [ties.donatesTo]
    exact closed
  · intro t ht
    exact (ties.tracked t).mpr (inUse_of_upstream c.toConsistent hn (upstream t ht).2)
  · intro t ht
    obtain ⟨hc, hup⟩ := upstream t ht
    have hclean := he.clean List.mem_cons_self hc
    by_contra hd
    rw [← ties.upstream] at hup
    simp [ch.closed.upstream hup (by simpa using hd)] at hclean

theorem Evaluates.priority_eq {n : Node} {priority : Priority}
    (he : Evaluates floor g [n] [priority] h) : priority = h.value floor n := by
  simpa using he.answers

theorem closed_above (g : Graph) (t : Nat) :
    ∀ w w', g.DonatesTo w w' → g.Above w' t → g.Above w t :=
  fun _ _ hstep habove => habove.head hstep

theorem closed_aboveQueue (g : Graph) (q : Nat) :
    ∀ w w', g.DonatesTo w w' → g.AboveQueue q w' → g.AboveQueue q w :=
  fun _ _ hstep ⟨hc, w', hw', habove⟩ => ⟨hc, w', hw', habove.head hstep⟩

/-- Evaluating a queue yields the donation that follows from the solution for the tasks above. -/
theorem evaluate_queue {priority : Priority} (c : g.Coherent bounds)
    (he : Evaluates bounds.lowest g [.queue q] [priority] h) (hq : (g.queue q).live = true)
    (hfree : g.CircleFree (g.AboveQueue q)) :
    priority = g.donation bounds.lowest (h.shown bounds.lowest) q := by
  have ties := he.sameTies
  have ch := c.evaluates he
  have hacyclic : h.AcyclicAbove (.queue q) := by
    refine acyclicAbove_of_feeders fun m hm => ?_
    obtain ⟨w, hw, rfl⟩ := List.mem_map.mp hm.2
    refine acyclicAbove_of_circleFree ch.toConsistent fun w' hw' => ?_
    rw [ties.donatesTo]
    refine hfree w' ⟨?_, w, ?_, ?_⟩
    · exact ties.transfers q ▸ hm.1
    · exact ties.waiters q ▸ hw
    · rwa [Above, ties.donatesTo] at hw'
  have hclean := he.clean_of_flags (fun n hd => (c.flags n hd).1) List.mem_cons_self
  rw [he.priority_eq, ← ties.donation]
  exact value_queue ch ((ties.inUse (.queue q)).mpr hq) hclean hacyclic

end PriorityDonation.Graph

namespace PriorityDonation.Scheduler

open PriorityDonation.Graph

variable {s : Scheduler}

/-- At every point of every history, whatever circles there have been: where no circle lies
upstream, the answers are the unique solution of the equations of priority donation. -/
theorem priorities_solve_equations (reachable : s.Reachable)
    (disabled : s.interrupts.enabled = false) :
    (∀ task t, s.graph.lookup? task = some t → s.graph.CircleFree (s.graph.Above · t) →
      ∃ priorities, s.graph.UniqueSolution s.bounds.lowest (s.graph.Above · t) priorities ∧
        s.graph.LargestBase (s.graph.Above · t) (priorities t) ∧
        ((effectivePriority task).run s).result = .ok (priorities t)) ∧
    (∀ queue q, s.graph.resolve? queue = some q → s.graph.CircleFree (s.graph.AboveQueue q) →
      ∃ priorities, s.graph.UniqueSolution s.bounds.lowest (s.graph.AboveQueue q) priorities ∧
        ((queuePriority queue).run s).result =
          .ok (s.graph.donation s.bounds.lowest priorities q)) := by
  have c := reachable.coherent
  constructor
  · intro task t ht hfree
    have htracked := ((c.lookup_iff task t).mp ht).1
    have hattach := attach_of_some s.bounds.initial ht
    have hslot : s.slotOf task = t := congrArg Prod.fst hattach
    have hgraph : s.attaching task = s.graph := congrArg Prod.snd hattach
    have he := evaluate_evaluates s.bounds.lowest (.task t) s.graph
    have hsolution := he.solution c (n := .task t) htracked
      (fun w hw => ⟨rfl, upstream_of_above c.toConsistent hw⟩) hfree (s.graph.closed_above t)
    refine ⟨_, hsolution, ?_, ?_⟩
    · refine solution_largestBase c.toConsistent hfree (s.graph.closed_above t) hsolution.solves
        (fun w hw => ?_) t .refl
      exact (c.bases w (inUse_of_upstream c.toConsistent (n := .task t) htracked
        (upstream_of_above c.toConsistent hw))).1
    · change ((effectivePriority task).effect s).1 = _
      rw [effect_effectivePriority, guarded, disabled, hslot, hgraph]
      exact congrArg Except.ok he.priority_eq
  · intro queue q hq hfree
    have hlive := (resolve?_eq_some hq).2.1
    have he := evaluate_evaluates s.bounds.lowest (.queue q) s.graph
    have hsolution := he.solution c (n := .queue q) hlive ?_ hfree (s.graph.closed_aboveQueue q)
    · refine ⟨_, hsolution, ?_⟩
      change ((queuePriority queue).effect s).1 = _
      rw [effect_queuePriority, onQueue, guarded, disabled, hq]
      exact congrArg Except.ok (evaluate_queue c he hlive hfree)
    · rintro w ⟨hc, w', hw', habove⟩
      exact ⟨hc, (upstream_of_above c.toConsistent habove).tail ⟨hc, List.mem_map_of_mem hw'⟩⟩

/-- Two tasks wait for each other until a third one takes what the second one waits for. -/
def brokenCircle : Scheduler :=
  let first : QueueHandle := ⟨0, 0⟩
  let second : QueueHandle := ⟨1, 0⟩
  after ⟨.standard, Bounds.standard_valid, ⟨false⟩, {}⟩ <| List.map .perform
    [.newWaitQueue true, .newWaitQueue true, .acquire first ⟨1⟩, .acquire second ⟨2⟩,
      .waitForAccess second ⟨1⟩, .waitForAccess first ⟨2⟩, .effectivePriority ⟨2⟩,
      .acquire first ⟨3⟩, .setPriority ⟨1⟩ 6]

theorem priorities_solve_equations_brokenCircle :
    brokenCircle.graph.CircleFree (brokenCircle.graph.Above · 2) ∧
    (∃ priorities,
      brokenCircle.graph.UniqueSolution brokenCircle.bounds.lowest
        (brokenCircle.graph.Above · 2) priorities ∧
      brokenCircle.graph.LargestBase (brokenCircle.graph.Above · 2) (priorities 2) ∧
      ((effectivePriority ⟨3⟩).run brokenCircle).result = .ok (priorities 2)) ∧
    ((effectivePriority ⟨3⟩).run brokenCircle).result.toOption = some 6 := by
  have hsize : brokenCircle.graph.tasks.size = 3 := by decide +kernel
  have hinside : ∀ w < 3, ∀ q ∈ (brokenCircle.graph.task w).awaiting,
      ∀ t ∈ (brokenCircle.graph.queue q).holder.toList, w < t := by decide +kernel
  have hfree := circleFree_of_lt (g := brokenCircle.graph) (fun w t ⟨q, hq, _, hholder⟩ => by
    by_cases hw : w < 3
    · exact hinside w hw q hq t (by simp [hholder])
    · rw [task_of_size_le (by omega)] at hq
      simp [default, Task.fresh] at hq) (brokenCircle.graph.Above · 2)
  have reachable : brokenCircle.Reachable :=
    (Reachable.fresh (build_of_valid Bounds.standard_valid ⟨false⟩)).after _
  have h := (priorities_solve_equations reachable (by decide +kernel)).1 ⟨3⟩ 2
    (by decide +kernel) hfree
  exact ⟨hfree, h, by decide +kernel⟩

end PriorityDonation.Scheduler
