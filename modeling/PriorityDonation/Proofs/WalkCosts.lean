import PriorityDonation.Proofs.MarkingOrder
import PriorityDonation.Proofs.RebuildBudget

/-!
# What the walks cost

Evaluation pushes a frame for a node that is dirty and takes its flag down with that, so no node
gets two frames. Every frame is worked off donor by donor and popped once, which accounts for all
the steps. The account is kept per state of the walk, for the frames that are open there: the ties
they have still to read, and the nodes that will be opened on the way.

An invalidation looks at its start and at the beneficiaries of the nodes it marks, each as often as
it was put on the list. It may look at a node many times but marks it once. Neither bound speaks of
circles, and on a circle both are still exact.
-/

namespace PriorityDonation

open PriorityDonation.Graph

/-- The ties between a node being rebuilt and the donors that it has still to visit. -/
def Frame.ties (frame : Frame) : List (Node × Node) := frame.rest.map (frame.node, ·)

namespace Rebuild

/-- The tie that the next step reads, with the node it leads into first. -/
def read? : Rebuild → Option (Node × Node)
  | ⟨_, frame :: _⟩ => frame.ties.head?
  | ⟨_, []⟩ => none

/-- The node for which the next step pushes a frame. -/
def pushed? (floor : Priority) (s : Rebuild) : Option Node :=
  match step floor s with
  | .inl s' => if s.stack.length < s'.stack.length then s'.stack.head?.map Frame.node else none
  | .inr _ => none

/-- The nodes for which a run has frames at the start or pushes them. -/
def pushes (floor : Priority) (states : List Rebuild) : List Node :=
  (states.head?.elim [] (·.stack.map Frame.node)) ++ states.filterMap (pushed? floor)

end Rebuild

namespace Graph

/-- The ties that lead into the nodes of a list. -/
def tiesInto (g : Graph) (nodes : List Node) : List (Node × Node) :=
  nodes.flatMap fun n => (g.donors n).map (n, ·)

/-- The states that an evaluation goes through, none if the node answers at once. -/
inductive Evaluation (floor : Priority) (g : Graph) (n : Node) :
    List Rebuild → Priority × Graph → Prop
  | known {priority : Priority} {h : Graph} : g.visit floor n = (.known priority, h) →
      Evaluation floor g n [] (priority, h)
  | rebuild {frame : Frame} {h : Graph} {states : List Rebuild} {result : Priority × Graph} :
      g.visit floor n = (.rebuild frame, h) → (Rebuild.walk floor).Runs ⟨h, [frame]⟩ states result →
      Evaluation floor g n states result

/-- With some frames open, so many steps read these ties, push frames for these nodes, and lead to
another graph where no frame is open. -/
structure Account (g : Graph) (stack : List Frame) (steps : Nat) (reads : List (Node × Node))
    (pushed : List Node) (h : Graph) : Prop where
  ties : SameTies g h
  clean (n : Node) : g.dirty n = false → h.dirty n = false
  nodup : pushed.Nodup
  mem_pushed (n : Node) :
    n ∈ pushed ↔ g.caches n = true ∧ g.dirty n = true ∧ h.dirty n = false
  reads_perm : reads.Perm (stack.flatMap Frame.ties ++ g.tiesInto pushed)
  steps_eq : steps = reads.length + stack.length + pushed.length
  counters : h.counters = { g.counters with
    taskRebuilds := g.counters.taskRebuilds + (pushed.map Node.tasks).sum
    queueRebuilds := g.counters.queueRebuilds + (pushed.map (1 - ·.tasks)).sum
    donations := h.counters.donations }

variable {g h k : Graph} {floor : Priority} {n : Node} {stack : List Frame} {steps : Nat}
  {reads : List (Node × Node)} {pushed : List Node}

theorem SameTies.tiesInto (a : SameTies g h) (nodes : List Node) :
    h.tiesInto nodes = g.tiesInto nodes := by
  simp only [Graph.tiesInto, a.donors]

theorem counters_visit_known {priority : Priority}
    (hv : g.visit floor n = (.known priority, h)) : h.counters = g.counters := by
  cases n with
  | task t =>
    simp only [visit] at hv
    split at hv
    · cases hv
      rfl
    · split at hv <;> cases hv
      rfl
  | queue q =>
    simp only [visit] at hv
    split at hv
    · cases hv
      rfl
    · split at hv <;> cases hv
      rfl

namespace Account

theorem refl (g : Graph) : g.Account [] 0 [] [] g where
  ties := .refl g
  clean _ := id
  nodup := .nil
  mem_pushed n := by simp
  reads_perm := .nil
  steps_eq := rfl
  counters := rfl

/-- The account does not depend on the priorities found so far. -/
theorem withBest {node : Node} {rest : List Node} {best best' : Priority}
    (a : g.Account (⟨node, rest, best'⟩ :: stack) steps reads pushed h) :
    g.Account (⟨node, rest, best⟩ :: stack) steps reads pushed h :=
  ⟨a.ties, a.clean, a.nodup, a.mem_pushed, a.reads_perm, a.steps_eq, a.counters⟩

/-- A donor is read from the innermost frame. -/
theorem read {node donor : Node} {rest : List Node} {best : Priority}
    (a : g.Account (⟨node, rest, best⟩ :: stack) steps reads pushed h) :
    g.Account (⟨node, donor :: rest, best⟩ :: stack) (steps + 1) ((node, donor) :: reads)
      pushed h where
  ties := a.ties
  clean := a.clean
  nodup := a.nodup
  mem_pushed := a.mem_pushed
  reads_perm := a.reads_perm.cons (node, donor)
  steps_eq := by
    have := a.steps_eq
    simp only [List.length_cons] at this ⊢
    omega
  counters := a.counters

/-- A visit that answers at once opens nothing. -/
theorem answered {priority : Priority} (hv : g.visit floor n = (.known priority, h))
    (a : h.Account stack steps reads pushed k) : g.Account stack steps reads pushed k where
  ties := (visit_known hv).2.ties.trans a.ties
  clean m hm := a.clean m ((visit_known hv).2.clean_value hm).1
  nodup := a.nodup
  mem_pushed m := by
    have ha := (visit_known hv).2
    rw [a.mem_pushed, ha.ties.caches]
    refine and_congr_right fun hc => and_congr_left fun _ => ⟨ha.of_dirty m, fun hd => ?_⟩
    by_contra hclean
    obtain ⟨rfl, hblocked⟩ := ha.cleaned m hd (by simpa using hclean)
    simp [hblocked] at hc
  reads_perm := (visit_known hv).2.ties.tiesInto pushed ▸ a.reads_perm
  steps_eq := a.steps_eq
  counters := counters_visit_known hv ▸ a.counters

/-- A visit that opens a node takes its flag down. -/
theorem opened {frame : Frame} (hv : g.visit floor n = (.rebuild frame, h))
    (a : h.Account (frame :: stack) steps reads pushed k) :
    g.Account stack steps reads (n :: pushed) k := by
  obtain ⟨rfl, ho⟩ := visit_rebuild hv
  refine ⟨ho.ties.trans a.ties, ?_, ?_, ?_, ?_, ?_, ?_⟩
  · intro m hm
    have hopen : h.dirty m = false ∧ h.value floor m = g.value floor m := ho.clean_value hm
    exact a.clean m hopen.1
  · refine List.nodup_cons.mpr ⟨fun hn => ?_, a.nodup⟩
    have hd := ((a.mem_pushed n).mp hn).2.1
    simp [ho.clean_self] at hd
  · intro m
    rw [List.mem_cons, a.mem_pushed, ho.ties.caches, ho.dirty]
    by_cases hmn : m = n
    · simp [hmn, ho.caches, ho.dirty_self, a.clean n ho.clean_self]
    · simp [hmn]
  · refine a.reads_perm.trans ?_
    rw [ho.ties.tiesInto, List.flatMap_cons, tiesInto, tiesInto, List.flatMap_cons,
      List.append_assoc]
    exact List.perm_append_comm_assoc _ _ _
  · have := a.steps_eq
    simp only [List.length_cons] at this ⊢
    omega
  · rw [a.counters, (flags_visit_rebuild hv).2]
    simp only [List.map_cons, List.sum_cons, Nat.add_assoc]

/-- The innermost frame is popped once its donors have been read. -/
theorem finished {node : Node} {best : Priority}
    (a : (g.finish node best).Account stack steps reads pushed h) :
    g.Account (⟨node, [], best⟩ :: stack) (steps + 1) reads pushed h := by
  have ties := g.sameTies_finish node best
  obtain ⟨-, lifted, -, hcounters⟩ := g.flags_finish node best
  refine ⟨ties.trans a.ties, ?_, a.nodup, ?_, ?_, ?_, ?_⟩
  · exact fun m hm => a.clean m ((g.dirty_finish node best m).trans hm)
  · intro m
    rw [a.mem_pushed, ties.caches, dirty_finish]
  · exact ties.tiesInto pushed ▸ a.reads_perm
  · have := a.steps_eq
    simp only [List.length_cons]
    omega
  · rw [a.counters, hcounters]

end Account

end Graph

namespace Rebuild

variable {floor : Priority}

/-- The account of a run of the walk. -/
theorem account_of_runs {s : Rebuild} {states : List Rebuild} {result : Priority × Graph}
    (hr : (walk floor).Runs s states result) (hs : s.stack ≠ []) :
    (∀ x ∈ states, x.stack ≠ []) ∧
      s.graph.Account s.stack states.length (states.filterMap read?)
        (states.filterMap (pushed? floor)) result.2 := by
  induction hr with
  | @done s result hstep =>
    obtain ⟨g, _ | ⟨⟨node, _ | ⟨donor, rest⟩, best⟩, stack⟩⟩ := s
    · exact absurd rfl hs
    · cases stack with
      | nil =>
        cases hstep
        exact ⟨by simp, (Account.refl (g.finish node best)).finished⟩
      | cons parent stack => cases hstep
    · simp only [walk, step] at hstep
      split at hstep <;> cases hstep
  | @step s s' states result hstep hr ih =>
    obtain ⟨g, _ | ⟨⟨node, _ | ⟨donor, rest⟩, best⟩, stack⟩⟩ := s
    · exact absurd rfl hs
    · cases stack with
      | nil => cases hstep
      | cons parent stack =>
        cases hstep
        obtain ⟨hstacks, a⟩ := ih (List.cons_ne_nil _ _)
        rw [List.filterMap_cons_none rfl, List.filterMap_cons_none (by simp [pushed?, step])]
        exact ⟨List.forall_mem_cons.mpr ⟨List.cons_ne_nil _ _, hstacks⟩, a.withBest.finished⟩
    · have hread : read? ⟨g, ⟨node, donor :: rest, best⟩ :: stack⟩ = some (node, donor) := rfl
      rw [List.filterMap_cons_some hread]
      rcases hv : g.visit floor donor with ⟨priority | frame, h⟩
      · have hinl : step floor ⟨g, ⟨node, donor :: rest, best⟩ :: stack⟩ =
            .inl ⟨h, ⟨node, rest, max best priority⟩ :: stack⟩ := by
          simp only [step, hv]
        cases hstep.symm.trans hinl
        obtain ⟨hstacks, a⟩ := ih (List.cons_ne_nil _ _)
        rw [List.filterMap_cons_none (by simp [pushed?, hinl])]
        exact ⟨List.forall_mem_cons.mpr ⟨List.cons_ne_nil _ _, hstacks⟩,
          (a.withBest.answered hv).read⟩
      · have hinl : step floor ⟨g, ⟨node, donor :: rest, best⟩ :: stack⟩ =
            .inl ⟨h, frame :: ⟨node, rest, best⟩ :: stack⟩ := by
          simp only [step, hv]
        have hnode : frame.node = donor := by rw [(visit_rebuild hv).1]
        cases hstep.symm.trans hinl
        obtain ⟨hstacks, a⟩ := ih (List.cons_ne_nil _ _)
        rw [List.filterMap_cons_some (b := donor) (by simp [pushed?, hinl, hnode])]
        exact ⟨List.forall_mem_cons.mpr ⟨List.cons_ne_nil _ _, hstacks⟩, (a.opened hv).read⟩

end Rebuild

namespace Graph

/-- Every evaluation goes through states with an open frame, and they account for its work. -/
theorem exists_evaluation (floor : Priority) (n : Node) (g : Graph) :
    ∃ states, g.Evaluation floor n states (evaluate floor n g) ∧ (∀ s ∈ states, s.stack ≠ []) ∧
      g.Account [] states.length (states.filterMap Rebuild.read?) (Rebuild.pushes floor states)
        (evaluate floor n g).2 := by
  rcases hv : g.visit floor n with ⟨priority | frame, h⟩
  · have hresult : evaluate floor n g = (priority, h) := by simp only [evaluate, hv]
    rw [hresult]
    exact ⟨[], .known hv, by simp, (Account.refl h).answered hv⟩
  · have hresult : evaluate floor n g = (Rebuild.walk floor).run ⟨h, [frame]⟩ := by
      simp only [evaluate, hv]
    obtain ⟨states, hr⟩ := (Rebuild.walk floor).exists_runs ⟨h, [frame]⟩
    obtain ⟨hstacks, a⟩ := Rebuild.account_of_runs hr (List.cons_ne_nil _ _)
    have hpushes : Rebuild.pushes floor states =
        n :: states.filterMap (Rebuild.pushed? floor) := by
      have hframe : frame.node = n := by rw [(visit_rebuild hv).1]
      simp [Rebuild.pushes, hr.head?, hframe]
    refine ⟨states, hresult ▸ .rebuild hv hr, hstacks, ?_⟩
    rw [hresult, hpushes]
    exact a.opened hv

/-- Both walks end on every graph whose slots exist, and do no more work than this. -/
theorem walks_bounded (r : g.InRange) (hn : g.Present n) (floor : Priority) :
    (∃ states, g.Evaluation floor n states (evaluate floor n g) ∧
      (∀ s ∈ states, s.stack ≠ []) ∧
      (Rebuild.pushes floor states).Nodup ∧
      (∀ m ∈ Rebuild.pushes floor states, g.dirty m = true) ∧
      (states.filterMap Rebuild.read?).Perm (g.tiesInto (Rebuild.pushes floor states)) ∧
      states.length =
        (states.filterMap Rebuild.read?).length + (Rebuild.pushes floor states).length) ∧
    (∃ states, Marking.walk.Runs ⟨g, [n]⟩ states (g.invalidate n) ∧
      g.Marks {n} (states.filterMap Marking.marked?) (states.filterMap Marking.looked?).length
        (g.invalidate n) 0) ∧
    ∀ marked looks h left, g.Marks {n} marked looks h left →
      marked.Nodup ∧ (∀ m ∈ marked, g.dirty m = false ∧ h.dirty m = true) ∧
        looks + left.card = 1 + (marked.map fun m => (g.beneficiaries m).length).sum := by
  refine ⟨?_, ?_, ?_⟩
  · obtain ⟨states, hevaluation, hstacks, a⟩ := exists_evaluation floor n g
    refine ⟨states, hevaluation, hstacks, a.nodup, ?_, a.reads_perm, a.steps_eq⟩
    exact fun m hm => ((a.mem_pushed m).mp hm).2.1
  · obtain ⟨states, hr⟩ := Marking.walk.exists_runs ⟨g, [n]⟩
    exact ⟨states, hr, Marking.marks_of_runs hr⟩
  · intro marked looks h left hm
    obtain ⟨hnodup, hmem⟩ := hm.marked_iff r (by simpa using hn)
    exact ⟨hnodup, fun m hm => (hmem m).mp hm, by simpa using hm.looks_add⟩

end Graph

namespace Scheduler

theorem walks_bounded_closedCircle :
    (let g := closedCircle.graph
    g.dirty (.task 0) = true ∧
      ∃ states, g.Evaluation 0 (.task 0) states (evaluate 0 (.task 0) g) ∧
        (Rebuild.pushes 0 states).Nodup ∧
        states.length =
          (states.filterMap Rebuild.read?).length + (Rebuild.pushes 0 states).length) ∧
    (let g := answeredCircle.graph
    g.dirty (.task 0) = false ∧
      ∃ states, Marking.walk.Runs ⟨g, [.task 0]⟩ states (g.invalidate (.task 0)) ∧
        (states.filterMap Marking.marked?).Nodup) := by
  have reachable : closedCircle.Reachable :=
    (Reachable.fresh (build_of_valid Bounds.standard_valid ⟨false⟩)).after _
  have hpresent : 0 < closedCircle.graph.tasks.size := by decide +kernel
  have hpresent' : 0 < answeredCircle.graph.tasks.size := by decide +kernel
  obtain ⟨⟨states, hevaluation, _, hnodup, _, _, hsteps⟩, _⟩ :=
    walks_bounded (n := .task 0) reachable.coherent.toConsistent.inRange hpresent 0
  obtain ⟨_, ⟨states', hruns, hmarks⟩, hbounds⟩ := walks_bounded (n := .task 0)
    reachable_answeredCircle.coherent.toConsistent.inRange hpresent' 0
  exact ⟨⟨by decide +kernel, states, hevaluation, hnodup, hsteps⟩,
    by decide +kernel, states', hruns, (hbounds _ _ _ _ hmarks).1⟩

end Scheduler

end PriorityDonation
