import PriorityDonation.Proofs.Marking

/-!
# What evaluation does

Evaluation keeps its own stack. `Evaluates` describes the same work without one: the nodes of a
list are evaluated one after the other, and a node that has to be rebuilt is opened, its donors are
evaluated, and it is finished with the largest priority found. `evaluate_evaluates` shows that the
walk does just this, so that the lemmas about evaluation are inductions over `Evaluates`.
-/

namespace PriorityDonation

namespace Graph

variable {g h k l : Graph} {floor : Priority} {n m : Node}

/-- A visit that answers at once changes no priority, and cleans at most a node that has no use
for its cache. -/
structure Answered (floor : Priority) (g : Graph) (n : Node) (h : Graph) : Prop where
  ties : SameTies g h
  value (m : Node) : h.value floor m = g.value floor m
  of_dirty (m : Node) : h.dirty m = true → g.dirty m = true
  cleaned (m : Node) : g.dirty m = true → h.dirty m = false → m = n ∧ g.caches n = false
  clean : g.conducts n = true → h.dirty n = false

/-- A visit that opens a node cleans it and starts over with its cache. -/
structure Opened (g : Graph) (n : Node) (h : Graph) : Prop where
  ties : SameTies g h
  caches : g.caches n = true
  dirty_self : g.dirty n = true
  dirty (m : Node) : h.dirty m = true ↔ g.dirty m = true ∧ m ≠ n
  cached (m : Node) : m ≠ n → h.cached m = g.cached m

theorem Opened.value (ho : Opened g n h) (hm : m ≠ n) : h.value floor m = g.value floor m :=
  ho.ties.value (ho.cached m hm)

theorem Opened.clean_self (ho : Opened g n h) : h.dirty n = false := by
  by_contra hd
  exact ((ho.dirty n).mp (by simpa using hd)).2 rfl

theorem Answered.refl (hc : g.conducts n = true → g.dirty n = false) : Answered floor g n g :=
  ⟨.refl g, fun _ => rfl, fun _ => id, fun m hd hd' => by simp [hd] at hd', hc⟩

theorem answered_settle {t : Nat} (hc : g.caches (.task t) = false) :
    Answered floor g (.task t) (g.modifyTask t Task.settle) := by
  have ties : SameTies g (g.modifyTask t Task.settle) :=
    g.sameTies_modifyTask t fun _ => rfl
  have hd (m : Node) : (g.modifyTask t Task.settle).dirty m = true → g.dirty m = true := by
    rw [dirty_modifyTask]
    split
    · intro h
      cases h
    · exact id
  refine ⟨ties, ?_, hd, ?_, ?_⟩
  · intro m
    by_cases hm : m = .task t
    · simp only [value, ties.caches, ties.seed, hm, hc, Bool.false_eq_true, if_false]
    · exact ties.value (by rw [cached_modifyTask, if_neg fun h => hm h.1])
  · intro m hm hm'
    rw [dirty_modifyTask] at hm'
    split at hm'
    · rename_i h
      exact ⟨h.1, hc⟩
    · simp [hm] at hm'
  · intro _
    rw [dirty_modifyTask]
    split
    · rfl
    · rename_i h
      by_contra hne
      exact h ⟨rfl, present_of_dirty (n := .task t) (by simpa using hne)⟩

theorem visit_known {priority : Priority} (hv : g.visit floor n = (.known priority, h)) :
    priority = g.value floor n ∧ Answered floor g n h := by
  cases n with
  | task t =>
    simp only [visit] at hv
    split at hv
    · rename_i hheld
      cases hv
      have hc : g.caches (.task t) = false := by simp [caches, hheld]
      exact ⟨by simp [value, hc, seed], answered_settle hc⟩
    · rename_i hheld
      split at hv <;> cases hv
      rename_i hdirty
      exact ⟨by simp [value, caches, hheld, cached], .refl fun _ => by simpa [dirty] using hdirty⟩
  | queue q =>
    simp only [visit] at hv
    split at hv
    · rename_i htransfers
      cases hv
      have hc : (g.queue q).transfers = false := by simpa using htransfers
      refine ⟨by simp [value, caches, hc, seed], .refl fun hconducts => ?_⟩
      simp [conducts, hc] at hconducts
    · rename_i htransfers
      split at hv <;> cases hv
      rename_i hdirty
      have hc : (g.queue q).transfers = true := by simpa using htransfers
      exact ⟨by simp [value, caches, hc, cached], .refl fun _ => by simpa [dirty] using hdirty⟩

theorem visit_rebuild {frame : Frame} (hv : g.visit floor n = (.rebuild frame, h)) :
    frame = ⟨n, g.donors n, g.seed floor n⟩ ∧ Opened g n h := by
  cases n with
  | task t =>
    simp only [visit] at hv
    split at hv
    · cases hv
    · rename_i hheld
      split at hv <;> cases hv
      rename_i hdirty
      have hd : g.dirty (.task t) = true := by simpa [dirty] using hdirty
      have ht : t < g.tasks.size := present_of_dirty hd
      have ties := g.sameTies_modifyTask t (f := Task.settle) fun _ => rfl
      refine ⟨rfl, ties.trans (sameTies_count _ _), by simp [caches, hheld], hd, ?_, ?_⟩
      · intro m
        rw [dirty_count, dirty_modifyTask]
        split <;> simp_all [Task.settle]
      · intro m hm
        rw [cached_count, cached_modifyTask, if_neg fun h => hm h.1]
  | queue q =>
    simp only [visit] at hv
    split at hv
    · cases hv
    · rename_i htransfers
      split at hv <;> cases hv
      rename_i hdirty
      have hd : g.dirty (.queue q) = true := by simpa [dirty] using hdirty
      have hq : q < g.queues.size := present_of_dirty hd
      have ties := g.sameTies_modifyQueue q (f := (·.settle floor)) fun _ => rfl
      refine ⟨rfl, ties.trans (sameTies_count _ _), by simpa [caches] using htransfers, hd, ?_, ?_⟩
      · intro m
        rw [dirty_count, dirty_modifyQueue]
        split <;> simp_all [WaitQueue.settle]
      · intro m hm
        rw [cached_count, cached_modifyQueue, if_neg fun h => hm h.1]

/-- A visit writes the seed of its node to the cache, unless it answers from there. -/
theorem cached_visit (g : Graph) (floor : Priority) (n m : Node) :
    (g.visit floor n).2.cached m =
      if m = n ∧ g.conducts n ∧ (g.dirty n || !g.caches n) then g.seed floor n else g.cached m := by
  cases n with
  | task t =>
    have absent : ¬ t < g.tasks.size → g.task t = default := task_of_not_present
    have settled : (g.modifyTask t Task.settle).cached m =
        if m = .task t then (g.task t).base else g.cached m := by
      rw [cached_modifyTask]
      by_cases hm : m = .task t
      · by_cases ht : t < g.tasks.size
        · simp [hm, ht, Task.settle]
        · simp [hm, ht, absent ht, cached, default, Task.fresh]
      · simp [hm]
    simp only [visit, conducts, caches, dirty, seed]
    split
    · simp_all
    · split <;> simp_all
  | queue q =>
    have present : (g.queue q).transfers = true → q < g.queues.size :=
      fun h => present_of_caches (n := .queue q) h
    simp only [visit, conducts, caches, dirty, seed]
    split
    · simp_all
    · split <;> simp_all [cached_modifyQueue, WaitQueue.settle]

/-- A node just opened shows its seed. -/
theorem value_opened {frame : Frame} (hv : g.visit floor n = (.rebuild frame, h)) :
    h.value floor n = g.seed floor n := by
  have ho := (visit_rebuild hv).2
  have hcached := g.cached_visit floor n n
  rw [hv, if_pos ⟨rfl, conducts_of_caches ho.caches, by simp [ho.dirty_self]⟩] at hcached
  simp only [value, ho.ties.caches, ho.caches, if_true, hcached]

theorem dirty_finish (g : Graph) (n : Node) (priority : Priority) (m : Node) :
    (g.finish n priority).dirty m = g.dirty m := by
  cases n with
  | task t =>
    have stored := g.dirty_modifyTask_of_eq t (f := (·.withCached priority)) (fun _ => rfl) m
    simp only [finish]
    split
    · rw [dirty_count, stored]
    · exact stored
  | queue q =>
    exact g.dirty_modifyQueue_of_eq q (f := (·.withCached priority)) (fun _ => rfl) m

theorem cached_finish (g : Graph) (n : Node) (priority : Priority) (m : Node) :
    (m ≠ n → (g.finish n priority).cached m = g.cached m) ∧
      (g.Present n → (g.finish n priority).cached n = priority) := by
  cases n with
  | task t =>
    simp only [finish]
    split <;> simp +contextual [cached_modifyTask, Present, Task.withCached]
  | queue q =>
    simp +contextual [finish, cached_modifyQueue, Present, WaitQueue.withCached]

/-- Evaluating the nodes of a list one after the other yields these priorities. -/
inductive Evaluates (floor : Priority) : Graph → List Node → List Priority → Graph → Prop
  | nil (g : Graph) : Evaluates floor g [] [] g
  | known {g h k : Graph} {n : Node} {rest : List Node} {priority : Priority}
      {priorities : List Priority} :
      g.visit floor n = (.known priority, h) → Evaluates floor h rest priorities k →
      Evaluates floor g (n :: rest) (priority :: priorities) k
  | rebuild {g h k l : Graph} {n : Node} {frame : Frame} {rest : List Node} {priority : Priority}
      {inner priorities : List Priority} :
      g.visit floor n = (.rebuild frame, h) → Evaluates floor h frame.rest inner k →
      priority = inner.foldl max frame.best →
      Evaluates floor (k.finish n priority) rest priorities l →
      Evaluates floor g (n :: rest) (priority :: priorities) l

namespace Evaluates

variable {nodes rest : List Node} {priority : Priority} {priorities : List Priority}

theorem cons (first : Evaluates floor g [n] [priority] h)
    (more : Evaluates floor h rest priorities k) :
    Evaluates floor g (n :: rest) (priority :: priorities) k := by
  cases first with
  | known hv last =>
    cases last
    exact .known hv more
  | rebuild hv inner hp last =>
    cases last
    exact .rebuild hv inner hp more

theorem rebuildWork_le (he : Evaluates floor g nodes priorities h) :
    h.rebuildWork ≤ g.rebuildWork := by
  induction he with
  | nil => exact Nat.le_refl _
  | known hv _ ih => exact Nat.le_trans ih (rebuildWork_visit_known hv)
  | rebuild hv _ hp _ ihInner ihRest =>
    have hopen := rebuildWork_visit_rebuild hv
    have hfinish := Nat.le_trans ihRest (rebuildWork_finish _ _ _)
    omega

end Evaluates

end Graph

open PriorityDonation.Graph

/-- What the walk does when the innermost node has its priority. -/
def Rebuild.resume (floor : Priority) (g : Graph) (priority : Priority) :
    List Frame → Priority × Graph
  | [] => (priority, g)
  | ⟨node, rest, best⟩ :: stack =>
      (walk floor).run ⟨g, ⟨node, rest, max best priority⟩ :: stack⟩

/-- The walk evaluates what is left of the innermost node, finishes the node, and resumes. -/
theorem Rebuild.run_evaluates (floor : Priority) (g : Graph) (node : Node) (rest : List Node)
    (best : Priority) (stack : List Frame) :
    ∃ priorities h, Evaluates floor g rest priorities h ∧
      (walk floor).run ⟨g, ⟨node, rest, best⟩ :: stack⟩ =
        resume floor (h.finish node (priorities.foldl max best)) (priorities.foldl max best)
          stack := by
  cases rest with
  | nil =>
    refine ⟨[], g, .nil g, ?_⟩
    cases stack with
    | nil => exact (walk floor).run_of_inr rfl
    | cons parent stack => exact (walk floor).run_of_inl rfl
  | cons donor rest =>
    rcases hv : g.visit floor donor with ⟨priority | frame, h⟩
    · have hstep : (walk floor).step ⟨g, ⟨node, donor :: rest, best⟩ :: stack⟩ =
          .inl ⟨h, ⟨node, rest, max best priority⟩ :: stack⟩ := by
        simp only [walk, step, hv]
      have hlt := (walk floor).work_lt hstep
      obtain ⟨priorities, k, he, hrun⟩ :=
        run_evaluates floor h node rest (max best priority) stack
      exact ⟨priority :: priorities, k, .known hv he, ((walk floor).run_of_inl hstep).trans hrun⟩
    · have hstep : (walk floor).step ⟨g, ⟨node, donor :: rest, best⟩ :: stack⟩ =
          .inl ⟨h, frame :: ⟨node, rest, best⟩ :: stack⟩ := by
        simp only [walk, step, hv]
      have hlt := (walk floor).work_lt hstep
      obtain ⟨inner, k, hinner, hrun⟩ :=
        run_evaluates floor h frame.node frame.rest frame.best (⟨node, rest, best⟩ :: stack)
      have hnode : frame.node = donor := by rw [(visit_rebuild hv).1]
      have hwork : (k.finish donor (inner.foldl max frame.best)).rebuildWork ≤
          g.rebuildWork := by
        have hopen := rebuildWork_visit_rebuild hv
        have hfinish := rebuildWork_finish k donor (inner.foldl max frame.best)
        have hle := hinner.rebuildWork_le
        omega
      obtain ⟨priorities, l, he, hrest⟩ := run_evaluates floor
        (k.finish donor (inner.foldl max frame.best)) node rest
        (max best (inner.foldl max frame.best)) stack
      refine ⟨inner.foldl max frame.best :: priorities, l, .rebuild hv hinner rfl he, ?_⟩
      rw [(walk floor).run_of_inl hstep, hrun, hnode]
      exact hrest
termination_by (walk floor).work ⟨g, ⟨node, rest, best⟩ :: stack⟩
decreasing_by
  all_goals
    simp only [walk, work, List.foldr_cons, Frame.work, List.length_cons] at hlt ⊢
    omega

namespace Graph

variable {g h : Graph} {floor : Priority}

theorem evaluate_evaluates (floor : Priority) (n : Node) (g : Graph) :
    Evaluates floor g [n] [(evaluate floor n g).1] (evaluate floor n g).2 := by
  rcases hv : g.visit floor n with ⟨priority | frame, h⟩
  · simp only [evaluate, hv]
    exact .known hv (.nil h)
  · obtain ⟨inner, k, hinner, hrun⟩ :=
      Rebuild.run_evaluates floor h frame.node frame.rest frame.best []
    have hnode : frame.node = n := by rw [(visit_rebuild hv).1]
    have hresult : evaluate floor n g =
        (inner.foldl max frame.best, k.finish n (inner.foldl max frame.best)) := by
      simp only [evaluate, hv]
      rw [hrun, hnode]
      rfl
    rw [hresult]
    exact .rebuild hv hinner rfl (.nil _)

theorem evaluateAll_cons (floor : Priority) (n : Node) (rest : List Node) (g : Graph) :
    evaluateAll floor (n :: rest) g =
      ((evaluate floor n g).1 :: (evaluateAll floor rest (evaluate floor n g).2).1,
        (evaluateAll floor rest (evaluate floor n g).2).2) := by
  simp only [evaluateAll, List.mapM_cons]
  rfl

theorem evaluateAll_evaluates (floor : Priority) (nodes : List Node) (g : Graph) :
    Evaluates floor g nodes (evaluateAll floor nodes g).1 (evaluateAll floor nodes g).2 := by
  induction nodes generalizing g with
  | nil => exact .nil g
  | cons n rest ih =>
    rw [evaluateAll_cons]
    exact (evaluate_evaluates floor n g).cons (ih _)

end Graph

end PriorityDonation
