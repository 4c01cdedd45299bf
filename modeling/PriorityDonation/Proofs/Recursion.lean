import PriorityDonation.Proofs.Caches

/-!
# The walks as recursive procedures

Evaluation keeps a stack of its own and invalidation a list of pending nodes. Here the same work is
written by recursion: a node asks its donors for their priorities, and a node that becomes dirty
passes this on to its beneficiaries. `recompute` and `propagate` are the bodies of the recursions,
given the procedures that they call. They carry no measure of the work left, so nothing in them says
that the recursion ends, and a call that never returned would have no result.

On every graph the walks do what the recursions do, and leave the same graph. What is more, no other
procedure calls itself in this way, so the recursions end wherever they start: what they are called
with is opened or marked at most once, also where priority flows in a circle.
-/

namespace PriorityDonation

namespace Graph

/-- The effective priority of a task or the donation of a queue, given those of its donors. -/
def recompute (floor : Priority) (recur : Node → StateT Graph Option Priority) :
    Node → StateT Graph Option Priority
  | .task t => do
      let task := (← get).task t
      if task.held.isEmpty then
        modify (·.modifyTask t Task.settle)
        return task.base
      else if !task.dirty then return task.cached
      else
        modify (·.modifyTask t Task.settle)
        modify (·.count fun c => { c with taskRebuilds := c.taskRebuilds + 1 })
        let best ← task.held.foldlM (fun best q => return max best (← recur (.queue q))) task.base
        if task.base < best then
          modify (·.count fun c => { c with donations := c.donations + 1 })
        modify (·.modifyTask t (·.withCached best))
        return best
  | .queue q => do
      let queue := (← get).queue q
      if !queue.transfers then return floor
      else if !queue.dirty then return queue.cached
      else
        modify (·.modifyQueue q (·.settle floor))
        modify (·.count fun c => { c with queueRebuilds := c.queueRebuilds + 1 })
        let best ← queue.waiters.foldlM (fun best t => return max best (← recur (.task t))) floor
        modify (·.modifyQueue q (·.withCached best))
        return best

/-- Marks a node and passes this on to what takes priority from it. -/
def propagate (recur : Node → StateT Graph Option Unit) : Node → StateT Graph Option Unit
  | .task t => do
      let task := (← get).task t
      if task.dirty then return
      else
        modify (·.modifyTask t Task.mark)
        modify (·.count fun c => { c with invalidations := c.invalidations + 1 })
        task.awaiting.forM fun q => recur (.queue q)
  | .queue q => do
      let queue := (← get).queue q
      if queue.dirty || !queue.transfers then return
      else
        modify (·.modifyQueue q WaitQueue.mark)
        modify (·.count fun c => { c with invalidations := c.invalidations + 1 })
        match queue.holder with
        | some t => recur (.task t)
        | none => return

variable {g h k : Graph} {floor : Priority} {n : Node} {nodes : List Node}
  {priorities : List Priority}

section

variable {recur : Node → StateT Graph Option Priority}

theorem recompute_known {priority : Priority} (hv : g.visit floor n = (.known priority, h)) :
    (recompute floor recur n).run g = some (priority, h) := by
  cases n with
  | task t =>
    simp only [visit] at hv
    simp only [recompute, StateT.run_bind, StateT.run_get, pure_bind]
    split at hv
    · rename_i hheld
      cases hv
      rw [if_pos hheld]
      rfl
    · rename_i hheld
      split at hv <;> cases hv
      rename_i hdirty
      rw [if_neg hheld, if_pos hdirty]
      rfl
  | queue q =>
    simp only [visit] at hv
    simp only [recompute, StateT.run_bind, StateT.run_get, pure_bind]
    split at hv
    · rename_i htransfers
      cases hv
      rw [if_pos htransfers]
      rfl
    · rename_i htransfers
      split at hv <;> cases hv
      rename_i hdirty
      rw [if_neg htransfers, if_pos hdirty]
      rfl

theorem run_mapM_cons {priority : Priority} (hn : (recur n).run g = some (priority, h))
    (hnodes : (nodes.mapM recur).run h = some (priorities, k)) :
    ((n :: nodes).mapM recur).run g = some (priority :: priorities, k) := by
  simp [hn, hnodes]

/-- Taking the largest of the answers on the way is the same as taking it at the end. -/
theorem run_foldlM_max (best : Priority)
    (hnodes : (nodes.mapM recur).run g = some (priorities, h)) :
    (nodes.foldlM (fun best n => return max best (← recur n)) best).run g =
      some (priorities.foldl max best, h) := by
  induction nodes generalizing g priorities best with
  | nil =>
    cases hnodes
    rfl
  | cons n rest ih =>
    simp only [List.mapM_cons, StateT.run_bind, StateT.run_pure] at hnodes
    obtain ⟨⟨priority, g'⟩, hn, hnodes⟩ := Option.bind_eq_some_iff.mp hnodes
    obtain ⟨⟨others, k⟩, hrest, hlast⟩ := Option.bind_eq_some_iff.mp hnodes
    cases hlast
    simp only [List.foldlM_cons, StateT.run_bind, hn]
    exact ih _ hrest

/-- What the recursion does at a node that has to be rebuilt, once its donors have answered. -/
theorem recompute_rebuild {frame : Frame} {inner : List Priority}
    (hv : g.visit floor n = (.rebuild frame, h))
    (hinner : (frame.rest.mapM recur).run h = some (inner, k)) (ties : SameTies g k) :
    (recompute floor recur n).run g =
      some (inner.foldl max frame.best, k.finish n (inner.foldl max frame.best)) := by
  have hbest := run_foldlM_max frame.best hinner
  generalize inner.foldl max frame.best = best at hbest ⊢
  cases n with
  | task t =>
    simp only [visit] at hv
    split at hv
    · cases hv
    · rename_i hheld
      split at hv <;> cases hv
      rename_i hdirty
      simp only [donors, List.foldlM_map] at hbest
      simp only [recompute, StateT.run_bind, StateT.run_get, pure_bind, hheld, hdirty,
        Bool.false_eq_true, if_false, StateT.run_modify]
      rw [hbest]
      by_cases hlifted : (g.task t).base < best
      · simp [finish, ties.base, hlifted]
        rfl
      · simp [finish, ties.base, hlifted]
  | queue q =>
    simp only [visit] at hv
    split at hv
    · cases hv
    · rename_i htransfers
      split at hv <;> cases hv
      rename_i hdirty
      simp only [donors, List.foldlM_map] at hbest
      simp only [recompute, StateT.run_bind, StateT.run_get, pure_bind, htransfers, hdirty,
        Bool.false_eq_true, if_false, StateT.run_modify]
      rw [hbest]
      rfl

/-- Where a procedure calls itself as the recursion does, it works out what evaluation does. -/
theorem Evaluates.run_mapM (hrecur : ∀ n, recur n = recompute floor recur n)
    (he : Evaluates floor g nodes priorities h) :
    (nodes.mapM recur).run g = some (priorities, h) := by
  induction he with
  | nil g => rfl
  | known hv _ ih =>
    refine run_mapM_cons ?_ ih
    rw [hrecur]
    exact recompute_known hv
  | rebuild hv hinner hp _ ihInner ihRest =>
    have ties := (visit_rebuild hv).2.ties.trans hinner.sameTies
    refine run_mapM_cons ?_ ihRest
    rw [hrecur, hp]
    exact recompute_rebuild hv ihInner ties

theorem run_mapM_evaluate (hrecur : ∀ n g, (recur n).run g = some (evaluate floor n g))
    (nodes : List Node) (g : Graph) :
    (nodes.mapM recur).run g = some (evaluateAll floor nodes g) := by
  induction nodes generalizing g with
  | nil => rfl
  | cons n rest ih =>
    rw [evaluateAll_cons]
    exact run_mapM_cons (hrecur n g) (ih _)

end

theorem Evaluates.unique {priorities' : List Priority} (he : Evaluates floor g nodes priorities h)
    (he' : Evaluates floor g nodes priorities' k) : priorities' = priorities ∧ k = h := by
  induction he generalizing priorities' k with
  | nil g =>
    cases he'
    exact ⟨rfl, rfl⟩
  | known hv _ ih =>
    cases he' with
    | known hv' hrest =>
      cases hv.symm.trans hv'
      obtain ⟨rfl, rfl⟩ := ih hrest
      exact ⟨rfl, rfl⟩
    | rebuild hv' => cases hv.symm.trans hv'
  | rebuild hv _ hp _ ihInner ihRest =>
    cases he' with
    | known hv' => cases hv.symm.trans hv'
    | rebuild hv' hinner hp' hrest =>
      cases hv.symm.trans hv'
      obtain ⟨rfl, rfl⟩ := ihInner hinner
      subst hp hp'
      obtain ⟨rfl, rfl⟩ := ihRest hrest
      exact ⟨rfl, rfl⟩

theorem Evaluates.evaluate {priority : Priority} (he : Evaluates floor g [n] [priority] h) :
    evaluate floor n g = (priority, h) := by
  obtain ⟨hpriority, hgraph⟩ := he.unique (evaluate_evaluates floor n g)
  exact Prod.ext (List.singleton_inj.mp hpriority) hgraph

/-- A procedure that calls itself as the recursion does is evaluation, and evaluation does. -/
theorem recursion_iff_evaluate (floor : Priority) (recur : Node → StateT Graph Option Priority) :
    (∀ n, recur n = recompute floor recur n) ↔
      ∀ n g, (recur n).run g = some (evaluate floor n g) := by
  refine ⟨fun hrecur n g => ?_, fun hrecur n => StateT.ext fun g => ?_⟩
  · have hn := (evaluate_evaluates floor n g).run_mapM hrecur
    rw [List.mapM_cons, StateT.run_bind] at hn
    obtain ⟨⟨priority, h⟩, hn, hlast⟩ := Option.bind_eq_some_iff.mp hn
    cases hlast
    exact hn
  · rw [hrecur]
    symm
    rcases hv : g.visit floor n with ⟨priority | frame, h⟩
    · rw [(Evaluates.known hv (.nil h)).evaluate]
      exact recompute_known hv
    · have hinner := evaluateAll_evaluates floor frame.rest h
      rw [(Evaluates.rebuild hv hinner rfl (.nil _)).evaluate]
      exact recompute_rebuild hv (run_mapM_evaluate hrecur frame.rest h)
        ((visit_rebuild hv).2.ties.trans hinner.sameTies)

theorem run_propagate (recur : Node → StateT Graph Option Unit) (n : Node) (g : Graph) :
    (propagate recur n).run g =
      if g.markable n then (forM (g.beneficiaries n) recur).run (g.mark n) else some ((), g) := by
  cases n with
  | task t =>
    by_cases hd : (g.task t).dirty = true
    · simp [propagate, markable, hd]
    · simp [propagate, markable, beneficiaries, mark, hd]
  | queue q =>
    by_cases hmarkable : (g.queue q).transfers = true ∧ (g.queue q).dirty = false
    · cases hholder : (g.queue q).holder with
      | none => simp [propagate, markable, beneficiaries, mark, hmarkable, hholder]
      | some t => simp [propagate, markable, beneficiaries, mark, hmarkable, hholder]
    · have hskip : (g.queue q).dirty = true ∨ (g.queue q).transfers = false := by grind
      simp [propagate, markable, hmarkable, hskip]

theorem markingWork_invalidate (g : Graph) (n : Node) :
    (g.invalidate n).markingWork ≤ g.markingWork := by
  refine invalidate_induction (g := g) (Q := fun m => m.graph.markingWork ≤ g.markingWork) ?_
    (Nat.le_refl _)
  rintro ⟨g', _ | ⟨m, pending⟩⟩ m' hle hstep
  · simp [Marking.step] at hstep
  · simp only [Marking.step] at hstep
    split at hstep
    · rename_i hm
      cases hstep
      exact Nat.le_trans (Nat.le_of_add_right_le (markingWork_mark hm)) hle
    · cases hstep
      exact hle

end Graph

open PriorityDonation.Graph

namespace Marking

theorem step_of_markable {g : Graph} {n : Node} (hm : g.markable n = true) (pending : List Node) :
    walk.step ⟨g, n :: pending⟩ = .inl ⟨g.mark n, g.beneficiaries n ++ pending⟩ := by
  simp [walk, step, hm]

theorem step_of_not_markable {g : Graph} {n : Node} (hm : g.markable n = false)
    (pending : List Node) : walk.step ⟨g, n :: pending⟩ = .inl ⟨g, pending⟩ := by
  simp [walk, step, hm]

/-- The walk is through with the first pending nodes before it comes to the later ones. -/
theorem run_append (s : Marking) (later : List Node) :
    walk.run ⟨s.graph, s.pending ++ later⟩ = walk.run ⟨walk.run s, later⟩ := by
  fun_induction Walk.run walk s with
  | case1 s s' hstep ih =>
    obtain ⟨g, _ | ⟨n, pending⟩⟩ := s
    · cases hstep
    · rw [List.cons_append]
      cases hm : g.markable n with
      | true =>
        cases hstep.symm.trans (step_of_markable hm pending)
        rw [walk.run_of_inl (step_of_markable hm _), ← List.append_assoc]
        exact ih
      | false =>
        cases hstep.symm.trans (step_of_not_markable hm pending)
        rw [walk.run_of_inl (step_of_not_markable hm _)]
        exact ih
  | case2 s result hstep =>
    obtain ⟨g, _ | ⟨n, pending⟩⟩ := s
    · cases hstep
      rfl
    · cases hm : g.markable n with
      | true => cases hstep.symm.trans (step_of_markable hm pending)
      | false => cases hstep.symm.trans (step_of_not_markable hm pending)

theorem run_eq_invalidateAll (g : Graph) (nodes : List Node) :
    walk.run ⟨g, nodes⟩ = g.invalidateAll nodes := by
  induction nodes generalizing g with
  | nil => exact walk.run_of_inr rfl
  | cons n rest ih =>
    rw [invalidateAll_cons, ← ih]
    exact run_append ⟨g, [n]⟩ rest

end Marking

namespace Graph

theorem invalidate_of_markable {g : Graph} {n : Node} (hm : g.markable n = true) :
    g.invalidate n = (g.mark n).invalidateAll (g.beneficiaries n) := by
  rw [← Marking.run_eq_invalidateAll, invalidate,
    Marking.walk.run_of_inl (Marking.step_of_markable hm []), List.append_nil]

theorem invalidate_of_not_markable {g : Graph} {n : Node} (hm : g.markable n = false) :
    g.invalidate n = g :=
  (Marking.walk.run_of_inl (Marking.step_of_not_markable hm [])).trans (Marking.walk.run_of_inr rfl)

/-- Where a procedure calls itself as the recursion does, it marks what invalidation marks. -/
theorem run_forM_propagate {recur : Node → StateT Graph Option Unit}
    (hrecur : ∀ n, recur n = propagate recur n) (nodes : List Node) (g : Graph) :
    (forM nodes recur).run g = some ((), g.invalidateAll nodes) := by
  cases nodes with
  | nil => rfl
  | cons n rest =>
    have hn : (recur n).run g = some ((), g.invalidate n) := by
      rw [hrecur, run_propagate]
      cases hm : g.markable n with
      | true =>
        have hwork := markingWork_mark hm
        rw [invalidate_of_markable hm, if_pos rfl]
        exact run_forM_propagate hrecur _ _
      | false =>
        rw [invalidate_of_not_markable hm]
        rfl
    have hle := g.markingWork_invalidate n
    have hrest := run_forM_propagate hrecur rest (g.invalidate n)
    simp [hn, hrest, invalidateAll_cons]
termination_by g.markingWork + nodes.length

theorem run_forM_invalidate {recur : Node → StateT Graph Option Unit}
    (hrecur : ∀ n g, (recur n).run g = some ((), g.invalidate n)) (nodes : List Node) (g : Graph) :
    (forM nodes recur).run g = some ((), g.invalidateAll nodes) := by
  induction nodes generalizing g with
  | nil => rfl
  | cons n rest ih => simp [hrecur, ih, invalidateAll_cons]

/-- A procedure that calls itself as the recursion does is invalidation, and invalidation does. -/
theorem recursion_iff_invalidate (recur : Node → StateT Graph Option Unit) :
    (∀ n, recur n = propagate recur n) ↔ ∀ n g, (recur n).run g = some ((), g.invalidate n) := by
  refine ⟨fun hrecur n g => ?_, fun hrecur n => StateT.ext fun g => ?_⟩
  · have hn : (forM [n] recur).run g = some ((), g.invalidate n) :=
      run_forM_propagate hrecur [n] g
    simpa using hn
  · rw [hrecur, run_propagate]
    cases hm : g.markable n with
    | true => rw [invalidate_of_markable hm, if_pos rfl, run_forM_invalidate hrecur]
    | false => rw [invalidate_of_not_markable hm, if_neg Bool.false_ne_true]

end Graph

end PriorityDonation
