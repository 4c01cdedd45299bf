import PriorityDonation.Proofs.Caches
import PriorityDonation.Proofs.Consistency

/-!
# Nodes that are settled

A visit of a settled node answers at once and changes nothing, not even a counter. Evaluation
settles its nodes, also around a circle, and from then on no evaluation of any nodes touches them
again: what is clean is not opened a second time, and a task that holds nothing has nothing but its
base to write to its cache.
-/

namespace PriorityDonation

/-- A change that changes nothing. -/
theorem Arena.modify_self {α : Type} [Inhabited α] (arena : Arena α) (slot : Nat) {f : α → α}
    (h : f (arena.get slot) = arena.get slot) : arena.modify slot f = arena := by
  obtain ⟨slots, free⟩ := arena
  simp only [modify, mk.injEq, and_true]
  refine Array.ext (by simp) fun i hi hi' => ?_
  rw [Array.getElem_modify]
  split
  · rename_i hslot
    subst hslot
    simpa [get_eq, hi'] using h
  · rfl

theorem Task.settle_self {task : Task} (cached : task.cached = task.base)
    (clean : task.dirty = false) : task.settle = task := by
  cases task
  simp_all [Task.settle]

namespace Graph

/-- A visit has nothing to do here. -/
structure Settled (floor : Priority) (g : Graph) (n : Node) : Prop where
  clean : g.conducts n = true → g.dirty n = false
  cached : g.conducts n = true → g.caches n = false → g.cached n = g.seed floor n

variable {g h k : Graph} {floor : Priority} {nodes : List Node} {priorities : List Priority}
  {n m : Node}

theorem visit_settled (hn : g.Settled floor n) :
    g.visit floor n = (.known (g.value floor n), g) := by
  cases n with
  | task t =>
    have hd : (g.task t).dirty = false := hn.clean rfl
    by_cases hheld : (g.task t).held.isEmpty = true
    · have hc : g.caches (.task t) = false := by simp [caches, hheld]
      have hsettle : (g.task t).settle = g.task t := Task.settle_self (hn.cached rfl hc) hd
      have hmodify : g.modifyTask t Task.settle = g := by
        simp only [modifyTask, Arena.modify_self _ _ hsettle]
      simp only [visit, hheld, if_true, hmodify, value, hc, Bool.false_eq_true, if_false, seed]
    · have hc : g.caches (.task t) = true := by simp [caches, hheld]
      simp only [visit, hheld, hd, Bool.not_false, if_true, value, hc, Graph.cached]
      rfl
  | queue q =>
    by_cases hc : (g.queue q).transfers = true
    · have hd : (g.queue q).dirty = false := hn.clean hc
      simp only [visit, hc, hd, Bool.not_false, if_true, value, caches, Graph.cached]
      rfl
    · simp [visit, hc, value, caches, seed]

theorem evaluate_settled (hn : g.Settled floor n) :
    evaluate floor n g = (g.value floor n, g) := by
  rw [evaluate, visit_settled hn]

theorem evaluateAll_settled (hn : ∀ n ∈ nodes, g.Settled floor n) :
    evaluateAll floor nodes g = (nodes.map (g.value floor), g) := by
  induction nodes with
  | nil => rfl
  | cons n rest ih =>
    rw [evaluateAll_cons, evaluate_settled (hn n List.mem_cons_self),
      ih fun m hm => hn m (List.mem_cons_of_mem n hm)]
    rfl

/-- Nothing but its own visit writes to the cache of a node that does not use it. -/
theorem Evaluates.cached_seed (he : Evaluates floor g nodes priorities h)
    (hc : g.caches m = false) (hm : g.cached m = g.seed floor m) :
    h.cached m = h.seed floor m := by
  induction he with
  | nil g => exact hm
  | @known g h k n rest priority priorities hv _ ih =>
    have ties := (visit_known hv).2.ties
    have hcached := g.cached_visit floor n m
    refine ih (ties.caches m ▸ hc) ?_
    rw [hv] at hcached
    rw [hcached, ties.seed]
    split
    · rename_i hmn
      rw [hmn.1]
    · exact hm
  | @rebuild g h k l n frame rest priority inner priorities hv hinner hp _ ihInner ihRest =>
    have ho := (visit_rebuild hv).2
    have hne : m ≠ n := by
      rintro rfl
      simp [ho.caches] at hc
    have ties := ho.ties.trans hinner.sameTies
    have tiesFinish := k.sameTies_finish n priority
    have hk := ihInner (ho.ties.caches m ▸ hc) (by rw [ho.cached m hne, ho.ties.seed, hm])
    refine ihRest ((ties.trans tiesFinish).caches m ▸ hc) ?_
    rw [(k.cached_finish n priority m).1 hne, tiesFinish.seed, hk]

/-- Evaluation leaves settled nodes alone. -/
theorem Evaluates.keeps_settled (he : Evaluates floor g nodes priorities h)
    (hm : g.Settled floor m) : h.Settled floor m ∧ h.value floor m = g.value floor m := by
  have ties := he.sameTies
  refine ⟨⟨fun hc => ?_, fun hc hcaches => ?_⟩, ?_⟩
  · exact (he.clean_value (hm.clean (ties.conducts m ▸ hc))).1
  · rw [ties.conducts] at hc
    rw [ties.caches] at hcaches
    exact he.cached_seed hcaches (hm.cached hc hcaches)
  · by_cases hcaches : g.caches m = true
    · exact (he.clean_value (hm.clean (conducts_of_caches hcaches))).2
    · exact ties.value_of_not_caches (by simpa using hcaches)

theorem Evaluates.settled (he : Evaluates floor g nodes priorities h) (hn : n ∈ nodes) :
    h.Settled floor n := by
  refine ⟨fun hc => he.clean hn (he.sameTies.conducts n ▸ hc), ?_⟩
  induction he with
  | nil g => simp at hn
  | @known g h k n' rest priority priorities hv hrest ih =>
    obtain hrest' | hn' := (List.mem_cons.mp hn).symm
    · exact ih hrest'
    subst hn'
    have ties := (visit_known hv).2.ties
    intro hc hcaches
    rw [hrest.sameTies.conducts] at hc
    rw [hrest.sameTies.caches] at hcaches
    refine hrest.cached_seed hcaches ?_
    have hcached := g.cached_visit floor n n
    rw [ties.conducts] at hc
    rw [ties.caches] at hcaches
    rw [hv, if_pos ⟨rfl, hc, by simp [hcaches]⟩] at hcached
    rw [hcached, ties.seed]
  | @rebuild g h k l n' frame rest priority inner priorities hv hinner hp hrest _ ihRest =>
    obtain hrest' | hn' := (List.mem_cons.mp hn).symm
    · exact ihRest hrest'
    subst hn'
    have ho := (visit_rebuild hv).2
    have ties := (ho.ties.trans hinner.sameTies).trans (k.sameTies_finish n priority)
    intro _ hcaches
    rw [hrest.sameTies.caches, ties.caches, ho.caches] at hcaches
    cases hcaches

theorem settled_evaluate (floor : Priority) (n : Node) (g : Graph) :
    (evaluate floor n g).2.Settled floor n :=
  (evaluate_evaluates floor n g).settled List.mem_cons_self

/-- The answer is the priority that the node shows from then on. -/
theorem evaluate_fst (floor : Priority) (n : Node) (g : Graph) :
    (evaluate floor n g).1 = (evaluate floor n g).2.value floor n := by
  simpa using (evaluate_evaluates floor n g).answers

end Graph

end PriorityDonation
