import PriorityDonation.Proofs.Histories

/-!
# Dirty flags are closed downstream

The invalidation walk stops at a node that is dirty already. It may do so because, whenever a call
begins, all that takes priority from a dirty node is dirty too, near or far and also along circles.
-/

namespace PriorityDonation

namespace Graph

variable {bounds : Bounds} {g : Graph}

/-- A clean node has no flag, and neither has a node out of use or one that lets nothing through. -/
theorem Coherent.clean_of_not (c : g.Coherent bounds) {n : Node}
    (hn : ¬ (g.conducts n = true ∧ g.InUse n)) : g.dirty n = false := by
  by_contra hd
  exact hn (c.flags n (by simpa using hd))

theorem Coherent.dirty_of_gives (c : g.Coherent bounds) {a b : Node} (hab : g.Gives a b)
    (hd : g.dirty a = true) : g.dirty b = true := by
  rw [c.gives_eq_feeds] at hab
  exact (c.closed a b hab hd).resolve_right id

end Graph

namespace Scheduler

open PriorityDonation.Graph

variable {s : Scheduler}

/-- At every point of every history, circles included, the flags are closed: whatever takes priority
from a dirty node is dirty too, and nothing is dirty that is out of use or lets nothing through. -/
theorem dirty_flags_closed (reachable : s.Reachable) :
    (∀ t, s.graph.Tracked t → (s.graph.task t).dirty = true →
      ∀ q ∈ (s.graph.task t).awaiting, (s.graph.queue q).transfers = true →
        (s.graph.queue q).dirty = true) ∧
    (∀ q t, (s.graph.queue q).dirty = true → (s.graph.queue q).holder = some t →
      (s.graph.task t).dirty = true) ∧
    (∀ q, (s.graph.queue q).transfers = false → (s.graph.queue q).dirty = false) ∧
    (∀ q, (s.graph.queue q).live = false → (s.graph.queue q).dirty = false) ∧
    (∀ t, ¬ s.graph.Tracked t → (s.graph.task t).dirty = false) ∧
    (∀ n m, s.graph.dirty n = true → s.graph.Upstream n m → s.graph.dirty m = true) := by
  have c := reachable.coherent
  refine ⟨?_, ?_, ?_, ?_, ?_, ?_⟩
  · intro t _ hd q hq hc
    have hgives : s.graph.Gives (.task t) (.queue q) := ⟨hc, List.mem_map_of_mem hq⟩
    exact c.dirty_of_gives hgives hd
  · intro q t hd hholder
    have hgives : s.graph.Gives (.queue q) (.task t) :=
      ⟨rfl, List.mem_map_of_mem (Option.mem_toList.mpr hholder)⟩
    exact c.dirty_of_gives hgives hd
  · intro q hc
    exact c.clean_of_not (n := .queue q) fun h => by simp [conducts, hc] at h
  · intro q hl
    exact c.clean_of_not (n := .queue q) fun h => by simp [InUse, hl] at h
  · intro t ht
    exact c.clean_of_not (n := .task t) fun h => ht h.2
  · intro n m hd hup
    exact c.closed.upstream hup hd

/-- Two tasks wait for each other, and nobody has asked for a priority since. -/
def closedCircle : Scheduler :=
  after ⟨.standard, Bounds.standard_valid, ⟨false⟩, {}⟩ <| List.map .perform
    [.newWaitQueue true, .newWaitQueue true, .acquire ⟨0, 0⟩ ⟨1⟩, .acquire ⟨1, 0⟩ ⟨2⟩,
      .waitForAccess ⟨1, 0⟩ ⟨1⟩, .waitForAccess ⟨0, 0⟩ ⟨2⟩]

theorem dirty_flags_closed_closedCircle :
    closedCircle.graph.dirty (.task 0) = true ∧
      (closedCircle.graph.task 0).awaiting = [1] ∧
      (closedCircle.graph.queue 1).dirty = true ∧
      (closedCircle.graph.queue 1).holder = some 1 ∧ closedCircle.graph.dirty (.task 1) = true := by
  have reachable : closedCircle.Reachable :=
    (Reachable.fresh (build_of_valid Bounds.standard_valid ⟨false⟩)).after _
  obtain ⟨htask, hqueue, -⟩ := dirty_flags_closed reachable
  have hdirty : (closedCircle.graph.task 0).dirty = true := by decide +kernel
  have hawaits : (closedCircle.graph.task 0).awaiting = [1] := by decide +kernel
  have hholder : (closedCircle.graph.queue 1).holder = some 1 := by decide +kernel
  have hmarked := htask 0 ⟨by decide +kernel, by decide +kernel⟩ hdirty 1
    (hawaits ▸ List.mem_cons_self) (by decide +kernel)
  exact ⟨hdirty, hawaits, hmarked, hholder, hqueue 1 1 hmarked hholder⟩

end Scheduler

end PriorityDonation
