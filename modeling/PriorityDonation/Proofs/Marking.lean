import PriorityDonation.Proofs.Nodes

/-!
# What the invalidation walk does

The walk only sets flags. The nodes it marks all lie downstream of the start, and once it is over
no priority flows from a dirty node to a clean one, provided that before the walk it did so only
into the start. On the way the nodes still to be looked at are the only exceptions, which is why a
node that is dirty already need not be looked at again. Where a change makes several nodes doubtful,
each walk closes the flags at its own start and leaves the other starts to the walks to come.
-/

namespace PriorityDonation

namespace Graph

/-- Priority flows from the first node to the second, as the first one records it. -/
def Gives (g : Graph) (a b : Node) : Prop := g.conducts b = true ∧ b ∈ g.beneficiaries a

/-- Along the given flows a dirty node makes the next one dirty, apart from the nodes left. -/
def DirtyClosed (g : Graph) (flows : Node → Node → Prop) (left : Node → Prop) : Prop :=
  ∀ a b, flows a b → g.dirty a = true → g.dirty b = true ∨ left b

variable {g h : Graph}

theorem SameTies.gives (a : SameTies g h) : h.Gives = g.Gives := by
  funext x y
  simp only [Graph.Gives, a.conducts, a.beneficiaries]

theorem dirty_mark (g : Graph) (n m : Node) :
    (g.mark n).dirty m = true ↔ g.dirty m = true ∨ m = n ∧ g.Present n := by
  cases n with
  | task t =>
    simp only [mark, dirty_count, dirty_modifyTask, Present]
    split <;> grind [Task.mark]
  | queue q =>
    simp only [mark, dirty_count, dirty_modifyQueue, Present]
    split <;> grind [WaitQueue.mark]

theorem cached_mark (g : Graph) (n m : Node) : (g.mark n).cached m = g.cached m := by
  cases n with
  | task t =>
    simp only [mark, cached_count]
    exact g.cached_modifyTask_of_eq t (f := Task.mark) (fun _ => rfl) m
  | queue q =>
    simp only [mark, cached_count]
    exact g.cached_modifyQueue_of_eq q (f := WaitQueue.mark) (fun _ => rfl) m

theorem counters_mark (g : Graph) (n : Node) : (g.mark n).counters =
    { g.counters with invalidations := g.counters.invalidations + 1 } := by
  cases n <;> rfl

end Graph

open PriorityDonation.Graph

variable {g : Graph} {P : Node → Prop}

/-- A walk that began at `g` and keeps to the nodes of `P` has only set flags so far. -/
structure Marking.Spreads (g : Graph) (P : Node → Prop) (marking : Marking) : Prop where
  ties : SameTies g marking.graph
  cached (n : Node) : marking.graph.cached n = g.cached n
  kept (n : Node) : g.dirty n = true → marking.graph.dirty n = true
  marked (n : Node) :
    marking.graph.dirty n = true → g.dirty n = true ∨ g.conducts n = true ∧ P n
  pending : ∀ n ∈ marking.pending, P n

theorem Marking.Spreads.step (keep : ∀ a b, P a → b ∈ g.beneficiaries a → P b)
    (s s' : Marking) (hs : s.Spreads g P) (h : Marking.step s = .inl s') : s'.Spreads g P := by
  obtain ⟨g', _ | ⟨n, pending⟩⟩ := s
  · simp [Marking.step] at h
  have hn : P n := hs.pending n List.mem_cons_self
  have hrest : ∀ m ∈ pending, P m := fun m hm => hs.pending m (List.mem_cons_of_mem n hm)
  simp only [Marking.step] at h
  split at h
  · rename_i hm
    cases h
    rw [markable_eq, Bool.and_eq_true] at hm
    refine ⟨hs.ties.trans (g'.sameTies_mark n), ?_, ?_, ?_, ?_⟩
    · intro m
      exact (g'.cached_mark n m).trans (hs.cached m)
    · intro m hd
      exact (g'.dirty_mark n m).mpr (Or.inl (hs.kept m hd))
    · intro m hd
      rcases (g'.dirty_mark n m).mp hd with hd | ⟨rfl, -⟩
      · exact hs.marked m hd
      · exact Or.inr ⟨hs.ties.conducts m ▸ hm.1, hn⟩
    · intro m hmem
      rcases List.mem_append.mp hmem with hmem | hmem
      · exact keep n m hn (hs.ties.beneficiaries n ▸ hmem)
      · exact hrest m hmem
  · cases h
    exact ⟨hs.ties, hs.cached, hs.kept, hs.marked, hrest⟩

/-- A walk that began at `g` still has to look at every place where the flags are not closed, apart
from those that are left to others. -/
structure Marking.Pends (g : Graph) (start : Node) (left : Node → Prop) (marking : Marking) :
    Prop where
  ties : SameTies g marking.graph
  present : ∀ n ∈ marking.pending, g.conducts n = true → g.Present n
  closed : marking.graph.DirtyClosed g.Gives (fun n => n ∈ marking.pending ∨ left n)
  start : g.conducts start = true → marking.graph.dirty start = true ∨ start ∈ marking.pending

theorem Marking.Pends.step {start : Node} {left : Node → Prop}
    (present : ∀ a b, g.Gives a b → g.Present b)
    (s s' : Marking) (hs : s.Pends g start left) (h : Marking.step s = .inl s') :
    s'.Pends g start left := by
  obtain ⟨g', _ | ⟨n, pending⟩⟩ := s
  · simp [Marking.step] at h
  simp only [Marking.step] at h
  split at h
  · rename_i hm
    cases h
    rw [markable_eq, Bool.and_eq_true, hs.ties.conducts] at hm
    have marked (m : Node) (hd : g'.dirty m = true ∨ m = n) : (g'.mark n).dirty m = true := by
      refine (g'.dirty_mark n m).mpr (hd.imp_right fun hmn => ⟨hmn, ?_⟩)
      exact (hs.ties.present n).mpr (hs.present n List.mem_cons_self hm.1)
    refine ⟨hs.ties.trans (g'.sameTies_mark n), ?_, ?_, ?_⟩
    · intro m hmem hc
      rcases List.mem_append.mp hmem with hmem | hmem
      · exact present n m ⟨hc, hs.ties.beneficiaries n ▸ hmem⟩
      · exact hs.present m (List.mem_cons_of_mem n hmem) hc
    · intro a b hab hd
      rcases (g'.dirty_mark n a).mp hd with hd | ⟨rfl, -⟩
      · rcases hs.closed a b hab hd with hb | hb | hb
        · exact Or.inl (marked b (Or.inl hb))
        · rcases List.mem_cons.mp hb with rfl | hb
          · exact Or.inl (marked b (Or.inr rfl))
          · exact Or.inr (Or.inl (List.mem_append_right _ hb))
        · exact Or.inr (Or.inr hb)
      · exact Or.inr (Or.inl (List.mem_append_left _ ((hs.ties.beneficiaries a).symm ▸ hab.2)))
    · intro hc
      rcases hs.start hc with hd | hmem
      · exact Or.inl (marked start (Or.inl hd))
      · rcases List.mem_cons.mp hmem with rfl | hmem
        · exact Or.inl (marked start (Or.inr rfl))
        · exact Or.inr (List.mem_append_right _ hmem)
  · rename_i hm
    cases h
    -- a node passed over is dirty already, or nothing flows into it
    have passed : g.conducts n = true → g'.dirty n = true := by
      rw [← hs.ties.conducts]
      exact markable_eq_false.mp (Bool.eq_false_iff.mpr hm)
    refine ⟨hs.ties, fun m hmem => hs.present m (List.mem_cons_of_mem n hmem), ?_, ?_⟩
    · intro a b hab hd
      rcases hs.closed a b hab hd with hb | hb | hb
      · exact Or.inl hb
      · rcases List.mem_cons.mp hb with rfl | hb
        · exact Or.inl (passed hab.1)
        · exact Or.inr (Or.inl hb)
      · exact Or.inr (Or.inr hb)
    · intro hc
      rcases hs.start hc with hd | hmem
      · exact Or.inl hd
      · rcases List.mem_cons.mp hmem with rfl | hmem
        · exact Or.inl (passed hc)
        · exact Or.inr hmem

namespace Graph

/-- What holds at the start of the walk and survives its steps holds at its end. -/
theorem invalidate_induction {Q : Marking → Prop} {n : Node}
    (keep : ∀ m m', Q m → Marking.step m = .inl m' → Q m') (start : Q ⟨g, [n]⟩) :
    Q ⟨g.invalidate n, []⟩ := by
  obtain ⟨⟨g', _ | ⟨m, pending⟩⟩, hlast, hstep⟩ := Marking.walk.exists_last keep ⟨g, [n]⟩ start
  · cases hstep
    exact hlast
  · simp only [Marking.walk, Marking.step] at hstep
    split at hstep <;> cases hstep

theorem invalidate_spreads {n : Node} (start : P n)
    (keep : ∀ a b, P a → b ∈ g.beneficiaries a → P b) :
    Marking.Spreads g P ⟨g.invalidate n, []⟩ :=
  invalidate_induction (Marking.Spreads.step keep)
    ⟨.refl g, fun _ => rfl, fun _ => id, fun _ => Or.inl, by simpa using start⟩

/-- After the walk the flags are closed but for what was left to others, and the start is dirty,
unless it is a blocked queue. -/
theorem invalidate_closed {n : Node} {left : Node → Prop}
    (present : ∀ a b, g.Gives a b → g.Present b) (hn : g.conducts n = true → g.Present n)
    (closed : g.DirtyClosed g.Gives (fun b => b = n ∨ left b)) :
    (g.invalidate n).DirtyClosed g.Gives left ∧
      (g.conducts n = true → (g.invalidate n).dirty n = true) := by
  have hs : Marking.Pends g n left ⟨g, [n]⟩ :=
    ⟨.refl g, by simpa using hn, by simpa using closed, fun _ => Or.inr List.mem_cons_self⟩
  have hlast := invalidate_induction (Marking.Pends.step present) hs
  refine ⟨fun a b hab hd => ?_, fun hc => ?_⟩
  · exact (hlast.closed a b hab hd).imp_right (Or.resolve_left · List.not_mem_nil)
  · exact (hlast.start hc).resolve_right List.not_mem_nil

/-- Invalidates the nodes of a list one after the other. -/
def invalidateAll (g : Graph) (nodes : List Node) : Graph := nodes.foldl invalidate g

theorem invalidateAll_cons (g : Graph) (n : Node) (rest : List Node) :
    g.invalidateAll (n :: rest) = (g.invalidate n).invalidateAll rest := rfl

theorem sameTies_invalidateAll (g : Graph) (nodes : List Node) :
    SameTies g (g.invalidateAll nodes) := by
  induction nodes generalizing g with
  | nil => exact .refl g
  | cons n rest ih =>
    have first := invalidate_spreads (g := g) (n := n) (P := fun _ => True) trivial
      fun _ _ _ _ => trivial
    exact first.ties.trans (ih _)

theorem sameTies_invalidate (g : Graph) (n : Node) : SameTies g (g.invalidate n) :=
  g.sameTies_invalidateAll [n]

theorem cached_invalidateAll (g : Graph) (nodes : List Node) (m : Node) :
    (g.invalidateAll nodes).cached m = g.cached m := by
  induction nodes generalizing g with
  | nil => rfl
  | cons n rest ih =>
    have first := invalidate_spreads (g := g) (n := n) (P := fun _ => True) trivial
      fun _ _ _ _ => trivial
    exact (ih _).trans (first.cached m)

theorem dirty_invalidateAll_of_dirty (g : Graph) (nodes : List Node) {m : Node}
    (h : g.dirty m = true) : (g.invalidateAll nodes).dirty m = true := by
  induction nodes generalizing g with
  | nil => exact h
  | cons n rest ih =>
    have first := invalidate_spreads (g := g) (n := n) (P := fun _ => True) trivial
      fun _ _ _ _ => trivial
    exact ih _ (first.kept m h)

/-- Nothing is marked outside a set of nodes that the walks do not leave. -/
theorem of_dirty_invalidateAll {nodes : List Node} {m : Node} (start : ∀ n ∈ nodes, P n)
    (keep : ∀ a b, P a → b ∈ g.beneficiaries a → P b)
    (h : (g.invalidateAll nodes).dirty m = true) :
    g.dirty m = true ∨ g.conducts m = true ∧ P m := by
  induction nodes generalizing g with
  | nil => exact Or.inl h
  | cons n rest ih =>
    have first := invalidate_spreads (start n List.mem_cons_self) keep
    have hrest := ih (fun m hm => start m (List.mem_cons_of_mem n hm))
      (fun a b ha hb => keep a b ha (first.ties.beneficiaries a ▸ hb)) h
    rcases hrest with hd | ⟨hc, hm⟩
    · exact first.marked m hd
    · exact Or.inr ⟨first.ties.conducts m ▸ hc, hm⟩

/-- Once all of the nodes have been invalidated the flags are closed. -/
theorem invalidateAll_closed {nodes : List Node} (present : ∀ a b, g.Gives a b → g.Present b)
    (hnodes : ∀ n ∈ nodes, g.conducts n = true → g.Present n)
    (closed : g.DirtyClosed g.Gives (· ∈ nodes)) :
    (g.invalidateAll nodes).DirtyClosed g.Gives (fun _ => False) ∧
      ∀ n ∈ nodes, g.conducts n = true → (g.invalidateAll nodes).dirty n = true := by
  induction nodes generalizing g with
  | nil => exact ⟨by simpa [invalidateAll] using closed, by simp⟩
  | cons n rest ih =>
    obtain ⟨hclosed, hmarked⟩ := invalidate_closed present (hnodes n List.mem_cons_self)
      (by simpa only [List.mem_cons] using closed)
    have ties := g.sameTies_invalidateAll [n]
    obtain ⟨hclosed', hmarked'⟩ := ih (g := g.invalidate n)
      (fun a b hab => (ties.present b).mpr (present a b (ties.gives ▸ hab)))
      (fun m hm hc => (ties.present m).mpr
        (hnodes m (List.mem_cons_of_mem n hm) (ties.conducts m ▸ hc)))
      (ties.gives.symm ▸ hclosed)
    refine ⟨ties.gives ▸ hclosed', fun m hm hc => ?_⟩
    rcases List.mem_cons.mp hm with rfl | hm
    · exact (g.invalidate m).dirty_invalidateAll_of_dirty rest (hmarked hc)
    · exact hmarked' m hm ((ties.conducts m).symm ▸ hc)

end Graph

end PriorityDonation
