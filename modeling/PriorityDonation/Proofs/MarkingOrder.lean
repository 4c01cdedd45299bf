import Mathlib.Data.Multiset.AddSub
import Mathlib.Data.Set.Card
import PriorityDonation.Proofs.DirtyFlags
import PriorityDonation.Proofs.Recursion
import PriorityDonation.Proofs.Slots

/-!
# The order of marking

Invalidation takes the nodes still pending in one particular order. `Marks` leaves the order open:
what is pending is a multiset, and any of its nodes may be looked at next. Whatever the order, the
nodes marked in the end are the least set that holds the start and, with every node that it adds to
the dirty ones, the nodes which that one gives priority to. So the order does not matter: every
marking that is gone through leaves the same graph, which is the one that the walk leaves and the
one that the recursion leaves.

Where the flags are closed downstream already, this set is all that lies downstream of the start.
Cutting the walk short at nodes that are dirty then loses nothing.
-/

namespace PriorityDonation

namespace Graph

/-- From a graph, with some nodes pending, so many looks at pending nodes in any order mark the
nodes of a list, lead to another graph, and leave some nodes pending. -/
inductive Marks : Graph → Multiset Node → List Node → Nat → Graph → Multiset Node → Prop
  | rest (g : Graph) (pending : Multiset Node) : Marks g pending [] 0 g pending
  | mark {g h : Graph} {n : Node} {pending left : Multiset Node} {marked : List Node}
      {looks : Nat} : g.markable n = true →
      Marks (g.mark n) (↑(g.beneficiaries n) + pending) marked looks h left →
      Marks g (n ::ₘ pending) (n :: marked) (looks + 1) h left
  | pass {g h : Graph} {n : Node} {pending left : Multiset Node} {marked : List Node}
      {looks : Nat} : g.markable n = false → Marks g pending marked looks h left →
      Marks g (n ::ₘ pending) marked (looks + 1) h left

/-- A set of nodes that marking cannot do without: it holds what is dirty and what is pending, and
goes on from the nodes that it adds. -/
structure Covers (g : Graph) (pending : Multiset Node) (P : Node → Prop) : Prop where
  dirty (n : Node) : g.dirty n = true → P n
  pending (n : Node) : n ∈ pending → g.conducts n = true → P n
  next (a b : Node) : P a → g.dirty a = false → g.Gives a b → P b

variable {g h k : Graph} {pending left : Multiset Node} {marked marked' : List Node}
  {looks looks' : Nat} {n m : Node}

theorem dirty_mark_self (hn : g.Present n) : (g.mark n).dirty n = true :=
  (dirty_mark g n n).mpr (Or.inr ⟨rfl, hn⟩)

theorem clean_of_clean_mark (hm : (g.mark n).dirty m = false) : g.dirty m = false := by
  by_contra hd
  simp [(dirty_mark g n m).mpr (Or.inl (by simpa using hd))] at hm

theorem clean_mark_iff (hn : g.Present n) :
    (g.mark n).dirty m = false ↔ g.dirty m = false ∧ m ≠ n := by
  have hiff := dirty_mark g n m
  simp only [hn, and_true] at hiff
  rw [← Bool.not_eq_true, ← Bool.not_eq_true, hiff, not_or]

/-- What is pending after a node has been marked exists if what was pending before exists. -/
theorem InRange.mark (r : g.InRange) (hp : ∀ m ∈ n ::ₘ pending, g.Present m) :
    (g.mark n).InRange ∧ ∀ m ∈ ↑(g.beneficiaries n) + pending, (g.mark n).Present m := by
  have ties := g.sameTies_mark n
  refine ⟨r.congr ties, fun m hm => (ties.present m).mpr ?_⟩
  rcases Multiset.mem_add.mp hm with hm | hm
  · exact r.present_of_beneficiary hm
  · exact hp m (Multiset.mem_cons_of_mem hm)

namespace Marks

theorem sameTies (hm : g.Marks pending marked looks h left) : SameTies g h := by
  induction hm with
  | rest g => exact .refl g
  | @mark g _ n _ _ _ _ _ _ ih => exact (g.sameTies_mark n).trans ih
  | pass _ _ ih => exact ih

theorem cached (hm : g.Marks pending marked looks h left) (m : Node) :
    h.cached m = g.cached m := by
  induction hm with
  | rest => rfl
  | mark _ _ ih => exact ih.trans (cached_mark _ _ m)
  | pass _ _ ih => exact ih

theorem kept (hm : g.Marks pending marked looks h left) (hd : g.dirty m = true) :
    h.dirty m = true := by
  induction hm with
  | rest => exact hd
  | mark _ _ ih => exact ih ((dirty_mark _ _ m).mpr (Or.inl hd))
  | pass _ _ ih => exact ih hd

theorem counters (hm : g.Marks pending marked looks h left) : h.counters =
    { g.counters with invalidations := g.counters.invalidations + marked.length } := by
  induction hm with
  | rest => rfl
  | @mark g _ n _ _ marked _ _ _ ih =>
    rw [ih, counters_mark, List.length_cons, Nat.add_comm marked.length, ← Nat.add_assoc]
  | pass _ _ ih => exact ih

/-- Every look takes one pending node, and every marked node adds its beneficiaries. -/
theorem looks_add (hm : g.Marks pending marked looks h left) :
    looks + left.card =
      pending.card + (marked.map fun m => (g.beneficiaries m).length).sum := by
  induction hm with
  | rest => simp
  | @mark g _ n _ _ marked _ _ _ ih =>
    have hsame (m : Node) : (g.mark n).beneficiaries m = g.beneficiaries m :=
      (g.sameTies_mark n).beneficiaries m
    simp only [hsame, Multiset.card_add, Multiset.coe_card] at ih
    simp only [Multiset.card_cons, List.map_cons, List.sum_cons]
    omega
  | pass _ _ ih =>
    simp only [Multiset.card_cons]
    omega

/-- Nothing is marked that marking could do without. -/
theorem covered {P : Node → Prop} (hm : g.Marks pending marked looks h left)
    (hc : g.Covers pending P) (hd : h.dirty m = true) : P m := by
  induction hm with
  | rest => exact hc.dirty m hd
  | @mark g h n pending left marked looks hn _ ih =>
    rw [markable_eq, Bool.and_eq_true, Bool.not_eq_true'] at hn
    have hPn : P n := hc.pending n (Multiset.mem_cons_self n pending) hn.1
    have ties := g.sameTies_mark n
    refine ih ⟨fun a ha => ?_, fun a ha hconducts => ?_, fun a b ha hclean hab => ?_⟩ hd
    · rcases (dirty_mark g n a).mp ha with ha | ⟨rfl, -⟩
      · exact hc.dirty a ha
      · exact hPn
    · rw [ties.conducts] at hconducts
      rcases Multiset.mem_add.mp ha with ha | ha
      · exact hc.next n a hPn hn.2 ⟨hconducts, ha⟩
      · exact hc.pending a (Multiset.mem_cons_of_mem ha) hconducts
    · rw [ties.gives] at hab
      exact hc.next a b ha (clean_of_clean_mark hclean) hab
  | pass _ _ ih =>
    have hpending := fun a ha => hc.pending a (Multiset.mem_cons_of_mem ha)
    exact ih ⟨hc.dirty, hpending, hc.next⟩ hd

/-- The nodes marked are those that have become dirty, each marked once. -/
theorem marked_iff (hm : g.Marks pending marked looks h left) (r : g.InRange)
    (hp : ∀ n ∈ pending, g.Present n) :
    marked.Nodup ∧ ∀ m, m ∈ marked ↔ g.dirty m = false ∧ h.dirty m = true := by
  induction hm with
  | rest => simp
  | @mark g h n pending left marked looks hn hm ih =>
    have hpresent := hp n (Multiset.mem_cons_self n pending)
    have hself := dirty_mark_self hpresent
    obtain ⟨r', hp'⟩ := r.mark hp
    obtain ⟨hnodup, hmem⟩ := ih r' hp'
    rw [markable_eq, Bool.and_eq_true, Bool.not_eq_true'] at hn
    refine ⟨List.nodup_cons.mpr ⟨?_, hnodup⟩, fun m => ?_⟩
    · simp [hmem, hself]
    · rw [List.mem_cons, hmem, clean_mark_iff hpresent]
      by_cases hmn : m = n
      · simp [hmn, hn.2, hm.kept hself]
      · simp [hmn]
  | pass _ _ ih => exact ih r fun n hn => hp n (Multiset.mem_cons_of_mem hn)

/-- Once nothing is pending, the dirty nodes cover all that they have to. -/
theorem covers (hm : g.Marks pending marked looks h 0) (r : g.InRange)
    (hp : ∀ n ∈ pending, g.Present n) : g.Covers pending (h.dirty · = true) := by
  generalize hleft : (0 : Multiset Node) = left at hm
  induction hm with
  | rest =>
    subst hleft
    exact ⟨fun _ => id, by simp, fun a b ha hclean _ => by simp [hclean] at ha⟩
  | @mark g h n pending left marked looks hn hm ih =>
    have hpresent := hp n (Multiset.mem_cons_self n pending)
    have ties := g.sameTies_mark n
    obtain ⟨r', hp'⟩ := r.mark hp
    have hc := ih r' hp' hleft
    refine ⟨fun a ha => (Marks.mark hn hm).kept ha, fun a ha hconducts => ?_,
      fun a b ha hclean hab => ?_⟩
    · rcases Multiset.mem_cons.mp ha with rfl | ha
      · exact hm.kept (dirty_mark_self hpresent)
      · exact hc.pending a (Multiset.mem_add.mpr (Or.inr ha)) (ties.conducts a ▸ hconducts)
    · by_cases han : a = n
      · subst han
        exact hc.pending b (Multiset.mem_add.mpr (Or.inl hab.2)) (ties.conducts b ▸ hab.1)
      · exact hc.next a b ha ((clean_mark_iff hpresent).mpr ⟨hclean, han⟩) (ties.gives ▸ hab)
  | @pass g h n pending left marked looks hn hm ih =>
    have hc := ih r (fun m hm => hp m (Multiset.mem_cons_of_mem hm)) hleft
    refine ⟨hc.dirty, fun a ha hconducts => ?_, hc.next⟩
    rcases Multiset.mem_cons.mp ha with rfl | ha
    · exact hc.dirty a (markable_eq_false.mp hn hconducts)
    · exact hc.pending a ha hconducts

/-- The order does not matter. -/
theorem unique (hm : g.Marks pending marked looks h 0) (hm' : g.Marks pending marked' looks' k 0)
    (r : g.InRange) (hp : ∀ n ∈ pending, g.Present n) : k = h := by
  have hdirty (m : Node) : k.dirty m = h.dirty m := by
    rw [Bool.eq_iff_iff]
    exact ⟨hm'.covered (hm.covers r hp), hm.covered (hm'.covers r hp)⟩
  have hperm : marked'.Perm marked := by
    obtain ⟨hnodup, hmem⟩ := hm.marked_iff r hp
    obtain ⟨hnodup', hmem'⟩ := hm'.marked_iff r hp
    refine (List.perm_ext_iff_of_nodup hnodup' hnodup).mpr fun m => ?_
    rw [hmem, hmem', hdirty]
  have ties : SameTies h k := hm.sameTies.symm.trans hm'.sameTies
  refine ties.eq hdirty (fun m => ?_) ?_
  · rw [hm.cached, hm'.cached]
  · rw [hm.counters, hm'.counters, hperm.length_eq]

/-- Nothing becomes dirty that does not lie downstream of the start. -/
theorem downstream (hm : g.Marks {n} marked looks h left) (hd : h.dirty m = true) :
    g.dirty m = true ∨ g.conducts n = true ∧ Relation.ReflTransGen g.Gives n m := by
  let downstream (m : Node) : Prop :=
    g.dirty m = true ∨ g.conducts n = true ∧ Relation.ReflTransGen g.Gives n m
  have hc : g.Covers {n} downstream := by
    refine ⟨fun _ => Or.inl, fun a ha hc => ?_, fun a b ha hclean hab => ?_⟩
    · rw [Multiset.mem_singleton.mp ha] at hc ⊢
      exact Or.inr ⟨hc, .refl⟩
    · obtain ⟨hc, hpath⟩ := ha.resolve_left (by simp [hclean])
      exact Or.inr ⟨hc, hpath.tail hab⟩
  exact hm.covered hc hd

/-- Where the flags are closed already, all that lies downstream of the start becomes dirty. -/
theorem dirty_iff (hm : g.Marks {n} marked looks h 0) (r : g.InRange) (hn : g.Present n)
    (closed : g.DirtyClosed g.Gives (fun _ => False)) (m : Node) : h.dirty m = true ↔
      g.dirty m = true ∨ g.conducts n = true ∧ Relation.ReflTransGen g.Gives n m := by
  refine ⟨hm.downstream, ?_⟩
  have hc := hm.covers r (by simpa using hn)
  rintro (hd | ⟨hconducts, hpath⟩)
  · exact hm.kept hd
  · induction hpath with
    | refl => exact hc.pending n (Multiset.mem_singleton_self n) hconducts
    | @tail a b _ hab ih =>
      by_cases hd : g.dirty a = true
      · exact hm.kept ((closed a b hab hd).resolve_right id)
      · exact hc.next a b ih (by simpa using hd) hab

theorem ncard (hm : g.Marks pending marked looks h left) (r : g.InRange)
    (hp : ∀ n ∈ pending, g.Present n) :
    {m | g.dirty m = false ∧ h.dirty m = true}.ncard = marked.length := by
  obtain ⟨hnodup, hmem⟩ := hm.marked_iff r hp
  have hset : {m | g.dirty m = false ∧ h.dirty m = true} = marked.toFinset := by
    ext m
    simp [hmem]
  rw [hset, Set.ncard_coe_finset, List.toFinset_card_of_nodup hnodup]

end Marks

end Graph

open PriorityDonation.Graph

namespace Marking

/-- The node that the next step marks. -/
def marked? (s : Marking) : Option Node := s.pending.head?.filter s.graph.markable

/-- The node that the next step looks at. -/
def looked? (s : Marking) : Option Node := s.pending.head?

/-- The walk marks its nodes in an order of its own. -/
theorem marks_of_runs {s : Marking} {states : List Marking} {h : Graph}
    (hr : walk.Runs s states h) :
    s.graph.Marks s.pending (states.filterMap marked?) (states.filterMap looked?).length h 0 := by
  induction hr with
  | @done s h hstep =>
    obtain ⟨g', _ | ⟨n, pending⟩⟩ := s
    · cases hstep
      exact .rest _ 0
    · simp only [walk, step] at hstep
      split at hstep <;> cases hstep
  | @step s s' states h hstep hr ih =>
    obtain ⟨g, _ | ⟨n, pending⟩⟩ := s
    · cases hstep
    · have hlooked : looked? ⟨g, n :: pending⟩ = some n := rfl
      rw [List.filterMap_cons_some hlooked, List.length_cons]
      cases hm : g.markable n with
      | true =>
        have hmarked : marked? ⟨g, n :: pending⟩ = some n := by simp [marked?, hm]
        rw [step_of_markable hm] at hstep
        cases hstep
        rw [List.filterMap_cons_some hmarked]
        exact .mark hm (Multiset.coe_add _ _ ▸ ih)
      | false =>
        have hmarked : marked? ⟨g, n :: pending⟩ = none := by simp [marked?, hm]
        rw [step_of_not_markable hm] at hstep
        cases hstep
        rw [List.filterMap_cons_none hmarked]
        exact .pass hm ih

end Marking

namespace Graph

variable {g : Graph} {n : Node}

theorem exists_marks (g : Graph) (n : Node) :
    ∃ marked looks, g.Marks {n} marked looks (g.invalidate n) 0 := by
  obtain ⟨states, hr⟩ := Marking.walk.exists_runs ⟨g, [n]⟩
  exact ⟨_, _, Marking.marks_of_runs hr⟩

/-- Invalidation marks the start and all that lies downstream of it, counts each newly marked node
once, and agrees with the recursion and with every other order in which pending nodes are taken. -/
theorem invalidation_marks_downstream (r : g.InRange) (hn : g.Present n) :
    let h := g.invalidate n
    (g.DirtyClosed g.Gives (fun _ => False) → ∀ m, h.dirty m = true ↔
      g.dirty m = true ∨ g.conducts n = true ∧ Relation.ReflTransGen g.Gives n m) ∧
    (SameTies g h ∧ (∀ m, h.cached m = g.cached m) ∧
      (∀ m, g.dirty m = true → h.dirty m = true) ∧
      h.counters = { g.counters with
        invalidations := g.counters.invalidations +
          {m | g.dirty m = false ∧ h.dirty m = true}.ncard }) ∧
    ((∃ recur, ∀ m, recur m = propagate recur m) ∧
      ∀ recur, (∀ m, recur m = propagate recur m) → (recur n).run g = some ((), h)) ∧
    (∀ k, (∃ marked looks, g.Marks {n} marked looks k 0) ↔ k = h) ∧
    ∀ s : Scheduler, s.Reachable →
      s.graph.InRange ∧ s.graph.DirtyClosed s.graph.Gives (fun _ => False) := by
  obtain ⟨marked, looks, hm⟩ := g.exists_marks n
  have hp : ∀ m ∈ ({n} : Multiset Node), g.Present m := by simpa using hn
  refine ⟨hm.dirty_iff r hn, ⟨hm.sameTies, hm.cached, fun m => hm.kept, ?_⟩, ⟨?_, ?_⟩, ?_, ?_⟩
  · rw [hm.counters, hm.ncard r hp]
  · exact ⟨fun m g => some ((), g.invalidate m), (recursion_iff_invalidate _).mpr fun _ _ => rfl⟩
  · exact fun recur hrecur => (recursion_iff_invalidate recur).mp hrecur n g
  · intro k
    constructor
    · rintro ⟨marked', looks', hm'⟩
      exact hm.unique hm' r hp
    · rintro rfl
      exact ⟨marked, looks, hm⟩
  · intro s reachable
    have c := reachable.coherent
    exact ⟨c.toConsistent.inRange, c.toConsistent.gives_eq_feeds ▸ c.closed⟩

end Graph

namespace Scheduler

/-- Two tasks wait for each other, and every flag is down after a question. -/
def answeredCircle : Scheduler := closedCircle.next (.perform (.effectivePriority ⟨1⟩))

theorem reachable_answeredCircle : answeredCircle.Reachable :=
  ((Reachable.fresh (build_of_valid Bounds.standard_valid ⟨false⟩)).after _).next _

theorem invalidation_marks_downstream_answeredCircle :
    let g := answeredCircle.graph
    let h := g.invalidate (.task 0)
    g.dirty (.queue 0) = false ∧ h.dirty (.queue 0) = true ∧
      {m | g.dirty m = false ∧ h.dirty m = true}.ncard = 4 ∧
      ∀ recur, (∀ m, recur m = propagate recur m) → (recur (.task 0)).run g = some ((), h) := by
  have c := reachable_answeredCircle.coherent.toConsistent
  have hpresent : 0 < answeredCircle.graph.tasks.size := by decide +kernel
  obtain ⟨hdirty, ⟨_, _, _, hcounters⟩, ⟨_, hrecur⟩, _, hreachable⟩ :=
    invalidation_marks_downstream (n := .task 0) c.inRange hpresent
  have closed := (hreachable _ reachable_answeredCircle).2
  refine ⟨by decide +kernel, ?_, ?_, hrecur⟩
  · have hqueue : answeredCircle.graph.Gives (.task 0) (.queue 1) :=
      ⟨by decide +kernel, by decide +kernel⟩
    have htask : answeredCircle.graph.Gives (.queue 1) (.task 1) :=
      ⟨by decide +kernel, by decide +kernel⟩
    have hqueue' : answeredCircle.graph.Gives (.task 1) (.queue 0) :=
      ⟨by decide +kernel, by decide +kernel⟩
    exact (hdirty closed _).mpr (Or.inr ⟨rfl, .tail (.tail (.single hqueue) htask) hqueue'⟩)
  · have hcount := congrArg Counters.invalidations hcounters
    have hbefore : answeredCircle.graph.counters.invalidations = 4 := by decide +kernel
    have hafter : (answeredCircle.graph.invalidate (.task 0)).counters.invalidations = 8 := by
      decide +kernel
    simp only [hbefore, hafter] at hcount
    omega

end Scheduler

end PriorityDonation
