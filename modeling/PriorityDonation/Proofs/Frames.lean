import PriorityDonation.Proofs.Caches
import PriorityDonation.Proofs.Consistency

/-!
# What an edit leaves alone

A change is felt downstream only. A property that a node has by what lies upstream of it stays with
the node if whatever is upstream has kept its sources and its priority, and the closed flags tell
which nodes these are: a clean node has no dirty node upstream, so marking the changed nodes rules
out all that depend on them. The argument compares the parts of the two graphs upstream of a clean
node; circles in other parts, before the change or after it, play no role.
-/

namespace PriorityDonation.Graph

variable {bounds : Bounds} {g h e : Graph} {floor : Priority} {v n m : Node}

theorem DirtyClosed.upstream (closed : g.DirtyClosed g.Feeds (fun _ => False))
    (hup : g.Upstream n m) (hn : g.dirty n = true) : g.dirty m = true := by
  induction hup with
  | refl => exact hn
  | tail _ hf ih => exact (closed _ _ hf ih).resolve_right id

section Agree

variable (agree : ∀ n, h.Upstream n m → h.sources n = g.sources n)
include agree

/-- Upstream of a node that has kept its upstream part, the old flows are flows still. -/
theorem transGen_of_agree {a b : Node} (hab : Relation.TransGen g.Feeds a b)
    (hb : h.Upstream b m) : Relation.TransGen h.Feeds a b := by
  induction hab using Relation.TransGen.head_induction_on with
  | single hf => exact .single (feeds_iff.mpr (agree b hb ▸ feeds_iff.mp hf))
  | @head a c hf _ ih =>
    have hc : h.Upstream c m := ih.to_reflTransGen.trans hb
    exact .head (feeds_iff.mpr (agree c hc ▸ feeds_iff.mp hf)) ih

theorem upstream_of_agree {u : Node} (hu : g.Upstream u m) : h.Upstream u m := by
  rcases Relation.reflTransGen_iff_eq_or_transGen.mp hu with rfl | hu
  · exact .refl
  · exact (transGen_of_agree agree hu .refl).to_reflTransGen

theorem acyclicAbove_of_agree (hm : h.AcyclicAbove m) : g.AcyclicAbove m := by
  intro u hu hcycle
  have hup := upstream_of_agree agree hu
  exact hm u hup (transGen_of_agree agree hcycle hup)

end Agree

/-- Everything upstream of a node, which both graphs record alike. -/
structure SameAbove (g h : Graph) (floor : Priority) (n : Node) : Prop where
  sources (m : Node) : h.Upstream m n → h.sources m = g.sources m
  seed (m : Node) : h.Upstream m n → h.seed floor m = g.seed floor m
  value (m : Node) : h.Upstream m n → h.value floor m = g.value floor m

/-- A node that takes priority from nobody and shows what it has by itself. -/
def Lone (g : Graph) (floor : Priority) (n : Node) : Prop :=
  g.sources n = [] ∧ g.value floor n = g.seed floor n

/-- A change that is felt downstream only: what is clean afterwards was clean before and has kept
all that lies upstream of it, unless nothing does. -/
def FeltDownstream (floor : Priority) (g h : Graph) : Prop :=
  ∀ n, h.InUse n → h.dirty n = false →
    (g.InUse n ∧ g.dirty n = false ∧ SameAbove g h floor n) ∨ h.Lone floor n

/-- The clean nodes in use have a property. -/
def CleanNodes (g : Graph) (P : Graph → Node → Prop) : Prop :=
  ∀ n, g.InUse n → g.dirty n = false → P g n

/-- A property that a node has by what lies upstream of it, and that comes for free where nothing
does. -/
structure ReadsUpstream (floor : Priority) (P : Graph → Node → Prop) : Prop where
  congr {g h : Graph} {n : Node} : SameAbove g h floor n → P g n → P h n
  lone {g : Graph} {n : Node} : g.Lone floor n → P g n

/-- Clean nodes keep such a property through every change that is felt downstream only. -/
theorem ReadsUpstream.kept {P : Graph → Node → Prop} (reads : ReadsUpstream floor P)
    (felt : FeltDownstream floor g h) (hg : g.CleanNodes P) : h.CleanNodes P := by
  intro n hu hd
  rcases felt n hu hd with ⟨hu', hd', same⟩ | lone
  · exact reads.congr same (hg n hu' hd')
  · exact reads.lone lone

theorem ReadsUpstream.and {P Q : Graph → Node → Prop} (readsP : ReadsUpstream floor P)
    (readsQ : ReadsUpstream floor Q) : ReadsUpstream floor fun g n => P g n ∧ Q g n where
  congr same hn := ⟨readsP.congr same hn.1, readsQ.congr same hn.2⟩
  lone hn := ⟨readsP.lone hn, readsQ.lone hn⟩

theorem lone_of_not_caches (hc : g.caches n = false) : g.Lone floor n := by
  refine ⟨sources_of_not_caches hc, ?_⟩
  simp only [value, hc, Bool.false_eq_true, if_false]

theorem Lone.balanced (hn : g.Lone floor n) : g.Balanced floor n := by
  rw [Balanced, hn.1, hn.2]
  rfl

theorem SameAbove.balanced (same : SameAbove g h floor n) (hb : g.Balanced floor n) :
    h.Balanced floor n := by
  have hvalues : (h.sources n).map (h.value floor) = (g.sources n).map (g.value floor) := by
    rw [same.sources n .refl]
    refine List.map_congr_left fun m hm => same.value m (.single ?_)
    exact feeds_iff.mpr (same.sources n .refl ▸ hm)
  rw [Balanced, same.value n .refl, hvalues, same.seed n .refl]
  exact hb

theorem readsUpstream_balanced (floor : Priority) :
    ReadsUpstream floor fun g n => g.AcyclicAbove n → g.Balanced floor n where
  congr same hb hacyclic := same.balanced (hb (acyclicAbove_of_agree same.sources hacyclic))
  lone hn _ := hn.balanced

theorem soundBut_iff : g.SoundBut floor (fun _ => False) ↔
    g.CleanNodes fun g n => g.AcyclicAbove n → g.Balanced floor n :=
  ⟨fun sound n hu hd => sound n hu id hd, fun clean n hu _ hd => clean n hu hd⟩

theorem SoundBut.kept (sound : g.SoundBut floor (fun _ => False))
    (felt : FeltDownstream floor g h) : h.SoundBut floor (fun _ => False) :=
  soundBut_iff.mpr ((readsUpstream_balanced floor).kept felt (soundBut_iff.mp sound))

/-- A change is felt downstream only when each touched node is dirty afterwards, or feeds nobody
and is lone itself. -/
theorem feltDownstream_of_touched (touched : Node → Prop)
    (closed : h.DirtyClosed h.Feeds (fun _ => False))
    (inUse : ∀ n, ¬ touched n → h.InUse n → g.InUse n)
    (clean : ∀ n, ¬ touched n → h.dirty n = false → g.dirty n = false)
    (sources : ∀ n, ¬ touched n → h.sources n = g.sources n)
    (seed : ∀ n, ¬ touched n → h.seed floor n = g.seed floor n)
    (value : ∀ n, ¬ touched n → h.value floor n = g.value floor n)
    (marked : ∀ n, touched n → h.dirty n = true ∨
      (∀ m, ¬ h.Feeds n m) ∧ (h.InUse n → h.Lone floor n)) :
    FeltDownstream floor g h := by
  intro m hu hd
  by_cases hm : touched m
  · rcases marked m hm with hdirty | ⟨_, lone⟩
    · simp [hd] at hdirty
    · exact Or.inr (lone hu)
  have untouched : ∀ n, h.Upstream n m → ¬ touched n := by
    intro n hup hn
    rcases marked n hn with hdirty | ⟨hnone, _⟩
    · simp [closed.upstream hup hdirty] at hd
    · rcases Relation.ReflTransGen.cases_head hup with rfl | ⟨b, hf, _⟩
      · exact hm hn
      · exact hnone b hf
  refine Or.inl ⟨inUse m hm hu, clean m hm hd, ?_, ?_, ?_⟩
  · exact fun n hn => sources n (untouched n hn)
  · exact fun n hn => seed n (untouched n hn)
  · exact fun n hn => value n (untouched n hn)

/-- Apart from the doubtful nodes, the second graph differs from the first only at nodes through
which nothing passes on. -/
structure Alters (g e : Graph) (doubtful : List Node) : Prop where
  consistent : e.Consistent
  roster : SameRoster g e
  dirty (n : Node) : e.dirty n = g.dirty n
  cached (n : Node) : e.cached n = g.cached n
  inUse : ∀ n ∈ doubtful, e.InUse n
  fate (n : Node) : n ∈ doubtful ∧ g.conducts n = true ∨
    (e.caches n = false ∧ ∀ m, ¬ e.Feeds n m) ∨
    e.sources n = g.sources n ∧ e.caches n = g.caches n ∧
      ∀ floor, e.seed floor n = g.seed floor n

namespace Edit

theorem dirty (he : g.Edit bounds e v) (n : Node) : e.dirty n = g.dirty n := by
  cases he with
  | drop | join | leave | take =>
    refine g.dirty_retie _ _ ?_ ?_ n <;> exact fun _ => rfl
  | @rebase t base =>
    exact g.dirty_modifyTask_of_eq t (f := (·.withBase base)) (fun _ => rfl) n

theorem cached (he : g.Edit bounds e v) (n : Node) : e.cached n = g.cached n := by
  cases he with
  | drop | join | leave | take =>
    refine g.cached_retie _ _ ?_ ?_ n <;> exact fun _ => rfl
  | @rebase t base =>
    exact g.cached_modifyTask_of_eq t (f := (·.withBase base)) (fun _ => rfl) n

theorem held (he : g.Edit bounds e v) {t : Nat} (hv : .task t ≠ v) :
    (e.task t).held = (g.task t).held := by
  cases he <;> grind [retie, task_modifyTask, task_modifyQueue, Task.await, Task.leave]

theorem waiters (he : g.Edit bounds e v) {q : Nat} (hv : .queue q ≠ v) :
    (e.queue q).waiters = (g.queue q).waiters := by
  cases he <;> grind [retie, queue_modifyTask, queue_modifyQueue, WaitQueue.withHolder]

theorem base (he : g.Edit bounds e v) {t : Nat} (hv : .task t ≠ v) :
    (e.task t).base = (g.task t).base := by
  cases he <;> grind [retie, task_modifyTask, task_modifyQueue, Task.await, Task.leave]

theorem inUse (c : g.Consistent) (he : g.Edit bounds e v) : e.InUse v := by
  refine (he.sameRoster.inUse v).mpr ?_
  cases he with
  | @drop q t hq => exact (c.held_inUse q t ((c.holder_iff q t).mp hq)).1
  | join hl => exact hl
  | @leave q t hw => exact (c.awaiting_inUse q t ((c.waiter_iff q t).mp hw)).2
  | take _ ht => exact ht
  | rebase ht => exact ht

/-- A queue that does not transfer has no sources, so that nothing at it is doubtful. -/
theorem alters (c : g.Consistent) (he : g.Edit bounds e v) : g.Alters e [v] where
  consistent := he.consistent c
  roster := he.sameRoster
  dirty := he.dirty
  cached := he.cached
  inUse n hn := List.mem_singleton.mp hn ▸ he.inUse c
  fate n := by
    have hconducts := he.sameRoster.conducts n
    by_cases hn : n = v
    · by_cases hc : g.conducts n = true
      · exact Or.inl ⟨List.mem_singleton.mpr hn, hc⟩
      · cases n with
        | task t => exact absurd rfl hc
        | queue q =>
          refine Or.inr (Or.inr ⟨?_, hconducts, fun _ => rfl⟩)
          simp only [sources, hconducts, hc, Bool.false_eq_true, if_false]
    · refine Or.inr (Or.inr ?_)
      cases n with
      | task t =>
        refine ⟨?_, ?_, fun _ => he.base hn⟩
        · simp only [sources, hconducts, donors, he.held hn]
        · simp only [caches, he.held hn]
      | queue q =>
        refine ⟨?_, hconducts, fun _ => rfl⟩
        simp only [sources, hconducts, donors, he.waiters hn]

end Edit

end PriorityDonation.Graph
