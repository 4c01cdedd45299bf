import PriorityDonation.Proofs.DonationValues
import PriorityDonation.Proofs.Ledger
import PriorityDonation.Proofs.MarkingOrder

/-!
# What lies upstream decides

Evaluation of a node reads nothing but the nodes upstream of it, so two graphs that record these
alike give the same answer. That holds around circles too, where the answer depends on what the
caches hold and on the order of the walk: the walk is the same one in both graphs.

A change reaches no further than downstream of the node that it makes doubtful. What it changes
there flows into that node, and what it marks lies behind it. A node that does not lie behind keeps
its part upstream, its flag and its cache.
-/

namespace PriorityDonation.Graph

variable {bounds : Bounds} {g h k e : Graph} {floor : Priority} {n m v x : Node} {q t w : Nat}

/-- All that evaluation of a node may read is recorded alike in both graphs. -/
structure SameUpstream (floor : Priority) (x : Node) (g h : Graph) : Prop where
  sources (m : Node) : g.Upstream m x → h.sources m = g.sources m
  caches (m : Node) : g.Upstream m x → h.caches m = g.caches m
  seed (m : Node) : g.Upstream m x → h.seed floor m = g.seed floor m
  dirty (m : Node) : g.Upstream m x → h.dirty m = g.dirty m
  cached (m : Node) : g.Upstream m x → h.cached m = g.cached m

/-- What a visit finds, told by what the graph records of the node. -/
theorem visit_fst (g : Graph) (floor : Priority) (n : Node) : (g.visit floor n).1 =
    if g.caches n then
      if g.dirty n then .rebuild ⟨n, g.sources n, g.seed floor n⟩ else .known (g.cached n)
    else .known (g.seed floor n) := by
  cases n with
  | task t =>
    simp only [visit, caches, dirty, cached, seed, sources, conducts]
    cases (g.task t).held.isEmpty <;> cases (g.task t).dirty <;> rfl
  | queue q =>
    simp only [visit, caches, dirty, cached, seed, sources, conducts]
    by_cases hc : (g.queue q).transfers = true
    · by_cases hd : (g.queue q).dirty = true <;> simp [hc, hd]
    · simp [hc]

/-- A visit cleans its node, unless that is a blocked queue. -/
theorem dirty_visit (g : Graph) (floor : Priority) (n m : Node) :
    (g.visit floor n).2.dirty m = if m = n ∧ g.conducts n = true then false else g.dirty m := by
  have absent (hn : g.dirty n = true) : g.Present n := present_of_dirty hn
  cases n with
  | task t =>
    have settled : (g.modifyTask t Task.settle).dirty m =
        if m = .task t then false else g.dirty m := by
      rw [dirty_modifyTask]
      grind [Task.settle, Present]
    simp only [visit, conducts, and_true]
    grind [dirty_count, dirty]
  | queue q =>
    simp only [visit, conducts]
    grind [dirty_count, dirty_modifyQueue, WaitQueue.settle, dirty, Present]

theorem sameTies_visit (g : Graph) (floor : Priority) (n : Node) :
    SameTies g (g.visit floor n).2 := by
  rcases hv : g.visit floor n with ⟨_ | _, k⟩
  · exact (visit_known hv).2.ties
  · exact (visit_rebuild hv).2.ties

namespace SameUpstream

theorem refl (floor : Priority) (x : Node) (g : Graph) : SameUpstream floor x g g :=
  ⟨fun _ _ => rfl, fun _ _ => rfl, fun _ _ => rfl, fun _ _ => rfl, fun _ _ => rfl⟩

theorem of_sources (sources : ∀ m, g.Upstream m x → h.sources m = g.sources m) (m : Node) :
    h.Upstream m x ↔ g.Upstream m x := by
  have back {m : Node} (hm : h.Upstream m x) : g.Upstream m x :=
    upstream_of_agree (fun n hn => (sources n hn).symm) hm
  exact ⟨back, upstream_of_agree fun n hn => sources n (back hn)⟩

theorem upstream (same : SameUpstream floor x g h) (m : Node) :
    h.Upstream m x ↔ g.Upstream m x := of_sources same.sources m

theorem trans (a : SameUpstream floor x g h) (b : SameUpstream floor x h k) :
    SameUpstream floor x g k := by
  refine ⟨fun m hm => ?_, fun m hm => ?_, fun m hm => ?_, fun m hm => ?_, fun m hm => ?_⟩
  all_goals have hm' := (a.upstream m).mpr hm
  · exact (b.sources m hm').trans (a.sources m hm)
  · exact (b.caches m hm').trans (a.caches m hm)
  · exact (b.seed m hm').trans (a.seed m hm)
  · exact (b.dirty m hm').trans (a.dirty m hm)
  · exact (b.cached m hm').trans (a.cached m hm)

variable (same : SameUpstream floor x g h)
include same

theorem conducts (hm : g.Upstream m x) : h.conducts m = g.conducts m := by
  cases m with
  | task t => rfl
  | queue q => exact same.caches _ hm

/-- Work on both graphs that keeps the ties has to treat flags and caches alike. -/
theorem congr {g' h' : Graph} (ties : SameTies g g') (ties' : SameTies h h')
    (dirty : ∀ m, g.Upstream m x → h'.dirty m = g'.dirty m)
    (cached : ∀ m, g.Upstream m x → h'.cached m = g'.cached m) : SameUpstream floor x g' h' := by
  refine ⟨?_, ?_, ?_, ?_, ?_⟩ <;> rw [ties.upstream] <;> intro m hm
  · rw [ties'.sources, ties.sources, same.sources m hm]
  · rw [ties'.caches, ties.caches, same.caches m hm]
  · rw [ties'.seed, ties.seed, same.seed m hm]
  · exact dirty m hm
  · exact cached m hm

theorem visit (hn : g.Upstream n x) : (h.visit floor n).1 = (g.visit floor n).1 ∧
    SameUpstream floor x (g.visit floor n).2 (h.visit floor n).2 := by
  refine ⟨?_, same.congr (g.sameTies_visit floor n) (h.sameTies_visit floor n) ?_ ?_⟩
  · rw [visit_fst, visit_fst, same.caches n hn, same.dirty n hn, same.cached n hn,
      same.sources n hn, same.seed n hn]
  · intro m hm
    rw [dirty_visit, dirty_visit, same.conducts hn, same.dirty m hm]
  · intro m hm
    rw [cached_visit, cached_visit, same.conducts hn, same.dirty n hn, same.caches n hn,
      same.seed n hn, same.cached m hm]

theorem finish (hn : g.Upstream n x) (hc : g.caches n = true) (priority : Priority) :
    SameUpstream floor x (g.finish n priority) (h.finish n priority) := by
  refine same.congr (g.sameTies_finish n priority) (h.sameTies_finish n priority) ?_ ?_
  · intro m hm
    rw [dirty_finish, dirty_finish, same.dirty m hm]
  · intro m hm
    have hc' : h.caches n = true := (same.caches n hn).trans hc
    by_cases hmn : m = n
    · rw [hmn, (h.cached_finish n priority n).2 (present_of_caches hc'),
        (g.cached_finish n priority n).2 (present_of_caches hc)]
    · rw [(h.cached_finish n priority m).1 hmn, (g.cached_finish n priority m).1 hmn,
        same.cached m hm]

/-- Evaluation of nodes upstream takes the same walk in both graphs. -/
theorem evaluates {nodes : List Node} {priorities others : List Priority} {g' h' : Graph}
    (he : Evaluates floor g nodes priorities g') (he' : Evaluates floor h nodes others h')
    (hn : ∀ n ∈ nodes, g.Upstream n x) :
    others = priorities ∧ SameUpstream floor x g' h' := by
  induction he generalizing h others h' with
  | nil g =>
    cases he'
    exact ⟨rfl, same⟩
  | @known g k g' n rest priority priorities hv _ ih =>
    obtain ⟨hvisit, same'⟩ := same.visit (hn n List.mem_cons_self)
    have ties := g.sameTies_visit floor n
    rw [hv] at hvisit same' ties
    cases he' with
    | known hv' hrest' =>
      rw [hv'] at hvisit same'
      cases hvisit
      obtain ⟨rfl, hlast⟩ := ih same' hrest' fun m hm =>
        ties.upstream ▸ hn m (List.mem_cons_of_mem n hm)
      exact ⟨rfl, hlast⟩
    | rebuild hv' _ _ _ =>
      rw [hv'] at hvisit
      cases hvisit
  | @rebuild g k l g' n frame rest priority inner priorities hv hinner hp _ ihInner ihRest =>
    have hup := hn n List.mem_cons_self
    obtain ⟨hvisit, same'⟩ := same.visit hup
    rw [hv] at hvisit same'
    obtain ⟨rfl, ho⟩ := visit_rebuild hv
    cases he' with
    | known hv' _ =>
      rw [hv'] at hvisit
      cases hvisit
    | rebuild hv' hinner' hp' hrest' =>
      rw [hv'] at hvisit same'
      cases hvisit
      have hdonors : ∀ d ∈ g.donors n, k.Upstream d x := fun d hd =>
        ho.ties.upstream ▸ hup.head ⟨conducts_of_caches ho.caches, hd⟩
      obtain ⟨rfl, same''⟩ := ihInner same' hinner' hdonors
      have ties := ho.ties.trans hinner.sameTies
      subst hp hp'
      have hfinish := same''.finish (ties.upstream ▸ hup) (ties.caches n ▸ ho.caches)
      obtain ⟨rfl, hlast⟩ := ihRest (hfinish _) hrest' fun m hm =>
        (ties.trans (l.sameTies_finish n _)).upstream ▸ hn m (List.mem_cons_of_mem n hm)
      exact ⟨rfl, hlast⟩

theorem evaluate_eq : (evaluate floor x h).1 = (evaluate floor x g).1 := by
  have hall := same.evaluates (evaluate_evaluates floor x g) (evaluate_evaluates floor x h)
  exact (List.cons.inj (hall (by simpa using .refl)).1).1

end SameUpstream

/-- Nothing becomes dirty that does not lie downstream of one of the nodes. -/
theorem downstream_of_dirty_invalidateAll {nodes : List Node}
    (hd : (g.invalidateAll nodes).dirty m = true) : g.dirty m = true ∨
      ∃ n ∈ nodes, g.conducts n = true ∧ Relation.ReflTransGen g.Gives n m := by
  induction nodes generalizing g with
  | nil => exact Or.inl hd
  | cons n rest ih =>
    have ties := g.sameTies_invalidate n
    rcases ih hd with hd | ⟨n', hn', hc, hpath⟩
    · obtain ⟨marked, looks, hm⟩ := g.exists_marks n
      exact (hm.downstream hd).imp_right fun h => ⟨n, List.mem_cons_self, h⟩
    · rw [ties.conducts] at hc
      rw [ties.gives] at hpath
      exact Or.inr ⟨n', List.mem_cons_of_mem n hn', hc, hpath⟩

/-- A change that makes nothing upstream of a node doubtful, nor touches the node itself. -/
theorem Alters.sameUpstream {doubtful : List Node} (a : g.Alters e doubtful)
    (far : ∀ v ∈ doubtful, g.conducts v = true → ¬ g.Upstream v x)
    (self : e.sources x = g.sources x ∧ e.caches x = g.caches x ∧
      ∀ floor, e.seed floor x = g.seed floor x) (floor : Priority) :
    SameUpstream floor x g (e.invalidateAll doubtful) := by
  have ties := e.sameTies_invalidateAll doubtful
  have kept {m : Node} (hm : g.Upstream m x) : e.sources m = g.sources m ∧
      e.caches m = g.caches m ∧ ∀ floor, e.seed floor m = g.seed floor m := by
    induction hm using Relation.ReflTransGen.head_induction_on with
    | refl => exact self
    | @head m b hf hb ih =>
      rcases a.fate m with ⟨hm, hc⟩ | ⟨-, hnone⟩ | hkept
      · exact absurd (.head hf hb) (far m hm hc)
      · exact absurd (feeds_iff.mpr (ih.1 ▸ feeds_iff.mp hf)) (hnone b)
      · exact hkept
  have hup (m : Node) : e.Upstream m x ↔ g.Upstream m x :=
    SameUpstream.of_sources (fun m hm => (kept hm).1) m
  refine ⟨fun m hm => ?_, fun m hm => ?_, fun m hm => ?_, fun m hm => ?_, fun m _ => ?_⟩
  · rw [ties.sources, (kept hm).1]
  · rw [ties.caches, (kept hm).2.1]
  · rw [ties.seed, (kept hm).2.2]
  · rw [Bool.eq_iff_iff, ← a.dirty]
    refine ⟨fun hd => ?_, e.dirty_invalidateAll_of_dirty doubtful⟩
    rcases downstream_of_dirty_invalidateAll hd with hd | ⟨v, hv, hc, hpath⟩
    · exact hd
    · rw [a.consistent.gives_eq_feeds] at hpath
      rw [a.roster.conducts] at hc
      exact absurd ((hup v).mp (hpath.trans ((hup m).mpr hm))) (far v hv hc)
  · rw [e.cached_invalidateAll, a.cached]

/-- A node without ties that appears or disappears. -/
theorem Isolates.sameUpstream {y : Node} (i : Isolates floor g y h) (c : g.Consistent)
    (hx : x ≠ y) : SameUpstream floor x g h := by
  have other {m : Node} (hm : g.Upstream m x) : m ≠ y := by
    rintro rfl
    rcases Relation.ReflTransGen.cases_head hm with rfl | ⟨b, hf, _⟩
    · exact hx rfl
    · rw [← c.gives_eq_feeds] at hf
      simp [Gives, i.beneficiaries] at hf
  refine ⟨fun m hm => ?_, fun m hm => ?_, fun m hm => ?_, fun m hm => ?_, fun m hm => ?_⟩
  · exact (i.other (other hm)).2.2.1
  · exact (i.read (other hm)).2.2.2.1
  · exact (i.other (other hm)).2.2.2.1
  · exact (i.other (other hm)).1
  · exact (i.read (other hm)).2.1

/-- The task is tracked in the same slot, and evaluation of it has the same to read. -/
structure LeavesAlone (floor : Priority) (t : Nat) (g h : Graph) : Prop
    extends SameUpstream floor (.task t) g h where
  lookup? (id : TaskId) : g.lookup? id = some t → h.lookup? id = some t

namespace LeavesAlone

theorem refl (floor : Priority) (t : Nat) (g : Graph) : LeavesAlone floor t g g :=
  ⟨.refl floor _ g, fun _ => id⟩

theorem trans (a : LeavesAlone floor t g h) (b : LeavesAlone floor t h k) :
    LeavesAlone floor t g k :=
  ⟨a.toSameUpstream.trans b.toSameUpstream, fun id ht => b.lookup? id (a.lookup? id ht)⟩

theorem above (a : LeavesAlone floor t g h) (c : g.Consistent) (ch : h.Consistent) (w : Nat) :
    h.Above w t ↔ g.Above w t := by
  constructor
  · exact fun hw => above_of_upstream c ((a.upstream _).mp (upstream_of_above ch hw))
  · exact fun hw => above_of_upstream ch ((a.upstream _).mpr (upstream_of_above c hw))

end LeavesAlone

/-- Nothing flows from a queue into a task unless it flows from the holder of the queue. -/
theorem not_upstream_queue (c : g.Consistent)
    (far : ∀ w, (g.queue q).holder = some w → ¬ g.Above w t) :
    ¬ g.Upstream (.queue q) (.task t) := by
  intro hup
  obtain heq | ⟨b, hf, hb⟩ := Relation.ReflTransGen.cases_head hup
  · cases heq
  · rw [← c.gives_eq_feeds] at hf
    obtain ⟨w, hw, rfl⟩ := List.mem_map.mp hf.2
    exact far w (Option.mem_toList.mp hw) (above_of_upstream c hb)

section Parts

variable (c : g.Coherent bounds) (floor : Priority)
include c

theorem Edit.leavesAlone (he : g.Edit bounds e v)
    (far : g.conducts v = true → ¬ g.Upstream v (.task t)) :
    LeavesAlone floor t g (e.invalidate v) := by
  have hv : Node.task t ≠ v := by
    rintro rfl
    exact far rfl .refl
  have self : e.sources (.task t) = g.sources (.task t) ∧ e.caches (.task t) = g.caches (.task t) ∧
      ∀ floor, e.seed floor (.task t) = g.seed floor (.task t) := by
    refine ⟨?_, ?_, fun _ => he.base hv⟩
    · simp only [sources, conducts, donors, he.held hv]
    · simp only [caches, he.held hv]
  refine ⟨(he.alters c.toConsistent).sameUpstream (by simpa using far) self floor, fun id ht => ?_⟩
  rw [(e.sameTies_invalidate v).lookup?, he.sameRoster.lookup?, ht]

/-- The part upstream of the task stays the same, so what is far from it stays far. -/
theorem EditsAt.leavesAlone {doubtful : Node → Prop} (hs : g.EditsAt bounds doubtful h)
    (far : ∀ v, doubtful v → g.conducts v = true → ¬ g.Upstream v (.task t)) :
    LeavesAlone floor t g h := by
  suffices LeavesAlone floor t g h ∧ h.Coherent bounds from this.1
  induction hs with
  | refl => exact ⟨.refl floor t g, c⟩
  | @tail k _ hfirst hlast ih =>
    obtain ⟨e, v, hv, he, rfl⟩ := hlast
    obtain ⟨a, ck⟩ := ih
    have farther (hc : k.conducts v = true) : ¬ k.Upstream v (.task t) := by
      rw [EditsAt.edits hfirst |>.sameRoster.conducts] at hc
      rw [a.upstream]
      exact far v hv hc
    exact ⟨a.trans (he.leavesAlone ck floor farther), ck.edit he⟩

theorem attach_leavesAlone (id : TaskId) (base : Priority) (ht : g.Tracked t) :
    LeavesAlone floor t g (attach id base g).2 := by
  cases hid : g.lookup? id with
  | some slot =>
    rw [attach_of_some _ hid]
    exact .refl floor t g
  | none =>
    have a := attach_attached c.toRostered base hid
    have hne : Node.task t ≠ .task (attach id base g).1 := by
      rintro heq
      cases heq
      exact a.not_tracked ht
    refine ⟨(a.isolates c.toConsistent floor).sameUpstream c.toConsistent hne, fun id' ht' => ?_⟩
    rw [a.lookup?, if_neg, ht']
    rintro rfl
    simp [hid] at ht'

theorem createQueue_leavesAlone (transfers : Bool) :
    LeavesAlone floor t g (createQueue transfers floor g).2 := by
  have a := createQueue_created c.toRostered transfers floor
  refine ⟨(a.isolates c.toConsistent).sameUpstream c.toConsistent (by simp), fun id ht => ?_⟩
  rw [lookup?, a.index]
  exact ht

theorem discard_leavesAlone (hq : (g.queue q).live = true) (hholder : (g.queue q).holder = none)
    (hwaiters : (g.queue q).waiters = []) : LeavesAlone floor t g (g.discard q) := by
  have i := isolates_discard hq hholder hwaiters floor
  exact ⟨i.sameUpstream c.toConsistent (by simp), fun _ => id⟩

/-- A task that is not above another one is not one to take priority from. -/
theorem retire_leavesAlone (hw : g.Tracked w) (far : ¬ g.Above w t) :
    LeavesAlone bounds.lowest t g (retire w g).2 := by
  have hne : t ≠ w := by
    rintro rfl
    exact far .refl
  have htask : (g.cutOff w).task t = g.task t := by rw [task_cutOff hw, if_neg hne]
  have hsevered : SameUpstream bounds.lowest (.task t) g (g.severed w) := by
    refine (alters_cutOff c.toConsistent hw).sameUpstream ?_ ?_ bounds.lowest
    · intro v hv hc hup
      obtain ⟨q, hq, rfl⟩ := List.mem_map.mp hv
      have hf : g.Feeds (.task w) (.queue q) := by
        rw [← c.gives_eq_feeds]
        exact ⟨hc, hv⟩
      exact far (above_of_upstream c.toConsistent (.head hf hup))
    · simp only [sources, conducts, caches, seed, donors, htask, implies_true, and_self]
  have i := isolates_retire c hw
  refine ⟨hsevered.trans (i.sameUpstream (c.severed hw).toConsistent ?_), fun id ht => ?_⟩
  · simpa using hne
  · have hid : id ≠ (g.task w).id := by
      rintro rfl
      have hw' := (c.lookup_iff _ w).mpr ⟨hw, rfl⟩
      rw [ht] at hw'
      exact hne (Option.some.inj hw')
    rw [retire_severed, lookup?_dismiss, if_neg hid, (g.sameTies_severed w).lookup?,
      (sameRoster_cutOff c.toConsistent hw).lookup?, ht]

end Parts

end PriorityDonation.Graph
