import PriorityDonation.Proofs.Rebuilding

/-!
# What evaluation leaves in the caches

Evaluation answers with the priorities that its nodes show afterwards, and what was clean before
keeps its priority. A node is balanced if it shows the largest of its seed and the priorities of
its sources. Within a circle of donations nothing of the kind can be said; the lemmas speak of
nodes without a circle upstream, and hold on every graph.

While a node is being rebuilt it is clean, although its donors may not be, and it does not show its
priority yet. The nodes in this state are the exceptions that the invariants below allow for.
-/

namespace PriorityDonation.Graph

/-- A node shows the largest of its seed and what its sources show. -/
def Balanced (g : Graph) (floor : Priority) (n : Node) : Prop :=
  g.value floor n = ((g.sources n).map (g.value floor)).foldl max (g.seed floor n)

/-- Clean nodes without a circle upstream are balanced, apart from the nodes left. -/
def SoundBut (g : Graph) (floor : Priority) (left : Node → Prop) : Prop :=
  ∀ n, g.InUse n → ¬ left n → g.dirty n = false → g.AcyclicAbove n → g.Balanced floor n

variable {g h k : Graph} {floor : Priority} {nodes : List Node} {priorities : List Priority}

theorem balanced_of_not_caches {n : Node} (hc : g.caches n = false) : g.Balanced floor n := by
  simp [Balanced, value, hc, sources_of_not_caches hc]

theorem SameTies.balanced {n : Node} (a : SameTies g h) (hn : h.value floor n = g.value floor n)
    (hs : ∀ m ∈ g.sources n, h.value floor m = g.value floor m) (hb : g.Balanced floor n) :
    h.Balanced floor n := by
  unfold Balanced at hb ⊢
  rw [hn, hb, a.sources, a.seed, List.map_congr_left hs]

theorem SameTies.value_of_not_caches {n : Node} (a : SameTies g h) (hc : g.caches n = false) :
    h.value floor n = g.value floor n := by
  simp only [Graph.value, a.caches, hc, a.seed, Bool.false_eq_true, if_false]

theorem AcyclicAbove.not_feeds_self {n : Node} (hn : g.AcyclicAbove n) : ¬ g.Feeds n n :=
  fun hf => hn n .refl (.single hf)

theorem Answered.clean_value {n m : Node} (ha : Answered floor g n h) (hm : g.dirty m = false) :
    h.dirty m = false ∧ h.value floor m = g.value floor m := by
  refine ⟨?_, ha.value m⟩
  by_contra hd
  simp [ha.of_dirty m (by simpa using hd)] at hm

theorem Opened.clean_value {n m : Node} (ho : Opened g n h) (hm : g.dirty m = false) :
    h.dirty m = false ∧ h.value floor m = g.value floor m := by
  have hne : m ≠ n := by
    rintro rfl
    simp [ho.dirty_self] at hm
  refine ⟨?_, ho.value hne⟩
  by_contra hd
  simp [((ho.dirty m).mp (by simpa using hd)).1] at hm

theorem Opened.clean_of_ne {n m : Node} (ho : Opened g n h) (hne : m ≠ n)
    (hm : h.dirty m = false) : g.dirty m = false := by
  by_contra hd
  simp [(ho.dirty m).mpr ⟨by simpa using hd, hne⟩] at hm

theorem value_finish_of_ne (g : Graph) {n m : Node} (priority : Priority) (hm : m ≠ n) :
    (g.finish n priority).value floor m = g.value floor m :=
  (g.sameTies_finish n priority).value ((g.cached_finish n priority m).1 hm)

theorem value_finish_self {n : Node} (priority : Priority) (hc : g.caches n = true) :
    (g.finish n priority).value floor n = priority := by
  have hp := (g.cached_finish n priority n).2 (present_of_caches hc)
  simp only [value, (g.sameTies_finish n priority).caches, hc, if_true, hp]

namespace Opened

variable {left : Node → Prop} {n : Node}

theorem flags (ho : Opened g n h) (flags : ∀ n, g.dirty n = true → g.conducts n = true)
    (m : Node) (hd : h.dirty m = true) : h.conducts m = true :=
  ho.ties.conducts m ▸ flags m ((ho.dirty m).mp hd).1

theorem dirtyClosed (ho : Opened g n h) (closed : g.DirtyClosed g.Feeds left) :
    h.DirtyClosed h.Feeds (fun m => left m ∨ m = n) := by
  intro a b hab hd
  rw [ho.ties.feeds] at hab
  rcases closed a b hab ((ho.dirty a).mp hd).1 with hb | hb
  · by_cases hbn : b = n
    · exact Or.inr (Or.inr hbn)
    · exact Or.inl ((ho.dirty b).mpr ⟨hb, hbn⟩)
  · exact Or.inr (Or.inl hb)

theorem soundBut (ho : Opened g n h) (closed : g.DirtyClosed g.Feeds left)
    (sound : g.SoundBut floor left) : h.SoundBut floor (fun m => left m ∨ m = n) := by
  intro m hu hm hd hacyclic
  have hleft : ¬ left m := fun hl => hm (Or.inl hl)
  have hne : m ≠ n := fun hmn => hm (Or.inr hmn)
  have hclean := ho.clean_of_ne hne hd
  have hb := sound m ((ho.ties.inUse m).mp hu) hleft hclean ((ho.ties.acyclicAbove m).mp hacyclic)
  refine ho.ties.balanced (ho.value hne) (fun a ha => ho.value ?_) hb
  rintro rfl
  rcases closed a m (feeds_iff.mpr ha) ho.dirty_self with hd' | hl
  · simp [hclean] at hd'
  · exact hleft hl

end Opened

namespace Evaluates

theorem sameTies (he : Evaluates floor g nodes priorities h) : SameTies g h := by
  induction he with
  | nil g => exact .refl g
  | known hv _ ih => exact (visit_known hv).2.ties.trans ih
  | rebuild hv _ hp _ ihInner ihRest =>
    have hopen := (visit_rebuild hv).2.ties.trans ihInner
    exact (hopen.trans (sameTies_finish _ _ _)).trans ihRest

/-- What is clean stays clean and shows the same priority. -/
theorem clean_value (he : Evaluates floor g nodes priorities h) {m : Node}
    (hm : g.dirty m = false) : h.dirty m = false ∧ h.value floor m = g.value floor m := by
  induction he with
  | nil g => exact ⟨hm, rfl⟩
  | known hv _ ih =>
    have hfirst := (visit_known hv).2.clean_value hm
    have hlast := ih hfirst.1
    exact ⟨hlast.1, hlast.2.trans hfirst.2⟩
  | @rebuild g h k l n frame rest priority inner priorities hv _ hp _ ihInner ihRest =>
    have ho := (visit_rebuild hv).2
    have hne : m ≠ n := by
      rintro rfl
      simp [ho.dirty_self] at hm
    have hopen : h.dirty m = false ∧ h.value floor m = g.value floor m := ho.clean_value hm
    have hinner := ihInner hopen.1
    have hfinish : (k.finish n priority).value floor m = k.value floor m :=
      value_finish_of_ne k priority hne
    have hlast := ihRest (by rw [dirty_finish]; exact hinner.1)
    exact ⟨hlast.1, by rw [hlast.2, hfinish, hinner.2, hopen.2]⟩

theorem of_dirty (he : Evaluates floor g nodes priorities h) {m : Node}
    (hm : h.dirty m = true) : g.dirty m = true := by
  by_contra hd
  simp [(he.clean_value (by simpa using hd)).1] at hm

/-- Evaluation cleans nothing but what lies upstream of its nodes. -/
theorem upstream_of_cleaned (he : Evaluates floor g nodes priorities h) {m : Node}
    (hm : g.dirty m = true) (hm' : h.dirty m = false) : ∃ n ∈ nodes, g.Upstream m n := by
  induction he with
  | nil g => simp [hm] at hm'
  | @known g h k n rest priority priorities hv _ ih =>
    have ha := (visit_known hv).2
    by_cases hd : h.dirty m = true
    · obtain ⟨n', hn', hup⟩ := ih hd hm'
      exact ⟨n', List.mem_cons_of_mem n hn', ha.ties.upstream ▸ hup⟩
    · have := (ha.cleaned m hm (by simpa using hd)).1
      exact ⟨n, List.mem_cons_self, this ▸ .refl⟩
  | @rebuild g h k l n frame rest priority inner priorities hv hinner hp _ ihInner ihRest =>
    obtain ⟨hframe, ho⟩ := visit_rebuild hv
    by_cases hn : m = n
    · exact ⟨n, List.mem_cons_self, hn ▸ .refl⟩
    have hd : h.dirty m = true := (ho.dirty m).mpr ⟨hm, hn⟩
    by_cases hk : k.dirty m = true
    · have ties := (ho.ties.trans hinner.sameTies).trans (k.sameTies_finish n priority)
      obtain ⟨n', hn', hup⟩ := ihRest (by rwa [dirty_finish]) hm'
      exact ⟨n', List.mem_cons_of_mem n hn', ties.upstream ▸ hup⟩
    · obtain ⟨d, hd, hup⟩ := ihInner hd (by simpa using hk)
      have hfeeds : g.Feeds d n := by
        refine ⟨conducts_of_caches ho.caches, ?_⟩
        simpa [hframe] using hd
      exact ⟨n, List.mem_cons_self, (ho.ties.upstream ▸ hup).tail hfeeds⟩

theorem clean (he : Evaluates floor g nodes priorities h) {n : Node} (hn : n ∈ nodes)
    (hc : g.conducts n = true) : h.dirty n = false := by
  induction he with
  | nil g => simp at hn
  | known hv hrest ih =>
    have ha := (visit_known hv).2
    rcases List.mem_cons.mp hn with rfl | hn
    · exact (hrest.clean_value (ha.clean hc)).1
    · exact ih hn (ha.ties.conducts n ▸ hc)
  | @rebuild g h k l m frame rest priority inner priorities hv hinner hp hrest ihInner ihRest =>
    have ho := (visit_rebuild hv).2
    rcases List.mem_cons.mp hn with rfl | hn
    · refine (hrest.clean_value ?_).1
      rw [dirty_finish]
      exact (hinner.clean_value ho.clean_self).1
    · have ties := (ho.ties.trans hinner.sameTies).trans (k.sameTies_finish m priority)
      exact ihRest hn (ties.conducts n ▸ hc)

theorem clean_of_flags (he : Evaluates floor g nodes priorities h)
    (flags : ∀ n, g.dirty n = true → g.conducts n = true) {n : Node} (hn : n ∈ nodes) :
    h.dirty n = false := by
  by_contra hd
  rw [Bool.not_eq_false] at hd
  simp [he.clean hn (flags n (he.of_dirty hd))] at hd

theorem flags (he : Evaluates floor g nodes priorities h)
    (flags : ∀ n, g.dirty n = true → g.conducts n = true) (n : Node) (hd : h.dirty n = true) :
    h.conducts n = true :=
  he.sameTies.conducts n ▸ flags n (he.of_dirty hd)

/-- The answers are the priorities that the nodes show afterwards. -/
theorem answers (he : Evaluates floor g nodes priorities h) :
    priorities = nodes.map (h.value floor) := by
  induction he with
  | nil g => rfl
  | @known g h k n rest priority priorities hv hrest ih =>
    obtain ⟨hp, ha⟩ := visit_known hv
    have hn : k.value floor n = priority := by
      rw [hp, ← ha.value n]
      by_cases hc : g.conducts n = true
      · exact (hrest.clean_value (ha.clean hc)).2
      · have hblocked : h.caches n = false := by
          by_contra hcaches
          exact hc (conducts_of_caches (ha.ties.caches n ▸ by simpa using hcaches))
        exact hrest.sameTies.value_of_not_caches hblocked
    rw [List.map_cons, ← ih, hn]
  | @rebuild g h k l n frame rest priority inner priorities hv hinner hp hrest ihInner ihRest =>
    have ho := (visit_rebuild hv).2
    have ties := ho.ties.trans hinner.sameTies
    have hclean : (k.finish n priority).dirty n = false := by
      rw [dirty_finish]
      exact (hinner.clean_value ho.clean_self).1
    have hn : l.value floor n = priority := by
      rw [(hrest.clean_value hclean).2]
      exact value_finish_self priority (ties.caches n ▸ ho.caches)
    rw [List.map_cons, ← ihRest, hn]

variable {left : Node → Prop}

/-- A node that is finished joins the others: its donors have been cleaned with it. -/
theorem finish_dirtyClosed {n : Node} {inner : List Priority} (priority : Priority)
    (ho : Opened g n h) (he : Evaluates floor h (g.donors n) inner k)
    (flags : ∀ n, h.dirty n = true → h.conducts n = true)
    (closed : k.DirtyClosed k.Feeds (fun m => left m ∨ m = n)) :
    (k.finish n priority).DirtyClosed (k.finish n priority).Feeds left := by
  intro a b hab hd
  rw [dirty_finish] at hd ⊢
  rw [(k.sameTies_finish n priority).feeds] at hab
  rcases closed a b hab hd with hb | hb | rfl
  · exact Or.inl hb
  · exact Or.inr hb
  · rw [(ho.ties.trans he.sameTies).feeds] at hab
    simp [he.clean_of_flags flags hab.2] at hd

/-- A node that takes priority from the one being finished was dirty with it. If it has been cleaned
on its behalf, it lies upstream of it as well. -/
theorem onCycle_of_clean {n m : Node} {inner : List Priority} (ho : Opened g n h)
    (he : Evaluates floor h (g.donors n) inner k) (closed : g.DirtyClosed g.Feeds left)
    (hf : g.Feeds n m) (hmn : m ≠ n) (hm : ¬ left m) (hd : k.dirty m = false) : g.OnCycle n := by
  have hg : g.dirty m = true := (closed n m hf ho.dirty_self).resolve_right hm
  obtain ⟨d, hd', hup⟩ := he.upstream_of_cleaned ((ho.dirty m).mpr ⟨hg, hmn⟩) hd
  rw [ho.ties.upstream] at hup
  exact .head' hf (hup.tail ⟨conducts_of_caches ho.caches, hd'⟩)

/-- A node that is finished is balanced, and so are the nodes that were evaluated for it. -/
theorem finish_soundBut {n : Node} {inner : List Priority} (ho : Opened g n h)
    (he : Evaluates floor h (g.donors n) inner k) (closed : g.DirtyClosed g.Feeds left)
    (sound : k.SoundBut floor (fun m => left m ∨ m = n)) :
    (k.finish n (inner.foldl max (g.seed floor n))).SoundBut floor left := by
  have ties := ho.ties.trans he.sameTies
  have tiesFinish := k.sameTies_finish n (inner.foldl max (g.seed floor n))
  intro m hu hm hd hacyclic
  rw [dirty_finish] at hd
  rw [tiesFinish.acyclicAbove] at hacyclic
  by_cases hmn : m = n
  · subst hmn
    have hc : k.caches m = true := ties.caches m ▸ ho.caches
    have hsources : k.sources m = g.donors m := by
      rw [ties.sources, sources, if_pos (conducts_of_caches ho.caches)]
    have hvalues : (k.sources m).map
        ((k.finish m (inner.foldl max (g.seed floor m))).value floor) = inner := by
      conv_rhs => rw [he.answers, ← hsources]
      refine List.map_congr_left fun a ha => value_finish_of_ne k _ ?_
      rintro rfl
      exact hacyclic.not_feeds_self (feeds_iff.mpr ha)
    rw [Balanced, tiesFinish.sources, tiesFinish.seed, ties.seed, hvalues, value_finish_self _ hc]
  · have hb := sound m ((tiesFinish.inUse m).mp hu) (fun h => h.elim hm hmn) hd hacyclic
    refine tiesFinish.balanced (value_finish_of_ne k _ hmn) (fun a ha => ?_) hb
    refine value_finish_of_ne k _ ?_
    rintro rfl
    have hfeeds : g.Feeds a m := ties.feeds ▸ feeds_iff.mpr ha
    refine hacyclic a (.single (feeds_iff.mpr ha)) ?_
    rw [OnCycle, ties.feeds]
    exact onCycle_of_clean ho he closed hfeeds hmn hm hd

/-- Evaluation keeps the flags closed. -/
theorem dirtyClosed (he : Evaluates floor g nodes priorities h)
    (flags : ∀ n, g.dirty n = true → g.conducts n = true)
    (closed : g.DirtyClosed g.Feeds left) : h.DirtyClosed h.Feeds left := by
  induction he generalizing left with
  | nil g => exact closed
  | @known g h k n rest priority priorities hv _ ih =>
    have ha := (visit_known hv).2
    have hstep : Evaluates floor g [n] [priority] h := .known hv (.nil h)
    refine ih (hstep.flags flags) fun a b hab hd => ?_
    rw [ha.ties.feeds] at hab
    refine (closed a b hab (ha.of_dirty a hd)).imp_left fun hb => ?_
    by_contra hb'
    obtain ⟨rfl, hc⟩ := ha.cleaned b hb (by simpa using hb')
    simp [caches_of_feeds hab] at hc
  | @rebuild g h k l n frame rest priority inner priorities hv hinner hp hrest ihInner ihRest =>
    obtain ⟨rfl, ho⟩ := visit_rebuild hv
    have hdone := ihInner (ho.flags flags) (ho.dirtyClosed closed)
    have hstep : Evaluates floor g [n] [priority] (k.finish n priority) :=
      .rebuild hv hinner hp (.nil _)
    exact ihRest (hstep.flags flags) (finish_dirtyClosed priority ho hinner (ho.flags flags) hdone)

/-- Evaluation keeps clean nodes balanced. The nodes left are those that are being rebuilt. -/
theorem soundBut (he : Evaluates floor g nodes priorities h)
    (flags : ∀ n, g.dirty n = true → g.conducts n = true)
    (closed : g.DirtyClosed g.Feeds left) (sound : g.SoundBut floor left) :
    h.SoundBut floor left := by
  induction he generalizing left with
  | nil g => exact sound
  | @known g h k n rest priority priorities hv hrest ih =>
    have ha := (visit_known hv).2
    have hstep : Evaluates floor g [n] [priority] h := .known hv (.nil h)
    refine ih (hstep.flags flags) (hstep.dirtyClosed flags closed) fun m hu hm hd hacyclic => ?_
    by_cases hg : g.dirty m = true
    · obtain ⟨rfl, hc⟩ := ha.cleaned m hg hd
      exact balanced_of_not_caches (ha.ties.caches m ▸ hc)
    · have hb := sound m ((ha.ties.inUse m).mp hu) hm (by simpa using hg)
        ((ha.ties.acyclicAbove m).mp hacyclic)
      exact ha.ties.balanced (ha.value m) (fun m' _ => ha.value m') hb
  | @rebuild g h k l n frame rest priority inner priorities hv hinner hp hrest ihInner ihRest =>
    obtain ⟨rfl, ho⟩ := visit_rebuild hv
    have hbalanced := ihInner (ho.flags flags) (ho.dirtyClosed closed) (ho.soundBut closed sound)
    have hstep : Evaluates floor g [n] [priority] (k.finish n priority) :=
      .rebuild hv hinner hp (.nil _)
    refine ihRest (hstep.flags flags) (hstep.dirtyClosed flags closed) ?_
    subst hp
    exact finish_soundBut ho hinner closed hbalanced

end Evaluates

theorem sameTies_evaluate (floor : Priority) (n : Node) (g : Graph) :
    SameTies g (evaluate floor n g).2 := (evaluate_evaluates floor n g).sameTies

theorem sameTies_evaluateAll (floor : Priority) (nodes : List Node) (g : Graph) :
    SameTies g (evaluateAll floor nodes g).2 := (evaluateAll_evaluates floor nodes g).sameTies

end PriorityDonation.Graph
