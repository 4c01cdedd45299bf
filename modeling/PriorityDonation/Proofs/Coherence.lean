import PriorityDonation.Proofs.Frames

/-!
# The invariant of the donation graph

A graph is coherent if its records are consistent, its flags sit only on nodes in use through which
priority flows and are closed downstream, and its clean nodes are balanced wherever balance can be
asked for. An edit followed by the marking of the node it makes doubtful keeps a graph coherent,
and so does evaluation.
-/

namespace PriorityDonation.Graph

structure Coherent (bounds : Bounds) (g : Graph) : Prop extends g.Consistent where
  flags (n : Node) : g.dirty n = true → g.conducts n = true ∧ g.InUse n
  closed : g.DirtyClosed g.Feeds (fun _ => False)
  sound : g.SoundBut bounds.lowest (fun _ => False)
  bases (t : Nat) : g.Tracked t → (g.task t).base ∈ bounds

variable {bounds : Bounds} {g h e : Graph} {v : Node}

theorem Edit.base_mem (he : g.Edit bounds e v) {t : Nat} (ht : (g.task t).base ∈ bounds) :
    (e.task t).base ∈ bounds := by
  cases he with
  | drop | join | leave | take =>
    simp only [retie, task_modifyTask, task_modifyQueue]
    split <;> exact ht
  | rebase _ hb =>
    rw [task_modifyTask]
    split
    · exact hb
    · exact ht

/-- Once the doubtful nodes have been marked the flags are closed again. -/
theorem Coherent.alters_closed {doubtful : List Node} (c : g.Coherent bounds)
    (a : g.Alters e doubtful) :
    (e.invalidateAll doubtful).DirtyClosed (e.invalidateAll doubtful).Feeds (fun _ => False) ∧
      ∀ n ∈ doubtful, e.conducts n = true → (e.invalidateAll doubtful).dirty n = true := by
  have ce := a.consistent
  have hbefore : e.DirtyClosed e.Gives (· ∈ doubtful) := by
    intro x y hxy hd
    rw [ce.gives_eq_feeds] at hxy
    rcases a.fate y with ⟨hy, -⟩ | ⟨hy, -⟩ | ⟨hsources, -⟩
    · exact Or.inr hy
    · simp [caches_of_feeds hxy] at hy
    · rw [feeds_iff, hsources, ← feeds_iff] at hxy
      rw [a.dirty] at hd ⊢
      exact Or.inl ((c.closed x y hxy hd).resolve_right id)
  obtain ⟨hclosed, hmarked⟩ := invalidateAll_closed
    (fun x y hxy => present_of_inUse (ce.inUse_of_beneficiary hxy.2))
    (fun n hn _ => present_of_inUse (a.inUse n hn)) hbefore
  refine ⟨?_, hmarked⟩
  rw [(e.sameTies_invalidateAll doubtful).feeds, ← ce.gives_eq_feeds]
  exact hclosed

theorem Coherent.alters_feltDownstream {doubtful : List Node} (c : g.Coherent bounds)
    (a : g.Alters e doubtful) : FeltDownstream bounds.lowest g (e.invalidateAll doubtful) := by
  have ties := e.sameTies_invalidateAll doubtful
  obtain ⟨hclosed, hmarked⟩ := c.alters_closed a
  let touched (n : Node) : Prop :=
    n ∈ doubtful ∧ g.conducts n = true ∨ e.caches n = false ∧ ∀ m, ¬ e.Feeds n m
  have kept {n : Node} (hn : ¬ touched n) : e.sources n = g.sources n ∧
      e.caches n = g.caches n ∧ ∀ floor, e.seed floor n = g.seed floor n := by
    rcases a.fate n with h | h | h
    · exact absurd (Or.inl h) hn
    · exact absurd (Or.inr h) hn
    · exact h
  refine feltDownstream_of_touched touched hclosed ?_ ?_
    (fun n hn => ?_) (fun n hn => ?_) (fun n hn => ?_) ?_
  · exact fun n _ hu => (a.roster.inUse n).mp ((ties.inUse n).mp hu)
  · intro n _ hd
    by_contra hg
    rw [← a.dirty, Bool.not_eq_false] at hg
    simp [e.dirty_invalidateAll_of_dirty doubtful hg] at hd
  · rw [ties.sources, (kept hn).1]
  · rw [ties.seed, (kept hn).2.2]
  · rw [ties.value (e.cached_invalidateAll doubtful n)]
    simp only [value, (kept hn).2.1, (kept hn).2.2, a.cached]
  · rintro n (⟨hn, hc⟩ | ⟨hc, hnone⟩)
    · exact Or.inl (hmarked n hn (a.roster.conducts n ▸ hc))
    · exact Or.inr ⟨fun m hm => hnone m (ties.feeds ▸ hm),
        fun _ => lone_of_not_caches (ties.caches n ▸ hc)⟩

/-- A change and the marking that belongs to it. -/
theorem Coherent.alters {doubtful : List Node} (c : g.Coherent bounds) (a : g.Alters e doubtful)
    (bases : ∀ t, g.Tracked t → (e.task t).base ∈ bounds) :
    (e.invalidateAll doubtful).Coherent bounds := by
  have ce := a.consistent
  have ties := e.sameTies_invalidateAll doubtful
  refine ⟨ce.congr ties, ?_, (c.alters_closed a).1, c.sound.kept (c.alters_feltDownstream a), ?_⟩
  · intro n hd
    rw [ties.conducts, ties.inUse]
    rcases of_dirty_invalidateAll a.inUse (fun x y _ hy => ce.inUse_of_beneficiary hy) hd
      with hd | hn
    · rw [a.dirty] at hd
      rw [a.roster.conducts, a.roster.inUse]
      exact c.flags n hd
    · exact hn
  · intro t ht
    rw [ties.tracked, a.roster.tracked] at ht
    rw [ties.base]
    exact bases t ht

theorem Coherent.edit (c : g.Coherent bounds) (he : g.Edit bounds e v) :
    (e.invalidate v).Coherent bounds :=
  c.alters (he.alters c.toConsistent) fun t ht => he.base_mem (c.bases t ht)

/-- Evaluation of any nodes. -/
theorem Coherent.evaluates {nodes : List Node} {priorities : List Priority}
    (c : g.Coherent bounds) (he : Evaluates bounds.lowest g nodes priorities h) :
    h.Coherent bounds := by
  have ties := he.sameTies
  have flags (n : Node) (hd : g.dirty n = true) : g.conducts n = true := (c.flags n hd).1
  refine ⟨c.congr ties, ?_, he.dirtyClosed flags c.closed, he.soundBut flags c.closed c.sound, ?_⟩
  · intro n hd
    rw [ties.conducts, ties.inUse]
    exact c.flags n (he.of_dirty hd)
  · intro t ht
    rw [ties.base]
    exact c.bases t ((ties.tracked t).mp ht)

theorem feltDownstream_count (g : Graph) (floor : Priority) (f : Counters → Counters) :
    FeltDownstream floor g (g.count f) := by
  have ties := g.sameTies_count f
  refine fun n hu hd => Or.inl ⟨(ties.inUse n).mp hu, g.dirty_count f n ▸ hd, ?_, ?_, ?_⟩
  · exact fun m _ => ties.sources m
  · exact fun m _ => ties.seed floor m
  · exact fun m _ => ties.value (g.cached_count f m)

theorem Coherent.count (c : g.Coherent bounds) (f : Counters → Counters) :
    (g.count f).Coherent bounds := by
  have ties := g.sameTies_count f
  refine ⟨c.congr ties, ?_, ?_, c.sound.kept (g.feltDownstream_count _ f), c.bases⟩
  · intro n hd
    rw [ties.conducts, ties.inUse]
    exact c.flags n (g.dirty_count f n ▸ hd)
  · intro a b hab hd
    rw [ties.feeds] at hab
    rw [dirty_count] at hd ⊢
    exact c.closed a b hab hd

theorem not_inUse_empty (n : Node) : ¬ ({} : Graph).InUse n := by
  cases n with
  | task t => simp [InUse, Tracked, Arena.size]
  | queue q =>
    have hqueue : ({} : Graph).queue q = default := rfl
    simp [InUse, hqueue, default]

theorem coherent_empty (bounds : Bounds) : ({} : Graph).Coherent bounds := by
  have htask (t : Nat) : ({} : Graph).task t = default := rfl
  have hqueue (q : Nat) : ({} : Graph).queue q = default := rfl
  have htracked (t : Nat) : ¬ ({} : Graph).Tracked t := not_inUse_empty (.task t)
  have hdirty (n : Node) : ({} : Graph).dirty n = false := by
    cases n with
    | task t => rfl
    | queue q => rfl
  have rostered : ({} : Graph).Rostered := by
    refine ⟨?_, List.nodup_nil, by simp, List.nodup_nil, by simp [Arena.size]⟩
    intro id t
    simp [lookup?, htracked]
  have tied : ({} : Graph).Tied := by
    refine ⟨?_, ?_, ?_, ?_, ?_, ?_, ?_, ?_⟩
    all_goals simp [htask, hqueue, default, Task.fresh, WaitQueue.fresh]
  refine ⟨⟨rostered, tied⟩, ?_, ?_, ?_, ?_⟩
  · intro n hd
    simp [hdirty] at hd
  · intro a b _ hd
    simp [hdirty] at hd
  · intro n hu
    exact absurd hu (not_inUse_empty n)
  · intro t ht
    exact absurd ht (htracked t)

end PriorityDonation.Graph
