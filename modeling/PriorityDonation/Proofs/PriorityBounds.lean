import Mathlib.Data.Set.Finite.Lemmas
import PriorityDonation.Proofs.DonationValues
import PriorityDonation.Proofs.Identities

/-!
# Bounds of effective priorities

Around a circle the equations of priority donation may have many solutions, and what is shown there
depends on the order in which the nodes were visited. Yet no clean node ever shows less than its own
seed, and what it shows beyond the floor is the base priority of some task upstream of it. This is a
property of what lies upstream, so it is lost with the donor at the latest, and a priority cannot
outlast the task that it came from.
-/

namespace PriorityDonation

namespace Graph

/-- A node shows no less than its seed, and no more than the floor unless a task upstream of it has
that base priority. -/
structure Grounded (floor : Priority) (g : Graph) (n : Node) : Prop where
  seed_le : g.seed floor n ≤ g.value floor n
  donor : g.value floor n = floor ∨
    ∃ t, g.Upstream (.task t) n ∧ (g.task t).base = g.value floor n

/-- The tasks that wait on a queue, whether it transfers or not, and the tasks above them. -/
def Behind (g : Graph) (q w : Nat) : Prop := ∃ w' ∈ (g.queue q).waiters, g.Above w w'

variable {bounds : Bounds} {g h k : Graph} {floor : Priority} {n : Node} {q t : Nat}

theorem grounded_of_value (hn : g.value floor n = g.seed floor n) : g.Grounded floor n := by
  refine ⟨hn ▸ Int32.le_refl _, ?_⟩
  cases n with
  | task t => exact Or.inr ⟨t, .refl, hn.symm⟩
  | queue q => exact Or.inl hn

theorem Grounded.congr (hg : g.Grounded floor n) (same : SameAbove g h floor n) :
    h.Grounded floor n := by
  have hvalue := same.value n .refl
  refine ⟨?_, ?_⟩
  · rw [same.seed n .refl, hvalue]
    exact hg.seed_le
  · rw [hvalue]
    refine hg.donor.imp_right fun ⟨t, hup, hbase⟩ => ?_
    have hup' := upstream_of_agree same.sources hup
    exact ⟨t, hup', (same.seed (.task t) hup').trans hbase⟩

theorem readsUpstream_grounded (floor : Priority) : ReadsUpstream floor (Grounded floor) where
  congr same hg := hg.congr same
  lone hn := grounded_of_value hn.2

theorem SameTies.grounded (a : SameTies g h) (hn : h.value floor n = g.value floor n)
    (hg : g.Grounded floor n) : h.Grounded floor n := by
  refine ⟨?_, ?_⟩
  · rw [a.seed, hn]
    exact hg.seed_le
  · simp only [hn, a.upstream, a.base]
    exact hg.donor

/-- A node that is finished with the largest of its seed and what its donors show. -/
theorem grounded_finish {inner : List Priority} (hc : g.caches n = true)
    (he : inner = (g.donors n).map (g.value floor))
    (donors : ∀ d ∈ g.donors n, g.Grounded floor d) :
    (g.finish n (inner.foldl max (g.seed floor n))).Grounded floor n := by
  have ties := g.sameTies_finish n (inner.foldl max (g.seed floor n))
  have hvalue : (g.finish n (inner.foldl max (g.seed floor n))).value floor n =
      inner.foldl max (g.seed floor n) := value_finish_self _ hc
  rcases foldl_max_mem inner (g.seed floor n) with hseed | hinner
  · exact grounded_of_value (by rw [hvalue, ties.seed, hseed])
  refine ⟨?_, ?_⟩
  · rw [hvalue, ties.seed]
    exact (le_foldl_max inner _).1
  · rw [he] at hinner
    obtain ⟨d, hd, hshown⟩ := List.mem_map.mp hinner
    simp only [hvalue, ties.upstream, ties.base]
    rw [he, ← hshown]
    refine (donors d hd).donor.imp_right fun ⟨t, hup, hbase⟩ => ⟨t, ?_, hbase⟩
    exact hup.tail ⟨conducts_of_caches hc, hd⟩

theorem grounded_opened {frame : Frame} (hv : g.visit floor n = (.rebuild frame, h))
    (hg : g.CleanNodes (Grounded floor)) : h.CleanNodes (Grounded floor) := by
  have ho := (visit_rebuild hv).2
  intro m hu hd
  by_cases hm : m = n
  · subst hm
    exact grounded_of_value ((value_opened hv).trans (ho.ties.seed floor m).symm)
  · have hclean := ho.clean_of_ne hm hd
    exact ho.ties.grounded (ho.value hm) (hg m ((ho.ties.inUse m).mp hu) hclean)

/-- A node that has just been opened shows its seed, so that no node is ever an exception. -/
theorem Evaluates.grounded {nodes : List Node} {priorities : List Priority} (c : g.Consistent)
    (he : Evaluates floor g nodes priorities h)
    (flags : ∀ n, g.dirty n = true → g.conducts n = true) (hg : g.CleanNodes (Grounded floor)) :
    h.CleanNodes (Grounded floor) := by
  induction he with
  | nil g => exact hg
  | @known g h k n rest priority priorities hv _ ih =>
    have ha := (visit_known hv).2
    have hstep : Evaluates floor g [n] [priority] h := .known hv (.nil h)
    refine ih (c.congr ha.ties) (hstep.flags flags) fun m hu hd => ?_
    by_cases hm : g.dirty m = true
    · obtain ⟨rfl, hc⟩ := ha.cleaned m hm hd
      exact grounded_of_value (lone_of_not_caches (ha.ties.caches m ▸ hc)).2
    · exact ha.ties.grounded (ha.value m) (hg m ((ha.ties.inUse m).mp hu) (by simpa using hm))
  | @rebuild g h k l n frame rest priority inner priorities hv hinner hp _ ihInner ihRest =>
    obtain ⟨rfl, ho⟩ := visit_rebuild hv
    have hk := ihInner (c.congr ho.ties) (ho.flags flags) (grounded_opened hv hg)
    have hstep : Evaluates floor g [n] [priority] (k.finish n priority) :=
      .rebuild hv hinner hp (.nil _)
    have ties := ho.ties.trans hinner.sameTies
    have tiesFinish := k.sameTies_finish n priority
    refine ihRest (c.congr hstep.sameTies) (hstep.flags flags) fun m hu hd => ?_
    rw [dirty_finish] at hd
    by_cases hm : m = n
    · subst hm hp
      have hdonors := ties.donors m
      rw [← ties.seed floor m]
      refine grounded_finish (ties.caches m ▸ ho.caches) (hdonors ▸ hinner.answers) fun d hd' => ?_
      refine hk d ((c.congr ties).inUse_of_donor hd') ?_
      exact hinner.clean_of_flags (ho.flags flags) (hdonors ▸ hd')
    · exact tiesFinish.grounded (value_finish_of_ne k _ hm) (hk m ((tiesFinish.inUse m).mp hu) hd)

/-- What evaluation answers is grounded in the graph that it began with. -/
theorem Evaluates.bounded {priority : Priority} (c : g.Coherent bounds)
    (hg : g.CleanNodes (Grounded bounds.lowest))
    (he : Evaluates bounds.lowest g [n] [priority] h) (hn : g.InUse n) :
    g.seed bounds.lowest n ≤ priority ∧
      (priority = bounds.lowest ∨ ∃ t, g.Upstream (.task t) n ∧ (g.task t).base = priority) := by
  have flags (m : Node) (hd : g.dirty m = true) : g.conducts m = true := (c.flags m hd).1
  have ties := he.sameTies
  have hclean := he.clean_of_flags flags (List.mem_singleton.mpr rfl)
  have grounded := he.grounded c.toConsistent flags hg n ((ties.inUse n).mpr hn) hclean
  obtain ⟨hseed, hdonor⟩ := grounded
  rw [← he.priority_eq, ties.seed] at hseed
  rw [← he.priority_eq, ties.upstream] at hdonor
  simp only [ties.base] at hdonor
  exact ⟨hseed, hdonor⟩

theorem exists_largestBase {part : Nat → Prop} (inUse : ∀ w, part w → g.Tracked w)
    (nonempty : ∃ w, part w) : ∃ largest, g.LargestBase part largest := by
  have hfinite : {w | part w}.Finite :=
    (Set.finite_Iio g.tasks.size).subset fun w hw => (inUse w hw).1
  obtain ⟨w, hw, hmax⟩ := Set.exists_max_image _ (fun w => (g.task w).base.toInt) hfinite nonempty
  exact ⟨_, ⟨w, hw, rfl⟩, fun w' hw' => Int32.le_iff_toInt_le.mpr (hmax w' hw')⟩

section Largest

variable {part : Nat → Prop} {priority largest : Priority} (c : g.Coherent bounds)
  (inUse : ∀ w, part w → g.Tracked w) (hl : g.LargestBase part largest)
include c inUse hl

theorem LargestBase.mem : largest ∈ bounds := by
  obtain ⟨w, hw, rfl⟩ := hl.1
  exact c.bases w (inUse w hw)

theorem LargestBase.le_of_donor
    (donor : priority = bounds.lowest ∨ ∃ w, part w ∧ (g.task w).base = priority) :
    priority ≤ largest := by
  rcases donor with rfl | ⟨w, hw, rfl⟩
  · exact (hl.mem c inUse).1
  · exact hl.2 w hw

end Largest

section Above

variable (c : g.Consistent) {w : Nat}
include c

theorem tracked_of_behind : g.Behind q w → g.Tracked w :=
  fun ⟨_, hw', habove⟩ => tracked_of_above c (c.tracked_of_waiter hw') habove

/-- What flows into a queue comes from its waiters. -/
theorem behind_of_upstream (h : g.Upstream (.task w) (.queue q)) : g.Behind q w := by
  rcases Relation.reflTransGen_iff_eq_or_transGen.mp h with heq | htrans
  · cases heq
  · exact (donates_of_transGen c htrans).2

end Above

end Graph

namespace Scheduler

open PriorityDonation.Graph Bounds

variable {s : Scheduler} {task : TaskId}

/-- The base priority that a task has, or would get on its first mention. -/
def current (s : Scheduler) (task : TaskId) : Priority :=
  (s.graph.base? task).getD s.bounds.initial

/-- An operation moves a base priority by `delta` if there is room, and nothing is lost in the
addition. -/
structure Adjusts (s : Scheduler) (operation : Operation) (task : TaskId) (delta : Priority)
    (room : Bool) : Prop where
  answer : s.answer (.perform operation) = .ok (.flag room)
  base : (s.next (.perform operation)).graph.base? task =
    some (if room then s.current task + delta else s.current task)
  toInt : room = true → (s.current task + delta).toInt = (s.current task).toInt + delta.toInt

theorem Reachable.grounded (reachable : s.Reachable) :
    s.graph.CleanNodes (Grounded s.bounds.lowest) := by
  induction reachable with
  | fresh hbuild =>
    rw [(build_eq_ok hbuild).2.2]
    exact fun n hu => absurd hu (not_inUse_empty n)
  | @next s command reachable ih =>
    have c := reachable.coherent
    rw [bounds_next c]
    cases command with
    | perform operation =>
      refine operation.cleanNodes c (fun _ _ => True) (readsUpstream_grounded _) ?_
        (fun _ _ => trivial) (fun _ _ _ _ => trivial) ih
      intro g n cg _ _ hg
      exact (evaluate_evaluates _ n g).grounded cg.toConsistent (fun m hd => (cg.flags m hd).1) hg
    | setInterrupts interrupts => exact ih

theorem current_attach (c : s.graph.Coherent s.bounds) (task : TaskId) :
    ((s.attaching task).task (s.slotOf task)).base = s.current task ∧
      (s.attaching task).base? task = some (s.current task) := by
  have hbase := base_attach c.toConsistent task s.bounds.initial
  refine ⟨hbase, ?_⟩
  rw [base?, lookup?_attaching c task, Option.map_some]
  exact congrArg some hbase

theorem adjusts_adjustPriority (c : s.graph.Coherent s.bounds) {operation : Operation}
    {delta : Priority} {room : Bounds → Priority → Bool}
    (perform : operation.perform = Reply.flag <$> adjustPriority task delta room)
    (toInt : ∀ current, room s.bounds current = true →
      (current + delta).toInt = current.toInt + delta.toInt) :
    s.Adjusts operation task delta (room s.bounds (s.current task)) := by
  obtain ⟨hcurrent, hbase⟩ := current_attach c task
  have hset (base : Priority) :=
    base?_setBase (c.attach s.valid task).toConsistent (lookup?_attaching c task) base task
  simp only [if_true] at hset
  have heffect := Call.effect_map (s := s) Reply.flag (adjustPriority task delta room)
  rw [← perform, effect_adjustPriority] at heffect
  simp only [hcurrent] at heffect
  refine ⟨?_, ?_, toInt _⟩
  · change (operation.perform.effect s).1 = _
    rw [heffect]
    cases room s.bounds (s.current task) <;> rfl
  · change (operation.perform.effect s).2.graph.base? task = _
    rw [heffect]
    cases room s.bounds (s.current task)
    · exact hbase
    · exact hset _

/-- What an effective priority or a donation is bounded by, circles or no circles. -/
theorem priorities_bounded (reachable : s.Reachable) :
    (s.interrupts.enabled = false → ∀ task t, s.graph.lookup? task = some t →
      ∃ effective largest, ((effectivePriority task).run s).result = .ok effective ∧
        s.graph.LargestBase (s.graph.Above · t) largest ∧
        s.bounds.lowest ≤ (s.graph.task t).base ∧ (s.graph.task t).base ≤ effective ∧
        effective ≤ largest ∧ largest ≤ s.bounds.highest) ∧
    (s.interrupts.enabled = false → ∀ queue q, s.graph.resolve? queue = some q →
      ∃ donation, ((queuePriority queue).run s).result = .ok donation ∧
        s.bounds.lowest ≤ donation ∧
        ((s.graph.queue q).waiters = [] → donation = s.bounds.lowest) ∧
        ((s.graph.queue q).waiters ≠ [] → ∃ largest,
          s.graph.LargestBase (s.graph.Behind q) largest ∧ donation ≤ largest ∧
            largest ≤ s.bounds.highest)) ∧
    ∀ task,
      s.Adjusts (.increasePriority task) task 1 (s.current task < s.bounds.highest) ∧
      s.Adjusts (.decreasePriority task) task (-1) (s.bounds.lowest < s.current task) := by
  have c := reachable.coherent
  have grounded := reachable.grounded
  refine ⟨fun disabled task t ht => ?_, fun disabled queue q hq => ?_, fun task => ⟨?_, ?_⟩⟩
  · have htracked := ((c.lookup_iff task t).mp ht).1
    have inUse (w : Nat) (hw : s.graph.Above w t) : s.graph.Tracked w :=
      tracked_of_above c.toConsistent htracked hw
    obtain ⟨largest, hl⟩ := exists_largestBase inUse ⟨t, .refl⟩
    have he := evaluate_evaluates s.bounds.lowest (.task t) s.graph
    obtain ⟨hbase, hdonor⟩ := he.bounded c grounded htracked
    refine ⟨_, largest, effectivePriority_eq disabled ht, hl, (c.bases t htracked).1, hbase, ?_,
      (hl.mem c inUse).2⟩
    refine hl.le_of_donor c inUse (hdonor.imp_right fun ⟨w, hup, hw⟩ => ⟨w, ?_, hw⟩)
    exact above_of_upstream c.toConsistent hup
  · have hlive := (resolve?_eq_some hq).2.1
    have he := evaluate_evaluates s.bounds.lowest (.queue q) s.graph
    obtain ⟨hfloor, hdonor⟩ := he.bounded c grounded hlive
    have hdonor' : _ ∨ ∃ w, s.graph.Behind q w ∧ _ :=
      hdonor.imp_right fun ⟨w, hup, hw⟩ => ⟨w, behind_of_upstream c.toConsistent hup, hw⟩
    refine ⟨_, queuePriority_eq disabled hq, hfloor, fun hnone => ?_, fun hsome => ?_⟩
    · refine hdonor'.resolve_right ?_
      rintro ⟨w, ⟨w', hw', -⟩, -⟩
      simp [hnone] at hw'
    · obtain ⟨w, hw⟩ := List.exists_mem_of_ne_nil _ hsome
      have inUse (w : Nat) : s.graph.Behind q w → s.graph.Tracked w :=
        tracked_of_behind c.toConsistent
      obtain ⟨largest, hl⟩ := exists_largestBase inUse ⟨w, w, hw, .refl⟩
      exact ⟨largest, hl, hl.le_of_donor c inUse hdonor', (hl.mem c inUse).2⟩
  · have perform : (Operation.increasePriority task).perform = Reply.flag <$>
        adjustPriority task 1 fun bounds current => current < bounds.highest := rfl
    exact adjusts_adjustPriority c perform fun _ room => toInt_increase (of_decide_eq_true room)
  · have perform : (Operation.decreasePriority task).perform = Reply.flag <$>
        adjustPriority task (-1) fun bounds current => bounds.lowest < current := rfl
    exact adjusts_adjustPriority c perform fun _ room => toInt_decrease (of_decide_eq_true room)

/-- Under the widest bounds there are, two tasks wait for each other, one of them at the top and the
other one at the bottom. -/
def widestCircle : Scheduler :=
  after ⟨⟨Int32.minValue, 0, Int32.maxValue⟩, by decide, ⟨false⟩, {}⟩ <| List.map .perform
    [.newWaitQueue true, .newWaitQueue true, .acquire ⟨0, 0⟩ ⟨1⟩, .acquire ⟨1, 0⟩ ⟨2⟩,
      .waitForAccess ⟨1, 0⟩ ⟨1⟩, .waitForAccess ⟨0, 0⟩ ⟨2⟩, .setPriority ⟨1⟩ Int32.maxValue,
      .effectivePriority ⟨2⟩, .setPriority ⟨2⟩ Int32.minValue]

theorem priorities_bounded_widestCircle :
    (∃ effective largest,
      ((effectivePriority ⟨2⟩).run widestCircle).result = .ok effective ∧
        widestCircle.graph.LargestBase (widestCircle.graph.Above · 1) largest ∧
        Int32.minValue ≤ effective ∧ effective ≤ largest ∧ largest ≤ Int32.maxValue) ∧
      (∃ donation, ((queuePriority ⟨0, 0⟩).run widestCircle).result = .ok donation ∧
        ∃ largest, widestCircle.graph.LargestBase (widestCircle.graph.Behind 0) largest ∧
          donation ≤ largest) ∧
      ((effectivePriority ⟨2⟩).run widestCircle).result.toOption = some Int32.maxValue ∧
      (widestCircle.next (.perform (.increasePriority ⟨1⟩))).graph.base? ⟨1⟩ =
        some Int32.maxValue ∧
      (widestCircle.next (.perform (.increasePriority ⟨2⟩))).graph.base? ⟨2⟩ =
        some (Int32.minValue + 1) := by
  have reachable : widestCircle.Reachable :=
    (Reachable.fresh (build_of_valid (by decide) ⟨false⟩)).after _
  have disabled : widestCircle.interrupts.enabled = false := by decide +kernel
  have hbounds : widestCircle.bounds = ⟨Int32.minValue, 0, Int32.maxValue⟩ := by decide +kernel
  obtain ⟨htasks, hqueues, hadjusts⟩ := priorities_bounded reachable
  obtain ⟨effective, largest, hanswer, hl, hlowest, hbase, hle, hhighest⟩ :=
    htasks disabled ⟨2⟩ 1 (by decide +kernel)
  rw [hbounds] at hlowest hhighest
  obtain ⟨donation, hanswer', -, -, hsome⟩ := hqueues disabled ⟨0, 0⟩ 0 (by decide +kernel)
  obtain ⟨largest', hl', hle', -⟩ := hsome (by decide +kernel)
  refine ⟨⟨effective, largest, hanswer, hl, Int32.le_trans hlowest hbase, hle, hhighest⟩,
    ⟨donation, hanswer', largest', hl', hle'⟩, by decide +kernel, ?_, ?_⟩
  · have htop : widestCircle.current ⟨1⟩ = Int32.maxValue := by decide +kernel
    have hroom : decide (widestCircle.current ⟨1⟩ < widestCircle.bounds.highest) = false := by
      decide +kernel
    rw [(hadjusts ⟨1⟩).1.base, hroom, htop]
    rfl
  · have hbottom : widestCircle.current ⟨2⟩ = Int32.minValue := by decide +kernel
    have hroom : decide (widestCircle.current ⟨2⟩ < widestCircle.bounds.highest) = true := by
      decide +kernel
    rw [(hadjusts ⟨2⟩).1.base, hroom, hbottom]
    rfl

end Scheduler

end PriorityDonation
