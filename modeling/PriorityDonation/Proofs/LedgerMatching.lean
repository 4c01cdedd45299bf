import PriorityDonation.Proofs.Identities

/-!
# Ledgers that match a graph

A ledger matches a graph when it knows the tracked tasks with their base priorities and the live
queues with their holders and waiters, under the names by which clients know them. The names it has
kept are then those of each slot up to the present generation, so a generation that moves on makes a
new name as long as it does not wrap around.
-/

namespace PriorityDonation

namespace Ledger

variable {ledger : Ledger} {name : QueueHandle} {number : Nat} {entry : Entry}

theorem find?_eq_some (h : ledger.find? name = some (number, entry)) :
    ledger.names.idxOf? name = some number ∧ ledger.queues[number]? = some entry := by
  obtain ⟨n, hn, hentry⟩ := Option.bind_eq_some_iff.mp h
  obtain ⟨e, he, hpair⟩ := Option.map_eq_some_iff.mp hentry
  cases hpair
  exact ⟨hn, he⟩

theorem mem_queues (h : ledger.find? name = some (number, entry)) : number ∈ ledger.queues := by
  rw [Std.TreeMap.mem_iff_isSome_getElem?, (find?_eq_some h).2]
  rfl

/-- Different names have different numbers. -/
theorem number_ne (h : ledger.find? name = some (number, entry)) {other : QueueHandle}
    (hother : other ≠ name) {n : Nat} (hn : ledger.names.idxOf? other = some n) : number ≠ n := by
  rintro rfl
  obtain ⟨_, hname, _⟩ := List.idxOf?_eq_some_iff.mp (find?_eq_some h).1
  obtain ⟨_, hname', _⟩ := List.idxOf?_eq_some_iff.mp hn
  exact hother (hname'.symm.trans hname)

theorem find?_setEntry (h : ledger.find? name = some (number, entry)) (entry' : Entry)
    (other : QueueHandle) : (ledger.setEntry number entry').find? other =
      if other = name then some (number, entry') else ledger.find? other := by
  have hnumber := (find?_eq_some h).1
  simp only [find?, setEntry, Std.TreeMap.getElem?_insert, Std.LawfulEqOrd.compare_eq_iff_eq]
  by_cases hother : other = name
  · simp [hother, hnumber]
  · rw [if_neg hother]
    apply Option.bind_congr
    intro n hn
    rw [if_neg (number_ne h hother hn)]

theorem find?_destroy (h : ledger.find? name = some (number, entry)) (other : QueueHandle) :
    (ledger.destroy number).find? other = if other = name then none else ledger.find? other := by
  have hnumber := (find?_eq_some h).1
  simp only [find?, destroy, Std.TreeMap.getElem?_erase, Std.LawfulEqOrd.compare_eq_iff_eq]
  by_cases hother : other = name
  · simp [hother, hnumber]
  · rw [if_neg hother]
    apply Option.bind_congr
    intro n hn
    rw [if_neg (number_ne h hother hn)]

theorem idxOf?_append_singleton (names : List QueueHandle) {new : QueueHandle} (hnew : new ∉ names)
    (other : QueueHandle) : (names ++ [new]).idxOf? other =
      if other = new then some names.length else names.idxOf? other := by
  induction names with
  | nil => grind
  | cons first rest ih =>
    obtain ⟨hfirst, hrest⟩ := not_or.mp (mt List.mem_cons.mpr hnew)
    rw [List.cons_append, List.idxOf?_cons, List.idxOf?_cons, ih hrest]
    by_cases h : other = new
    · simp [h, Ne.symm hfirst]
    · simp [h]

theorem find?_create (hnew : name ∉ ledger.names) (transfers : Bool)
    (other : QueueHandle) : (ledger.create name transfers).find? other =
      if other = name then some (ledger.names.length, { transfers }) else ledger.find? other := by
  simp only [find?, create, Std.TreeMap.getElem?_insert, Std.LawfulEqOrd.compare_eq_iff_eq,
    idxOf?_append_singleton _ hnew]
  by_cases hother : other = name
  · simp [hother]
  · simp only [if_neg hother]
    apply Option.bind_congr
    intro n hn
    obtain ⟨hn, _⟩ := List.idxOf?_eq_some_iff.mp hn
    rw [if_neg (Nat.ne_of_gt hn)]

theorem find?_exit (ledger : Ledger) (task : TaskId) (name : QueueHandle) :
    ((ledger.exit task).find? name).map Prod.snd =
      ((ledger.find? name).map Prod.snd).map (·.forget task) := by
  simp only [find?, exit, Std.TreeMap.getElem?_map]
  cases ledger.names.idxOf? name with
  | none => rfl
  | some n => cases h : ledger.queues[n]? <;> simp [h]

/-- The tracked tasks and their base priorities are those of the ledger. -/
structure KnowsTasks (ledger : Ledger) (g : Graph) : Prop where
  base (id : TaskId) : ledger.bases[id]? = g.base? id
  count : ledger.bases.size = g.taskCount

namespace KnowsTasks

variable {g h : Graph} {ledger' : Ledger} {id : TaskId} {t : Nat} (knows : ledger.KnowsTasks g)
include knows

theorem congr (bases : ledger'.bases = ledger.bases) (base : ∀ id, h.base? id = g.base? id)
    (count : h.taskCount = g.taskCount) : ledger'.KnowsTasks h where
  base id := by rw [bases, knows.base, base]
  count := by rw [bases, knows.count, count]

theorem mem_bases (id : TaskId) : id ∈ ledger.bases ↔ (g.lookup? id).isSome = true := by
  rw [Std.TreeMap.mem_iff_isSome_getElem?, knows.base, Graph.base?, Option.isSome_map]

theorem attach (c : g.Consistent) (id : TaskId) :
    (ledger.attach id).KnowsTasks (Graph.attach id ledger.bounds.initial g).2 := by
  have hmem := knows.mem_bases id
  constructor
  · intro id'
    have hnone : id ∉ ledger.bases ↔ g.lookup? id = none := by
      rw [hmem, Option.isSome_iff_ne_none, not_not]
    simp only [Ledger.attach, Std.TreeMap.getElem?_insertIfNew, Graph.base?_attach c, knows.base,
      Std.LawfulEqOrd.compare_eq_iff_eq, hnone, eq_comm (a := id)]
  · simp only [Ledger.attach, Std.TreeMap.size_insertIfNew, Graph.taskCount_attach, knows.count,
      hmem]

theorem setBase (c : g.Consistent) (hid : g.lookup? id = some t) (base : Priority) :
    (ledger.setBase id base).KnowsTasks (g.setBase t base) := by
  have hmem : id ∈ ledger.bases := (knows.mem_bases id).mpr (by rw [hid]; rfl)
  constructor
  · intro id'
    simp only [Ledger.setBase, Std.TreeMap.getElem?_insert, Graph.base?_setBase c hid, knows.base,
      Std.LawfulEqOrd.compare_eq_iff_eq, eq_comm (a := id)]
  · have hindex := (g.sameRoster_setBase t base).index
    simp only [Ledger.setBase, Std.TreeMap.size_insert, Std.TreeMap.contains_iff_mem, hmem,
      if_true, knows.count, Graph.taskCount, hindex]

theorem exit (c : g.Consistent) (hid : g.lookup? id = some t) :
    (ledger.exit id).KnowsTasks (Graph.retire t g).2 := by
  have hmem : id ∈ ledger.bases := (knows.mem_bases id).mpr (by rw [hid]; rfl)
  obtain ⟨_, _, hcount⟩ := Graph.size_retire c hid
  constructor
  · intro id'
    simp only [Ledger.exit, Std.TreeMap.getElem?_erase, Graph.base?_retire c hid, knows.base,
      Std.LawfulEqOrd.compare_eq_iff_eq, eq_comm (a := id)]
  · have hsize := size_erase_add_one hmem
    have hknown := knows.count
    simp only [Ledger.exit]
    omega

end KnowsTasks

/-- The live queues with their holders and waiters are those of the ledger, and so are the names of
all earlier queues. -/
structure KnowsQueues (ledger : Ledger) (g : Graph) : Prop where
  entry (name : QueueHandle) :
    (ledger.find? name).map Prod.snd = (g.resolve? name).map g.entry
  count : ledger.queues.size + g.queues.free.length = g.queues.size
  number_lt : ∀ number ∈ ledger.queues, number < ledger.names.length
  names_nodup : ledger.names.Nodup
  /-- Every generation up to the present one had its name. -/
  mem_names (name : QueueHandle) : name ∈ ledger.names ↔ name.slot < g.queues.size ∧
    name.generation.toNat ≤ (g.queue name.slot).generation.toNat
  names_count (q : Nat) : q < g.queues.size →
    ledger.names.countP (·.slot = q) = (g.queue q).generation.toNat + 1

namespace KnowsQueues

variable {g h : Graph} {ledger' : Ledger} {q : Nat} (knows : ledger.KnowsQueues g)
include knows

/-- The ledger finds the queues that resolve in the graph. -/
theorem find?_of_resolve? (hq : g.resolve? name = some q) :
    ∃ number, ledger.find? name = some (number, g.entry q) := by
  have hentry := knows.entry name
  rw [hq] at hentry
  obtain ⟨⟨number, entry⟩, hfind, rfl⟩ := Option.map_eq_some_iff.mp hentry
  exact ⟨number, hfind⟩

theorem find?_eq_none (hq : g.resolve? name = none) : ledger.find? name = none := by
  have hentry := knows.entry name
  rwa [hq, Option.map_none, Option.map_eq_none_iff] at hentry

theorem congr (queues : ledger'.queues = ledger.queues) (names : ledger'.names = ledger.names)
    (resolve? : ∀ name, h.resolve? name = g.resolve? name) (entry : ∀ q, h.entry q = g.entry q)
    (size : h.queues.size = g.queues.size) (free : h.queues.free = g.queues.free)
    (generation : ∀ q, (h.queue q).generation = (g.queue q).generation) :
    ledger'.KnowsQueues h where
  entry name := by
    have hentry : h.entry = g.entry := funext entry
    simp only [find?, queues, names, resolve?, hentry]
    exact knows.entry name
  count := by rw [queues, size, free, knows.count]
  number_lt := by
    rw [queues, names]
    exact knows.number_lt
  names_nodup := names ▸ knows.names_nodup
  mem_names name := by rw [names, size, generation, knows.mem_names]
  names_count q := by
    rw [names, size, generation]
    exact knows.names_count q

theorem of_sameTies (ties : g.SameTies h) : ledger.KnowsQueues h :=
  knows.congr rfl rfl ties.resolve? ties.entry ties.queueSlots ties.freeQueues ties.generation

/-- One queue has another entry now. -/
theorem setEntry {number : Nat} (hq : g.resolve? name = some q)
    (hfind : ledger.find? name = some (number, g.entry q)) (roster : g.SameRoster h)
    {entry' : Entry} (entry : ∀ q', h.entry q' = if q' = q then entry' else g.entry q') :
    (ledger.setEntry number entry').KnowsQueues h where
  entry other := by
    rw [find?_setEntry hfind, roster.resolve?]
    by_cases hother : other = name
    · simp [hother, hq, entry]
    · rw [if_neg hother, knows.entry]
      cases hres : g.resolve? other with
      | none => rfl
      | some q' =>
        have hne : q' ≠ q := fun heq => hother (Graph.resolve?_inj (heq ▸ hres) hq)
        simp [entry, hne]
  count := by
    simp only [Ledger.setEntry, Std.TreeMap.size_insert, Std.TreeMap.contains_iff_mem,
      mem_queues hfind, if_true, roster.queueSlots, roster.freeQueues, knows.count]
  number_lt n hn := by
    simp only [Ledger.setEntry, Std.TreeMap.mem_insert, Std.LawfulEqOrd.compare_eq_iff_eq] at hn
    rcases hn with rfl | hn
    · exact (List.idxOf?_eq_some_iff.mp (find?_eq_some hfind).1).choose
    · exact knows.number_lt n hn
  names_nodup := knows.names_nodup
  mem_names other := by
    rw [roster.queueSlots, roster.generation]
    exact knows.mem_names other
  names_count q' := by
    rw [roster.queueSlots, roster.generation]
    exact knows.names_count q'

theorem destroy {number : Nat} (hq : g.resolve? name = some q)
    (hfind : ledger.find? name = some (number, g.entry q)) :
    (ledger.destroy number).KnowsQueues (g.destroyQueue q) := by
  obtain ⟨hslot, hlive, hgen⟩ := Graph.resolve?_eq_some hq
  obtain ⟨hsize, hfree, _⟩ := Graph.sizes_destroyQueue hlive
  have hgeneration := Graph.generation_destroyQueue hlive
  refine ⟨fun other => ?_, ?_, fun n hn => ?_, knows.names_nodup, fun other => ?_, fun q' => ?_⟩
  · rw [find?_destroy hfind, Graph.resolve?_destroyQueue hlive]
    by_cases hother : other = name
    · simp [hother, hslot]
    · rw [if_neg hother, knows.entry]
      cases hres : g.resolve? other with
      | none => simp
      | some q' =>
        have hne : q' ≠ q := fun heq => hother (Graph.resolve?_inj (heq ▸ hres) hq)
        have hslot' := (Graph.resolve?_eq_some hres).1
        simp [← hslot', hne, Graph.entry_destroyQueue hlive hne]
  · have herase := size_erase_add_one (mem_queues hfind)
    have hcount := knows.count
    simp only [Ledger.destroy, hsize, hfree, List.length_cons]
    omega
  · exact knows.number_lt n (Std.TreeMap.mem_of_mem_erase hn)
  · rw [hsize, hgeneration]
    exact knows.mem_names other
  · rw [hsize, hgeneration]
    exact knows.names_count q'

theorem exit (c : g.Consistent) {id : TaskId} {t : Nat} (hid : g.lookup? id = some t) :
    (ledger.exit id).KnowsQueues (Graph.retire t g).2 := by
  obtain ⟨hsize, hfree, _⟩ := Graph.size_retire c hid
  refine ⟨fun name => ?_, ?_, fun n hn => ?_, knows.names_nodup, fun name => ?_, fun q => ?_⟩
  · rw [find?_exit, knows.entry, Graph.resolve?_retire c hid]
    cases g.resolve? name with
    | none => rfl
    | some q => simp [Graph.entry_retire c hid]
  · simp only [Ledger.exit, Std.TreeMap.size_map, hsize, hfree, knows.count]
  · exact knows.number_lt n (Std.TreeMap.mem_map.mp hn)
  · rw [hsize, Graph.generation_retire c hid]
    exact knows.mem_names name
  · rw [hsize, Graph.generation_retire c hid]
    exact knows.names_count q

section Create

variable {transfers : Bool} {floor : Priority} {handle : QueueHandle}
  (a : Graph.Created g transfers floor handle h)
  (few : (ledger.names ++ [handle]).countP (·.slot = handle.slot) ≤ UInt32.size)
include a few

/-- The generation of a slot that is used again does not wrap around. -/
theorem generation_create : handle.generation.toNat =
    if handle.slot < g.queues.size then (g.queue handle.slot).generation.toNat + 1 else 0 := by
  rw [a.generation]
  split
  · -- each generation so far has used up one of the names allowed
    rename_i hlt
    have hcount := knows.names_count handle.slot hlt
    simp only [List.countP_append, hcount, List.countP_singleton, decide_true, if_true] at few
    rw [UInt32.toNat_add, Nat.mod_eq_of_lt]
    · rfl
    · exact Nat.lt_of_lt_of_le (Nat.lt_succ_self _) few
  · rfl

theorem not_mem_names : handle ∉ ledger.names := by
  have hgen := knows.generation_create a few
  rw [knows.mem_names]
  rintro ⟨hlt, hle⟩
  rw [if_pos hlt] at hgen
  omega

theorem mem_names_create (name : QueueHandle) : name ∈ ledger.names ++ [handle] ↔
    name.slot < h.queues.size ∧
      name.generation.toNat ≤ (h.queue name.slot).generation.toNat := by
  have hgen := knows.generation_create a few
  rw [List.mem_append, List.mem_singleton, knows.mem_names, a.lt_size]
  by_cases hslot : name.slot = handle.slot
  · have heq : name = handle ↔ name.generation.toNat = handle.generation.toNat := by
      obtain ⟨slot, generation⟩ := name
      obtain ⟨slot', generation'⟩ := handle
      simp [show slot = slot' from hslot, UInt32.toNat_inj]
    rw [heq, hslot, a.queue_self]
    simp only [WaitQueue.fresh, or_true, true_and]
    split at hgen <;> omega
  · have hne : name ≠ handle := fun heq => hslot (heq ▸ rfl)
    simp only [a.queue_of_ne hslot, hslot, hne, or_false]

theorem names_count_create {q : Nat} (hq : q < h.queues.size) :
    (ledger.names ++ [handle]).countP (·.slot = q) = (h.queue q).generation.toNat + 1 := by
  have hgen := knows.generation_create a few
  have hcount := knows.names_count q
  have hold := (a.lt_size q).mp hq
  rw [List.countP_append, List.countP_singleton]
  by_cases hslot : q = handle.slot
  · subst hslot
    simp only [a.queue_self, WaitQueue.fresh, decide_true, if_true, Nat.add_right_cancel_iff]
    by_cases hlt : handle.slot < g.queues.size
    · rw [hcount hlt, hgen, if_pos hlt]
    · rw [hgen, if_neg hlt, List.countP_eq_zero]
      intro name hname
      have hother := ((knows.mem_names name).mp hname).1
      simp only [decide_eq_true_eq]
      omega
  · have hlt := hold.resolve_right hslot
    simp only [a.queue_of_ne hslot, Ne.symm hslot, hcount hlt, decide_false]
    rfl

theorem create : (ledger.create handle transfers).KnowsQueues h := by
  have hnew := knows.not_mem_names a few
  refine ⟨fun name => ?_, ?_, fun n hn => ?_, ?_, knows.mem_names_create a few,
    fun q => knows.names_count_create a few⟩
  · rw [find?_create hnew, a.resolve?]
    by_cases hname : name = handle
    · simp [hname, a.entry]
    · rw [if_neg hname, if_neg hname, knows.entry]
      cases hres : g.resolve? name with
      | none => rfl
      | some q =>
        have hne : q ≠ handle.slot := by
          rintro rfl
          have hlive := (Graph.resolve?_eq_some hres).2.1
          simp [a.not_live] at hlive
        simp [a.entry, hne]
  · have hnumber : ledger.names.length ∉ ledger.queues := fun hmem =>
      Nat.lt_irrefl _ (knows.number_lt _ hmem)
    have hslots := a.count
    have hcount := knows.count
    simp only [Ledger.create, Std.TreeMap.size_insert, Std.TreeMap.contains_iff_mem, hnumber,
      if_false]
    omega
  · simp only [Ledger.create, Std.TreeMap.mem_insert, Std.LawfulEqOrd.compare_eq_iff_eq] at hn
    simp only [Ledger.create, List.length_append, List.length_singleton]
    rcases hn with rfl | hn
    · exact Nat.lt_succ_self _
    · exact Nat.lt_succ_of_lt (knows.number_lt n hn)
  · refine List.nodup_append.mpr ⟨knows.names_nodup, by simp, fun old hold new hnew' => ?_⟩
    rintro rfl
    exact hnew (List.mem_singleton.mp hnew' ▸ hold)

end Create

end KnowsQueues

end Ledger

end PriorityDonation
