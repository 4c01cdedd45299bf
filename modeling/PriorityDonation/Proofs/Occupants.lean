import Mathlib.Data.List.Nodup
import PriorityDonation.Proofs.Identities
import PriorityDonation.Proofs.Refusals
import PriorityDonation.Proofs.Slots

/-!
# The occupants of queue slots

The occupants of a slot are the queues that were ever created in it, numbered in the order of their
creation. A slot is only taken into use while no queue lives in it, so its occupants are those that
have been destroyed, in the same order, and after them the one that lives there, if any. The number
of an occupant, as far as 32 bits can tell it, is the generation in its handle.

So a handle resolves as long as the latest occupant is live and its number is that of the handle, up
to multiples of `2 ^ 32`. As long as no slot had more occupants than that, the handles differ and
none of them ever names a second queue.
-/

namespace PriorityDonation

/-- The handles of the queues that were created in a slot, in order. -/
def occupants (names : List QueueHandle) (slot : Nat) : List QueueHandle :=
  names.filter (·.slot = slot)

/-- The queue that a command destroyed, going by its answer. -/
def Command.destroys : Command → Except Fault Reply → Option QueueHandle
  | .perform (.destroyWaitQueue queue), .ok _ => some queue
  | _, _ => none

/-- The queues that are destroyed in a run, in order. -/
def destroyed (transcript : List (Command × Except Fault Reply)) : List QueueHandle :=
  transcript.filterMap fun entry => entry.1.destroys entry.2

theorem destroyed_cons (command : Command) (answer : Except Fault Reply)
    (rest : List (Command × Except Fault Reply)) :
    destroyed ((command, answer) :: rest) =
      (command.destroys answer).toList ++ destroyed rest := by
  unfold destroyed
  rw [List.filterMap_cons]
  cases command.destroys answer <;> rfl

/-- Whether an operation creates or destroys queues. -/
def Operation.turnsOver : Operation → Bool
  | newWaitQueue _ | destroyWaitQueue _ => true
  | _ => false

namespace Graph

/-- The handle of the queue that lives in a slot. -/
def resident? (g : Graph) (q : Nat) : Option QueueHandle :=
  if (g.queue q).live then some ⟨q, (g.queue q).generation⟩ else none

/-- The queues created so far and those destroyed so far account for the slots of a graph. -/
structure Occupied (g : Graph) (names gone : List QueueHandle) : Prop where
  numbered (q : Nat) : occupants names q =
    (List.range (occupants names q).length).map fun k => ⟨q, UInt32.ofNat k⟩
  lt_size (q : Nat) : q < g.queues.size ↔ 0 < (occupants names q).length
  generation (q : Nat) : q < g.queues.size →
    (g.queue q).generation + 1 = UInt32.ofNat (occupants names q).length
  /-- An occupant comes when the one before is gone. -/
  turns (q : Nat) : occupants names q = occupants gone q ++ (g.resident? q).toList
  count : g.queues.size + gone.length = names.length + g.queues.free.length

/-- The queue slots are as they were, with the same queues in them. -/
structure SameSlots (g h : Graph) : Prop where
  size : h.queues.size = g.queues.size
  free : h.queues.free = g.queues.free
  generation (q : Nat) : (h.queue q).generation = (g.queue q).generation
  live (q : Nat) : (h.queue q).live = (g.queue q).live

end Graph

section Occupants

variable {names : List QueueHandle} {name : QueueHandle}

theorem occupants_append (names more : List QueueHandle) (slot : Nat) :
    occupants (names ++ more) slot = occupants names slot ++ occupants more slot :=
  List.filter_append ..

theorem occupants_singleton (name : QueueHandle) (slot : Nat) :
    occupants [name] slot = if name.slot = slot then [name] else [] := by
  by_cases h : name.slot = slot <;> simp [occupants, h]

theorem mem_occupants (slot : Nat) :
    name ∈ occupants names slot ↔ name ∈ names ∧ name.slot = slot := by
  simp [occupants]

theorem nodup_of_occupants (h : ∀ slot, (occupants names slot).Nodup) : names.Nodup := by
  refine List.nodup_iff_count_le_one.mpr fun name => ?_
  have hcount := List.nodup_iff_count_le_one.mp (h name.slot) name
  rwa [occupants, List.count_filter (by simp)] at hcount

end Occupants

namespace Graph

variable {g h k : Graph} {names gone : List QueueHandle} {name : QueueHandle} {q : Nat}

theorem names_of_resident? (hq : g.resident? q = some name) : g.Names name ∧ name.slot = q := by
  unfold resident? at hq
  split at hq
  · rename_i hlive
    cases hq
    exact ⟨⟨lt_of_live hlive, hlive, rfl⟩, rfl⟩
  · cases hq

theorem Names.resident? (named : g.Names name) : g.resident? name.slot = some name := by
  rw [Graph.resident?, if_pos named.live, named.generation]

theorem SameRoster.sameSlots (a : SameRoster g h) : SameSlots g h :=
  ⟨a.queueSlots, a.freeQueues, a.generation, a.live⟩

theorem SameSlots.trans (a : SameSlots g h) (b : SameSlots h k) : SameSlots g k :=
  ⟨b.size.trans a.size, b.free.trans a.free, fun q => (b.generation q).trans (a.generation q),
    fun q => (b.live q).trans (a.live q)⟩

theorem SameSlots.resident? (a : SameSlots g h) (q : Nat) : h.resident? q = g.resident? q := by
  simp only [Graph.resident?, a.live, a.generation]

theorem sameSlots_attach (g : Graph) (id : TaskId) (base : Priority) :
    SameSlots g (attach id base g).2 := by
  have hqueues := queues_attach id base g
  exact ⟨by rw [hqueues], by rw [hqueues], fun q => by rw [queue_attach],
    fun q => by rw [queue_attach]⟩

theorem sameSlots_retire (c : g.Consistent) {id : TaskId} {t : Nat} (ht : g.lookup? id = some t) :
    SameSlots g (retire t g).2 := by
  obtain ⟨k, hretire, ties, _⟩ := retire_dismisses c ht
  have roster := sameRoster_cutOff c ((c.lookup_iff id t).mp ht).1
  have hdismiss : SameSlots k (k.dismiss t id) := ⟨rfl, rfl, fun _ => rfl, fun _ => rfl⟩
  rw [hretire]
  exact (roster.sameSlots.trans ties.sameRoster.sameSlots).trans hdismiss

theorem Occupied.congr (o : g.Occupied names gone) (a : SameSlots g h) :
    h.Occupied names gone := by
  refine ⟨o.numbered, fun q => ?_, fun q hq => ?_, fun q => ?_, ?_⟩
  · rw [a.size]
    exact o.lt_size q
  · rw [a.generation]
    exact o.generation q (a.size ▸ hq)
  · rw [a.resident?]
    exact o.turns q
  · rw [a.size, a.free]
    exact o.count

section Create

variable {transfers : Bool} {floor : Priority} (o : g.Occupied names gone)
  (a : Created g transfers floor name h)
include a

theorem Created.resident? (q : Nat) :
    h.resident? q = if q = name.slot then some name else g.resident? q := by
  unfold Graph.resident?
  by_cases hq : q = name.slot
  · subst hq
    simp [a.queue_self, WaitQueue.fresh]
  · simp [a.queue_of_ne hq, hq]

include o

/-- A new queue gets the next number of its slot. -/
theorem Occupied.number_create :
    name.generation = UInt32.ofNat (occupants names name.slot).length := by
  rw [a.generation]
  split
  · rename_i hlt
    exact o.generation name.slot hlt
  · rename_i hlt
    rw [o.lt_size, Nat.not_lt, Nat.le_zero] at hlt
    rw [hlt]
    rfl

theorem Occupied.create : h.Occupied (names ++ [name]) gone := by
  have hnumber := o.number_create a
  have hdead : g.resident? name.slot = none := if_neg (by simp [a.not_live])
  have hself : occupants (names ++ [name]) name.slot = occupants names name.slot ++ [name] := by
    rw [occupants_append, occupants_singleton, if_pos rfl]
  have hother {q : Nat} (hq : q ≠ name.slot) :
      occupants (names ++ [name]) q = occupants names q := by
    rw [occupants_append, occupants_singleton, if_neg (Ne.symm hq), List.append_nil]
  refine ⟨fun q => ?_, fun q => ?_, fun q hlt => ?_, fun q => ?_, ?_⟩
  · by_cases hq : q = name.slot
    · subst hq
      have hname : (⟨name.slot, UInt32.ofNat (occupants names name.slot).length⟩ : QueueHandle) =
          name := by rw [← hnumber]
      rw [hself, List.length_append, List.length_singleton, List.range_succ, List.map_append,
        ← o.numbered, List.map_singleton, hname]
    · rw [hother hq]
      exact o.numbered q
  · rw [a.lt_size]
    by_cases hq : q = name.slot
    · simp [hq, hself]
    · rw [hother hq, o.lt_size]
      simp [hq]
  · by_cases hq : q = name.slot
    · subst hq
      rw [hself, a.queue_self, List.length_append, List.length_singleton, UInt32.ofNat_add,
        ← hnumber]
      rfl
    · rw [hother hq, a.queue_of_ne hq]
      exact o.generation q (((a.lt_size q).mp hlt).resolve_right hq)
  · rw [a.resident?]
    have hturns := o.turns q
    by_cases hq : q = name.slot
    · subst hq
      rw [hdead, Option.toList_none, List.append_nil] at hturns
      rw [hself, if_pos rfl, hturns, Option.toList_some]
    · rw [hother hq, if_neg hq, hturns]
  · have hslots := a.count
    have hcount := o.count
    simp only [List.length_append, List.length_singleton]
    omega

end Create

theorem Occupied.destroy (o : g.Occupied names gone) (named : g.Names name) :
    (g.destroyQueue name.slot).Occupied names (gone ++ [name]) := by
  obtain ⟨hsize, hfree, _⟩ := sizes_destroyQueue named.live
  have hresident (q : Nat) : (g.destroyQueue name.slot).resident? q =
      if q = name.slot then none else g.resident? q := by
    simp only [Graph.resident?, live_destroyQueue named.live, generation_destroyQueue named.live]
    split <;> simp
  refine ⟨o.numbered, fun q => ?_, fun q hlt => ?_, fun q => ?_, ?_⟩
  · rw [hsize]
    exact o.lt_size q
  · rw [generation_destroyQueue named.live]
    exact o.generation q (hsize ▸ hlt)
  · have hturns := o.turns q
    rw [hresident, occupants_append, occupants_singleton]
    by_cases hq : q = name.slot
    · subst hq
      rw [named.resident?, Option.toList_some] at hturns
      rw [if_pos rfl, if_pos rfl, hturns, Option.toList_none, List.append_nil]
    · rw [if_neg hq, if_neg (Ne.symm hq), List.append_nil, hturns]
  · have hcount := o.count
    rw [hsize, hfree, List.length_append, List.length_singleton, List.length_cons]
    omega

namespace Occupied

variable (o : g.Occupied names gone)
include o

theorem number {k : Nat} (hk : (occupants names q)[k]? = some name) :
    name.slot = q ∧ name.generation.toNat = k % UInt32.size := by
  rw [o.numbered, List.getElem?_map, Option.map_eq_some_iff] at hk
  obtain ⟨j, hj, rfl⟩ := hk
  obtain ⟨_, rfl⟩ := List.getElem?_eq_some_iff.mp hj
  exact ⟨rfl, by simp⟩

theorem resolve?_iff : g.resolve? name = some name.slot ↔
    name.slot < g.queues.size ∧ (g.queue name.slot).live = true ∧ ∃ k,
      (occupants names name.slot).length = k + 1 ∧ k % UInt32.size = name.generation.toNat := by
  have hgeneration (hlt : name.slot < g.queues.size) : ∃ k,
      (occupants names name.slot).length = k + 1 ∧
        (g.queue name.slot).generation.toNat = k % UInt32.size := by
    have hpos := (o.lt_size name.slot).mp hlt
    have hnext := o.generation name.slot hlt
    obtain ⟨k, hk⟩ := Nat.exists_eq_add_one.mpr hpos
    have hsize : UInt32.size = 2 ^ 32 := rfl
    have hbound := (g.queue name.slot).generation.toNat_lt
    have hnumber := congrArg UInt32.toNat hnext
    rw [hk, UInt32.toNat_add, UInt32.toNat_ofNat', UInt32.toNat_one] at hnumber
    refine ⟨k, hk, ?_⟩
    rw [hsize]
    omega
  constructor
  · intro h
    obtain ⟨named, _⟩ := names_of_resolve? h
    obtain ⟨k, hk, hnumber⟩ := hgeneration named.lt_size
    exact ⟨named.lt_size, named.live, k, hk, by rw [← hnumber, named.generation]⟩
  · rintro ⟨hlt, hlive, k, hk, hnumber⟩
    obtain ⟨k', hk', hnumber'⟩ := hgeneration hlt
    have hkk : k' = k := by omega
    refine Names.resolve? ⟨hlt, hlive, ?_⟩
    rw [← UInt32.toNat_inj, hnumber', hkk, hnumber]

section Few

variable (few : ∀ q, (occupants names q).length ≤ UInt32.size)
include few

theorem nodup_occupants (q : Nat) : (occupants names q).Nodup := by
  rw [o.numbered]
  refine List.nodup_range.map_on fun k hk k' hk' hname => ?_
  have hsize : UInt32.size = 2 ^ 32 := rfl
  have hbound := few q
  rw [List.mem_range] at hk hk'
  have hnumber := congrArg (·.generation.toNat) hname
  simp only [UInt32.toNat_ofNat'] at hnumber
  omega

theorem nodup : names.Nodup := nodup_of_occupants (o.nodup_occupants few)

/-- The resident of a slot is its latest occupant, and no handle to an earlier one names it. -/
theorem not_named_of_gone (hname : name ∈ gone) : ¬ g.Names name := by
  intro named
  have hturns := o.turns name.slot
  rw [named.resident?, Option.toList_some] at hturns
  have hnodup := hturns ▸ o.nodup_occupants few name.slot
  have hgone : name ∈ occupants gone name.slot := (mem_occupants _).mpr ⟨hname, rfl⟩
  exact List.disjoint_of_nodup_append hnodup hgone List.mem_cons_self

omit few in
theorem resident_of_not_gone (hname : name ∈ names) (hgone : name ∉ gone) :
    g.Names name ∧ (occupants names name.slot).getLast? = some name := by
  have hturns := o.turns name.slot
  have hmem : name ∈ occupants names name.slot := (mem_occupants _).mpr ⟨hname, rfl⟩
  rw [hturns, List.mem_append] at hmem
  have hresident := hmem.resolve_left fun h => hgone ((mem_occupants _).mp h).1
  rw [Option.mem_toList] at hresident
  refine ⟨(names_of_resident? hresident).1, ?_⟩
  rw [hturns, hresident, Option.toList_some, List.getLast?_concat]

end Few

end Occupied

end Graph

open PriorityDonation.Graph

variable {s : Scheduler} {operation : Operation} {names gone : List QueueHandle}

theorem Operation.Part.sameSlots {g h : Graph} (c : s.graph.Consistent)
    (hstays : operation.turnsOver = false) (hp : operation.Part s g h) : SameSlots g h := by
  cases hp with
  | attach task => exact sameSlots_attach s.graph task _
  | @edit g e v he => exact (he.sameRoster.trans (e.sameTies_invalidate v).sameRoster).sameSlots
  | create h => simp [h, turnsOver] at hstays
  | discard h => simp [h, turnsOver] at hstays
  | retire _ ht => exact sameSlots_retire c ht
  | evaluateTask _ => exact (sameTies_evaluate _ _ _).sameRoster.sameSlots
  | evaluateQueue _ _ => exact (sameTies_evaluate _ _ _).sameRoster.sameSlots

/-- The other operations leave the queue slots alone. -/
theorem Operation.sameSlots (c : s.graph.Coherent s.bounds)
    (hstays : operation.turnsOver = false) :
    SameSlots s.graph (operation.perform.effect s).2.graph := by
  obtain ⟨_, _, g, hparts, hgraph⟩ := operation.does c
  rw [hgraph]
  refine SameSlots.trans ?_ (sameTies_count g _).sameRoster.sameSlots
  clear hgraph
  induction hparts with
  | refl => exact (SameRoster.refl s.graph).sameSlots
  | tail _ hlast ih => exact ih.trans (hlast.sameSlots c.toConsistent hstays)

theorem nameIn_map {α : Type} {f : α → Reply} (hf : ∀ a, Ledger.nameIn (.ok (f a)) = none)
    (call : Call α) : Ledger.nameIn ((f <$> call).effect s).1 = none := by
  rw [Call.effect_map]
  cases (call.effect s).1 with
  | error fault => rfl
  | ok a => exact hf a

theorem nameIn_perform (hstays : operation.turnsOver = false) :
    Ledger.nameIn (operation.perform.effect s).1 = none := by
  cases operation with
  | newWaitQueue transfers => simp [Operation.turnsOver] at hstays
  | _ => exact nameIn_map (fun _ => rfl) _

namespace Scheduler

theorem next_occupied (o : s.graph.Occupied names gone) (c : s.graph.Coherent s.bounds)
    (command : Command) : (s.next command).graph.Occupied
      (names ++ (Ledger.nameIn (s.answer command)).toList)
      (gone ++ (command.destroys (s.answer command)).toList) := by
  have unchanged : s.graph.Occupied (names ++ []) (gone ++ []) := by
    rwa [List.append_nil, List.append_nil]
  have quiet {operation : Operation} (hstays : operation.turnsOver = false) :
      (operation.perform.effect s).2.graph.Occupied
        (names ++ (Ledger.nameIn (operation.perform.effect s).1).toList) (gone ++ []) := by
    rw [nameIn_perform hstays, Option.toList_none, List.append_nil, List.append_nil]
    exact o.congr (Operation.sameSlots c hstays)
  cases command with
  | setInterrupts interrupts => exact unchanged
  | perform operation =>
    change (operation.perform.effect s).2.graph.Occupied
      (names ++ (Ledger.nameIn (operation.perform.effect s).1).toList)
      (gone ++ ((Command.perform operation).destroys (operation.perform.effect s).1).toList)
    cases operation with
    | newWaitQueue transfers =>
      have a := createQueue_created c.toRostered transfers s.bounds.lowest
      rw [Operation.perform, Call.effect_map, effect_newWaitQueue]
      exact (List.append_nil gone).symm ▸ o.create a
    | destroyWaitQueue queue =>
      rw [Operation.perform, Call.effect_map, effect_destroyWaitQueue, map_onQueue, onQueue,
        guarded]
      split
      · exact unchanged
      · cases hq : s.graph.resolve? queue with
        | none => exact unchanged
        | some q =>
          obtain ⟨named, rfl⟩ := names_of_resolve? hq
          simp only
          split
          · exact (List.append_nil names).symm ▸ o.destroy named
          · exact unchanged
    | _ => exact quiet rfl

theorem after_occupied (o : s.graph.Occupied names gone) (c : s.graph.Coherent s.bounds)
    (commands : List Command) : (s.after commands).graph.Occupied
      (names ++ created (s.transcript commands)) (gone ++ destroyed (s.transcript commands)) := by
  induction commands generalizing s names gone with
  | nil =>
    rw [transcript, created, destroyed, List.filterMap_nil, List.filterMap_nil, List.append_nil,
      List.append_nil]
    exact o
  | cons command rest ih =>
    rw [transcript, created_cons, destroyed_cons, ← List.append_assoc, ← List.append_assoc]
    exact ih (next_occupied o c command) (coherent_next c command)

theorem fresh_occupied {bounds : Bounds} {interrupts : InterruptFlag} {events : List Event}
    (h : build bounds interrupts = (.ok s, events)) : s.graph.Occupied [] [] := by
  rw [(build_eq_ok h).2.2]
  refine ⟨fun _ => rfl, fun q => ?_, fun q hq => ?_, fun _ => rfl, rfl⟩
  · exact ⟨fun hq => absurd hq (Nat.not_lt_zero q), fun h => absurd h (Nat.lt_irrefl 0)⟩
  · exact absurd hq (Nat.not_lt_zero q)

/-- In every history the occupants of a slot are numbered by their generations, and a handle
resolves while the occupant of its slot has that number modulo the number of generations. As long as
no slot has used them all up, each handle names one queue, and none once that queue is gone. -/
theorem handles_name_one_queue {bounds : Bounds} {interrupts : InterruptFlag}
    {events : List Event} (hbuild : build bounds interrupts = (.ok s, events))
    (commands : List Command) :
    let names := created (s.transcript commands)
    let gone := destroyed (s.transcript commands)
    let s' := s.after commands
    (∀ q k name, (occupants names q)[k]? = some name →
      name.slot = q ∧ name.generation.toNat = k % UInt32.size) ∧
    (∀ transfers name, s'.answer (.perform (.newWaitQueue transfers)) = .ok (.queue name) →
      (s'.graph.queue name.slot).live = false) ∧
    (∀ name, s'.graph.resolve? name = some name.slot ↔
      name.slot < s'.graph.queues.size ∧ (s'.graph.queue name.slot).live = true ∧
        ∃ k, (occupants names name.slot).length = k + 1 ∧ k % UInt32.size = name.generation.toNat) ∧
    s'.answer (.perform .queueCount) = .ok (.count (names.length - gone.length)) ∧
    gone.length ≤ names.length ∧
    ((∀ q, (occupants names q).length ≤ UInt32.size) →
      names.Nodup ∧
      (∀ name ∈ names, name ∉ gone → s'.graph.resolve? name = some name.slot ∧
        (occupants names name.slot).getLast? = some name) ∧
      ∀ name ∈ gone, ∀ operation : Operation, operation.queue? = some name →
        s'.interrupts.enabled = false →
          s'.answer (.perform operation) = .error (.unknownQueue name)) := by
  have reachable := (Reachable.fresh hbuild).after commands
  have c := reachable.coherent
  have o := after_occupied (fresh_occupied hbuild) (Reachable.fresh hbuild).coherent commands
  rw [List.nil_append, List.nil_append] at o
  have hcount := o.count
  have hslots := c.queueCount_add
  refine ⟨fun q k name => o.number, fun transfers name h => ?_, fun name => o.resolve?_iff, ?_,
    by omega, fun few => ⟨o.nodup few, fun name hname hgone => ?_, ?_⟩⟩
  · have a := createQueue_created c.toRostered transfers (s.after commands).bounds.lowest
    have hanswer : (s.after commands).answer (.perform (.newWaitQueue transfers)) =
        .ok (.queue (createQueue transfers (s.after commands).bounds.lowest
          (s.after commands).graph).1) := by
      change ((Operation.newWaitQueue transfers).perform.effect _).1 = _
      rw [Operation.perform, Call.effect_map, effect_newWaitQueue]
      rfl
    have hname := Reply.queue.inj (Except.ok.inj (hanswer.symm.trans h))
    exact hname ▸ a.not_live
  · have hanswer : (s.after commands).answer (.perform .queueCount) =
        .ok (.count (s.after commands).graph.queueCount) := rfl
    rw [hanswer]
    congr 2
    omega
  · obtain ⟨named, hlast⟩ := o.resident_of_not_gone hname hgone
    exact ⟨named.resolve?, hlast⟩
  · intro name hname operation hqueue disabled
    have unnamed := o.not_named_of_gone few hname
    exact ((operation.fails c.toConsistent).error_iff _).mpr
      (.unknownQueue disabled hqueue unnamed)

/-- Two slots are used again, the one freed last first. -/
def recycledHandles : List Command :=
  List.map .perform
    [.newWaitQueue true, .newWaitQueue true, .destroyWaitQueue ⟨0, 0⟩, .destroyWaitQueue ⟨1, 0⟩,
      .newWaitQueue false, .newWaitQueue false, .destroyWaitQueue ⟨1, 0⟩]

theorem handles_name_one_queue_recycledHandles :
    (let s := after ⟨.standard, Bounds.standard_valid, ⟨false⟩, {}⟩ recycledHandles;
      s.graph.resolve? ⟨1, 1⟩ = some 1 ∧ s.graph.resolve? ⟨0, 1⟩ = some 0 ∧
      s.answer (.perform (.holder ⟨1, 0⟩)) = .error (.unknownQueue ⟨1, 0⟩) ∧
      s.answer (.perform .queueCount) = .ok (.count 2)) := by
  have hbuild := build_of_valid Bounds.standard_valid ⟨false⟩
  have hnames : created (transcript ⟨.standard, Bounds.standard_valid, ⟨false⟩, {}⟩
      recycledHandles) = [⟨0, 0⟩, ⟨1, 0⟩, ⟨1, 1⟩, ⟨0, 1⟩] := by decide +kernel
  have hgone : destroyed (transcript ⟨.standard, Bounds.standard_valid, ⟨false⟩, {}⟩
      recycledHandles) = [⟨0, 0⟩, ⟨1, 0⟩] := by decide +kernel
  obtain ⟨_, _, _, hcount, _, hfew⟩ := handles_name_one_queue hbuild recycledHandles
  rw [hnames, hgone] at hcount hfew
  obtain ⟨_, hlive, hunknown⟩ := hfew fun q =>
    Nat.le_trans (List.length_filter_le _ _) (by decide)
  refine ⟨(hlive ⟨1, 1⟩ (by decide) (by decide)).1, (hlive ⟨0, 1⟩ (by decide) (by decide)).1, ?_,
    hcount⟩
  exact hunknown ⟨1, 0⟩ (by decide) (.holder ⟨1, 0⟩) rfl (by decide +kernel)

end Scheduler

end PriorityDonation
