import Mathlib.Control.Monad.Basic
import PriorityDonation.Proofs.Refusals

/-!
# Programs and their sections without interrupts

A program performs operations and may put any part of itself inside a section without interrupts, or
between disabling interrupts and restoring them. What it does next may depend on the answers so far,
and a fault is an answer like any other.

Restoring never disables interrupts, so an inner section cannot harm an outer one only because it
finds them disabled and hands that back. Operations keep the flag, those among them that have a
section of their own included. By induction on the program every part keeps the flag, and so the
parts inside a section run with interrupts disabled from beginning to end.
-/

namespace PriorityDonation

/-- A program made of operations and sections, nested in any way. -/
inductive Program : Type → Type 1
  | done {α : Type} (value : α) : Program α
  | perform (operation : Operation) : Program (Except Fault Reply)
  | withoutInterrupts {α : Type} (body : Program α) : Program α
  /-- Disables interrupts, runs the body and restores them. -/
  | disabling {α : Type} (body : Program α) : Program α
  | andThen {α β : Type} (first : Program α) (next : α → Program β) : Program β

/-- An operation that a program performed inside so many sections, and its answer. -/
structure Performed where
  depth : Nat
  operation : Operation
  answer : Except Fault Reply

namespace Call

variable {α β : Type} {s : Scheduler}

/-- Makes a call and answers with its fault if it is refused. -/
def attempt (call : Call α) : Call (Except Fault α) := fun s =>
  match call.run s with
  | ⟨result, s, events⟩ => ⟨.ok result, s, events⟩

@[simp] theorem effect_attempt (call : Call α) :
    call.attempt.effect s = (.ok (call.effect s).1, (call.effect s).2) := rfl

/-- A section leaves interrupts enabled if they were before, or if its body enabled them. -/
theorem enabled_withoutInterrupts (body : Call α) :
    ((withoutInterrupts interruptControl body).effect s).2.interrupts.enabled = true ↔
      s.interrupts.enabled = true ∨
        (body.effect { s with interrupts := ⟨false⟩ }).2.interrupts.enabled = true := by
  rw [effect_withoutInterrupts, InterruptFlag.restore, Bool.or_eq_true]

end Call

namespace Program

variable {α β : Type}

/-- Runs a program that stands inside so many sections, and records what it performs. -/
def call : {α : Type} → Program α → Nat → Call (α × List Performed)
  | _, done value, _ => return (value, [])
  | _, perform operation, depth => do
      let answer ← operation.perform.attempt
      return (answer, [⟨depth, operation, answer⟩])
  | _, withoutInterrupts body, depth =>
      PriorityDonation.withoutInterrupts Call.interruptControl (body.call (depth + 1))
  | _, disabling body, depth => do
      let wereEnabled ← Call.interruptControl.disable
      let result ← body.call (depth + 1)
      Call.interruptControl.restore wereEnabled
      return result
  | _, andThen first next, depth => do
      let (a, earlier) ← first.call depth
      let (b, later) ← (next a).call depth
      return (b, earlier ++ later)

/-- What becomes of a scheduler when a program runs to its end inside so many sections: the flag is
as it was, and where interrupts were disabled no operation found them enabled. -/
structure Keeps (depth : Nat) (s s' : Scheduler) (performed : List Performed) : Prop where
  interrupts : s'.interrupts = s.interrupts
  coherent : s'.graph.Coherent s'.bounds
  admitted : ∀ entry ∈ performed, s.interrupts.enabled = false ∨ depth < entry.depth →
    entry.answer ≠ .error .interruptsEnabled

variable {s s' s'' : Scheduler} {depth : Nat} {performed earlier later : List Performed}

theorem Keeps.trans (first : Keeps depth s s' earlier) (second : Keeps depth s' s'' later) :
    Keeps depth s s'' (earlier ++ later) := by
  refine ⟨second.interrupts.trans first.interrupts, second.coherent, fun entry hentry h => ?_⟩
  rcases List.mem_append.mp hentry with hentry | hentry
  · exact first.admitted entry hentry h
  · exact second.admitted entry hentry (first.interrupts ▸ h)

/-- What ran with interrupts disabled was admitted throughout, and restoring the flag afterwards
brings back what it was. -/
theorem Keeps.restored
    (inner : Keeps (depth + 1) { s with interrupts := ⟨false⟩ } s' performed) :
    Keeps depth s { s' with interrupts := s'.interrupts.restore s.interrupts.enabled }
      performed := by
  refine ⟨?_, inner.coherent, fun entry hentry _ => inner.admitted entry hentry (Or.inl rfl)⟩
  rw [inner.interrupts]
  exact InterruptFlag.restore_disabled s.interrupts

theorem keeps_operation (operation : Operation) (c : s.graph.Coherent s.bounds) :
    Keeps depth s (operation.perform.effect s).2
      [⟨depth, operation, (operation.perform.effect s).1⟩] := by
  have follows := operation.follows c
  refine ⟨follows.interrupts, ?_, fun entry hentry h => ?_⟩
  · rw [follows.bounds]
    exact c.steps s.valid follows.steps
  · obtain rfl := List.mem_singleton.mp hentry
    have disabled := h.resolve_right (Nat.lt_irrefl depth)
    intro hanswer
    cases ((operation.fails c.toConsistent).error_iff _).mp hanswer with
    | interruptsEnabled _ enabled => simp [disabled] at enabled
    | argument _ _ objects => cases objects

/-- A program runs to its end and keeps the flag, whatever its operations answer. -/
theorem runs (program : Program α) (depth : Nat) (c : s.graph.Coherent s.bounds) :
    ∃ value performed s', (program.call depth).effect s = (.ok (value, performed), s') ∧
      Keeps depth s s' performed := by
  induction program generalizing s depth with
  | done value =>
    exact ⟨value, [], s, rfl, rfl, c, fun _ hentry => absurd hentry List.not_mem_nil⟩
  | perform operation =>
    refine ⟨(operation.perform.effect s).1, _, _, ?_, keeps_operation operation c⟩
    rw [call, Call.effect_bind, Call.effect_attempt]
    rfl
  | withoutInterrupts body ih =>
    obtain ⟨value, performed, s', heffect, inner⟩ :=
      ih (s := { s with interrupts := ⟨false⟩ }) (depth + 1) c
    refine ⟨value, performed, _, ?_, inner.restored⟩
    rw [call, Call.effect_withoutInterrupts, heffect]
  | disabling body ih =>
    obtain ⟨value, performed, s', heffect, inner⟩ :=
      ih (s := { s with interrupts := ⟨false⟩ }) (depth + 1) c
    refine ⟨value, performed, _, ?_, inner.restored⟩
    rw [call, Call.effect_bind, Call.effect_disable]
    simp only [Call.effect_bind, heffect]
    rfl
  | andThen first next ihFirst ihNext =>
    obtain ⟨a, earlier, s', hfirst, before⟩ := ihFirst depth c
    obtain ⟨b, later, s'', hnext, after⟩ := ihNext a depth before.coherent
    refine ⟨b, earlier ++ later, s'', ?_, before.trans after⟩
    rw [call, Call.effect_bind, hfirst]
    simp only [Call.effect_bind, hnext]
    rfl

end Program

namespace Scheduler

variable {s : Scheduler}

/-- A program of operations, sections and pairs that disable and restore leaves the interrupt flag
as it found it, and no operation inside a section is refused for interrupts. Around any other body,
a section enables interrupts in the end if they were enabled before or the body enabled them. -/
theorem flag_restored (reachable : s.Reachable) (interrupts : InterruptFlag) {α β : Type}
    (program : Program α) (body : Call β) (t : Scheduler) :
    let outcome := (program.call 0).run { s with interrupts }
    outcome.scheduler.interrupts = interrupts ∧
    (∃ value performed, outcome.result = .ok (value, performed) ∧
      ∀ entry ∈ performed, 0 < entry.depth → entry.answer ≠ .error .interruptsEnabled) ∧
    (((withoutInterrupts Call.interruptControl body).run t).scheduler.interrupts.enabled = true ↔
      t.interrupts.enabled = true ∨
        (body.run { t with interrupts := ⟨false⟩ }).scheduler.interrupts.enabled = true) := by
  obtain ⟨value, performed, s', heffect, keeps⟩ :=
    program.runs (s := { s with interrupts }) 0 reachable.coherent
  have hresult := congrArg Prod.fst heffect
  have hscheduler := congrArg Prod.snd heffect
  refine ⟨?_, ⟨value, performed, hresult, fun entry hentry h => ?_⟩, ?_⟩
  · exact (congrArg Scheduler.interrupts hscheduler).trans keeps.interrupts
  · exact keeps.admitted entry hentry (Or.inr h)
  · exact Call.enabled_withoutInterrupts body

/-- A call made too early, and then a section in which one call is refused, another one finds no
room, and a third one is made inside a pair of its own. -/
def nestedSections : Program (Except Fault Reply) :=
  .andThen (.perform (.priority ⟨1⟩)) fun _ =>
    .withoutInterrupts <| .andThen (.perform (.holder ⟨7, 0⟩)) fun _ =>
      .andThen (.perform (.setPriority ⟨1⟩ 0)) fun _ =>
        .andThen (.disabling (.perform (.decreasePriority ⟨1⟩))) fun _ => .perform (.priority ⟨1⟩)

theorem flag_restored_nestedSections :
    ((nestedSections.call 0).run standard).scheduler.interrupts = ⟨true⟩ ∧
    (∃ value performed, ((nestedSections.call 0).run standard).result = .ok (value, performed) ∧
      performed.map (fun entry => (entry.depth, entry.answer)) =
        [(0, .error .interruptsEnabled), (1, .error (.unknownQueue ⟨7, 0⟩)), (1, .ok .done),
          (2, .ok (.flag false)), (1, .ok (.priority 0))] ∧
      ∀ entry ∈ performed, 0 < entry.depth → entry.answer ≠ .error .interruptsEnabled) ∧
    ((withoutInterrupts Call.interruptControl
      (Call.onInterrupts fun flag => ((), flag.enable))).run
        { standard with interrupts := ⟨false⟩ }).scheduler.interrupts.enabled = true := by
  have reachable : standard.Reachable := .fresh (build_of_valid Bounds.standard_valid {})
  obtain ⟨hflag, ⟨value, performed, hresult, hadmitted⟩, hbody⟩ := flag_restored reachable ⟨true⟩
    nestedSections (Call.onInterrupts fun flag => ((), flag.enable))
    { standard with interrupts := ⟨false⟩ }
  have hperformed : ((nestedSections.call 0).run standard).result.toOption.map
      (fun result => result.2.map fun entry => (entry.depth, entry.answer)) =
        some [(0, .error .interruptsEnabled), (1, .error (.unknownQueue ⟨7, 0⟩)), (1, .ok .done),
          (2, .ok (.flag false)), (1, .ok (.priority 0))] := by decide +kernel
  have hresult' : ((nestedSections.call 0).run standard).result = .ok (value, performed) := hresult
  rw [hresult'] at hperformed
  exact ⟨hflag, ⟨value, performed, hresult', Option.some.inj hperformed, hadmitted⟩,
    hbody.mpr (Or.inr rfl)⟩

end Scheduler

end PriorityDonation
