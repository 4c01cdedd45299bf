import PriorityDonation.Graph.Transitions
import PriorityDonation.Interrupts
import PriorityDonation.Scheduler.Event
import PriorityDonation.Scheduler.Fault

/-!
# Schedulers and the calls made to them

A scheduler has bounds, fixed and valid for its lifetime, an interrupt flag and a donation graph.
A `Call` is made to a scheduler and yields a result or a fault, the scheduler afterwards, and the
events to report, in order. A fault ends the call and keeps what was done before it.
-/

namespace PriorityDonation

structure Scheduler where
  bounds : Bounds
  valid : bounds.Valid
  interrupts : InterruptFlag
  graph : Graph := {}

namespace Scheduler

/-- A scheduler with the standard bounds, interrupts enabled. -/
def standard : Scheduler where
  bounds := .standard
  valid := Bounds.standard_valid
  interrupts := {}

instance : Inhabited Scheduler := ⟨standard⟩

/-- A scheduler with the given bounds, unless they are out of order. -/
def build (bounds : Bounds) (interrupts : InterruptFlag) :
    Except BoundsError Scheduler × List Event :=
  if valid : bounds.Valid then (.ok { bounds, valid, interrupts }, [])
  else (.error (.badBounds bounds), [.boundsRejected (.badBounds bounds)])

end Scheduler

structure Outcome (α : Type) where
  result : Except Fault α
  scheduler : Scheduler
  events : List Event := []

def Call (α : Type) := Scheduler → Outcome α

namespace Call

variable {α β : Type}

@[inline] def run (call : Call α) (s : Scheduler) : Outcome α := call s

@[inline] protected def pure (a : α) : Call α := fun s => { result := .ok a, scheduler := s }

@[inline] protected def bind (call : Call α) (next : α → Call β) : Call β := fun s =>
  match call s with
  | ⟨.ok a, s, events⟩ =>
      match next a s with
      | ⟨result, s, more⟩ => ⟨result, s, events ++ more⟩
  | ⟨.error fault, s, events⟩ => ⟨.error fault, s, events⟩

instance : Monad Call where
  pure := Call.pure
  bind := Call.bind

/-- What is to be done last is done after a fault as well, and the fault stays the result. -/
instance : MonadFinally Call where
  tryFinally' call last := fun s =>
    match call s with
    | ⟨.ok a, s, events⟩ =>
        match last (some a) s with
        | ⟨result, s, more⟩ => ⟨result.map (a, ·), s, events ++ more⟩
    | ⟨.error fault, s, events⟩ =>
        match last none s with
        | ⟨_, s, more⟩ => ⟨.error fault, s, events ++ more⟩

/-- Refuses the call. -/
@[inline] def refuse (fault : Fault) (events : List Event) : Call α := fun s =>
  { result := .error fault, scheduler := s, events }

/-- Reports events. -/
@[inline] def report (events : List Event) : Call Unit := fun s =>
  { result := .ok (), scheduler := s, events }

@[inline] def inspect (f : Scheduler → α) : Call α := fun s =>
  { result := .ok (f s), scheduler := s }

@[inline] def onGraph (f : StateM Graph α) : Call α := fun s =>
  match s with
  | ⟨bounds, valid, interrupts, graph⟩ =>
      let (a, graph) := f graph
      { result := .ok a, scheduler := ⟨bounds, valid, interrupts, graph⟩ }

@[inline] def updateGraph (f : Graph → Graph) : Call Unit := onGraph fun g => ((), f g)

@[inline] def onInterrupts (f : InterruptFlag → α × InterruptFlag) : Call α := fun s =>
  let (a, interrupts) := f s.interrupts
  { result := .ok a, scheduler := { s with interrupts } }

/-- The control of the scheduler's own interrupt flag. -/
def interruptControl : InterruptControl Call := .ofFlag onInterrupts

instance : LawfulMonad Call := LawfulMonad.mk' Call
  (by
    intro α call
    funext s
    change Call.bind call Call.pure s = call s
    simp only [Call.bind, Call.pure]
    rcases call s with ⟨_ | _, _, _⟩ <;> simp)
  (by
    intro α β a next
    funext s
    change Call.bind (Call.pure a) next s = next a s
    simp [Call.bind, Call.pure])
  (by
    intro α β γ call next last
    funext s
    change Call.bind (Call.bind call next) last s =
      Call.bind call (fun a => Call.bind (next a) last) s
    simp only [Call.bind]
    rcases call s with ⟨_ | a, s, _⟩
    · rfl
    · simp only
      rcases next a s with ⟨_ | b, s, _⟩
      · rfl
      · simp)

end Call

namespace Scheduler

open Call

/-- Lets a guarded call pass only while interrupts are disabled. -/
def requireDisabled (call : GuardedCall) : Call Unit := do
  unless ← inspect (·.interrupts.disabled) do
    refuse .interruptsEnabled [.interruptsEnabled call]

/-- The slot of the live queue that a handle names. -/
def resolve (queue : QueueHandle) : Call Nat := do
  match ← inspect (·.graph.resolve? queue) with
  | some slot => return slot
  | none => refuse (.unknownQueue queue) [.queueUnknown queue]

/-- The slot of a task. A task not seen before starts with the initial priority. -/
def attach (task : TaskId) : Call Nat := do
  let initial ← inspect (·.bounds.initial)
  match ← inspect (·.graph.lookup? task) with
  | some slot => return slot
  | none =>
      let slot ← onGraph (Graph.attach task initial)
      report [.attached task slot initial]
      return slot

end Scheduler

end PriorityDonation
