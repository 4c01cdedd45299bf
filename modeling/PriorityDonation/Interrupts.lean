/-!
# The interrupt flag

The state of a scheduler has no lock of its own: it is changed only while interrupts are disabled.
Disabling says whether interrupts were enabled before, and restoring takes that answer back. It
enables interrupts or leaves them alone, and never disables them, so sections may nest.
-/

namespace PriorityDonation

structure InterruptFlag where
  enabled : Bool := true
deriving DecidableEq, Repr

namespace InterruptFlag

def disable (flag : InterruptFlag) : Bool × InterruptFlag := (flag.enabled, ⟨false⟩)

def restore (wereEnabled : Bool) (flag : InterruptFlag) : InterruptFlag :=
  ⟨wereEnabled || flag.enabled⟩

def enable (_ : InterruptFlag) : InterruptFlag := ⟨true⟩

def disabled (flag : InterruptFlag) : Bool := !flag.enabled

end InterruptFlag

/-- How a program reaches the interrupt flag that guards its state. -/
structure InterruptControl (m : Type → Type) where
  disable : m Bool
  restore : Bool → m Unit

/-- Runs a body with interrupts disabled and restores the flag afterwards, also if the body
fails. -/
@[inline] def withoutInterrupts {m : Type → Type} [Monad m] [MonadFinally m] {α : Type}
    (interrupts : InterruptControl m) (body : m α) : m α := do
  let wereEnabled ← interrupts.disable
  try body
  finally interrupts.restore wereEnabled

/-- The control of a flag that the program keeps as part of its state. -/
def InterruptControl.ofFlag {m : Type → Type}
    (onFlag : {α : Type} → (InterruptFlag → α × InterruptFlag) → m α) : InterruptControl m where
  disable := onFlag InterruptFlag.disable
  restore wereEnabled := onFlag fun flag => ((), flag.restore wereEnabled)

end PriorityDonation
