/-!
# Priority bounds

A scheduler is given three priorities for its lifetime: the lowest and the highest a task may have,
and the one a task starts with. Bounds are accepted when they stand in that order. Larger
priorities run first.
-/

namespace PriorityDonation

abbrev Priority := Int32

structure Bounds where
  lowest : Priority
  initial : Priority
  highest : Priority
deriving DecidableEq, Repr

/-- One of the three limits. -/
inductive Limit
  | lowest
  | initial
  | highest
deriving DecidableEq, Repr

/-- Why bounds were refused. -/
inductive BoundsError
  /-- The value given for a limit is no priority. -/
  | badValue (limit : Limit)
  /-- The limits are out of order. -/
  | badBounds (bounds : Bounds)
deriving DecidableEq, Repr

namespace Limit

/-- The key of a limit on the command line. -/
def key : Limit → String
  | lowest => "prio_min"
  | initial => "prio_default"
  | highest => "prio_max"

end Limit

namespace Bounds

def standard : Bounds := ⟨0, 1, 7⟩

def Valid (bounds : Bounds) : Prop :=
  bounds.lowest ≤ bounds.initial ∧ bounds.initial ≤ bounds.highest

instance (bounds : Bounds) : Decidable bounds.Valid :=
  inferInstanceAs (Decidable (_ ∧ _))

theorem standard_valid : standard.Valid := by decide

/-- A priority that a task may be given under the bounds. -/
instance : Membership Priority Bounds where
  mem bounds priority := bounds.lowest ≤ priority ∧ priority ≤ bounds.highest

instance (bounds : Bounds) (priority : Priority) : Decidable (priority ∈ bounds) :=
  inferInstanceAs (Decidable (bounds.lowest ≤ priority ∧ priority ≤ bounds.highest))

theorem mem_iff {bounds : Bounds} {priority : Priority} :
    priority ∈ bounds ↔ bounds.lowest ≤ priority ∧ priority ≤ bounds.highest := Iff.rfl

theorem Valid.initial_mem {bounds : Bounds} (h : bounds.Valid) : bounds.initial ∈ bounds := h

/-- The bounds themselves if they are valid. -/
def checked (bounds : Bounds) : Except BoundsError Bounds :=
  if bounds.Valid then .ok bounds else .error (.badBounds bounds)

def get (bounds : Bounds) : Limit → Priority
  | .lowest => bounds.lowest
  | .initial => bounds.initial
  | .highest => bounds.highest

def set (bounds : Bounds) (limit : Limit) (priority : Priority) : Bounds :=
  match limit with
  | .lowest => { bounds with lowest := priority }
  | .initial => { bounds with initial := priority }
  | .highest => { bounds with highest := priority }

theorem get_set (bounds : Bounds) (limit other : Limit) (priority : Priority) :
    (bounds.set limit priority).get other =
      if limit = other then priority else bounds.get other := by
  cases limit <;> cases other <;> rfl

end Bounds

def BoundsError.message : BoundsError → String
  | .badValue limit => s!"malformed value for {limit.key}"
  | .badBounds bounds =>
      "priority bounds must satisfy min <= default <= max " ++
        s!"(got {bounds.lowest} / {bounds.initial} / {bounds.highest})"

end PriorityDonation
