import PriorityDonation.Bounds.Basic
import PriorityDonation.Text.Words
import PriorityDonation.Text.Decimal

/-!
# Bounds on a command line

A word that begins with the key of a limit and an equals sign assigns that limit; all other words
belong to other readers. Assignments are taken from left to right, so the last one of a limit
counts, and the first one whose value is no priority ends the reading. The order of the limits is
checked only when every word has been read.
-/

namespace PriorityDonation

/-- The priority a signed decimal numeral denotes, if it is in range. -/
def priority? (digits : List Char) : Option Priority :=
  match Text.integer? digits with
  | some n => if Int32.minValue.toInt ≤ n ∧ n ≤ Int32.maxValue.toInt then some (.ofInt n) else none
  | none => none

/-- The limit a word assigns, with the text of the value. -/
def Limit.assignment? (word : List Char) : Option (Limit × List Char) :=
  [lowest, initial, highest].findSome? fun limit =>
    ((limit.key ++ "=").toList.isPrefixOf? word).map (limit, ·)

/-- What was read from a command line: the assignments taken, and the limit whose value ended the
reading, if one did. -/
structure BoundsReading where
  assigned : List (Limit × Priority)
  malformed : Option Limit
deriving DecidableEq, Repr

namespace BoundsReading

def ofAssignments : List (Limit × List Char) → BoundsReading
  | [] => ⟨[], none⟩
  | (limit, digits) :: rest =>
      match priority? digits with
      | none => ⟨[], some limit⟩
      | some priority =>
          let reading := ofAssignments rest
          { reading with assigned := (limit, priority) :: reading.assigned }

def ofCommandLine (line : String) : BoundsReading :=
  ofAssignments ((Text.words line.toList).filterMap Limit.assignment?)

/-- The standard bounds with every assignment taken. -/
def bounds (reading : BoundsReading) : Bounds :=
  reading.assigned.foldl (fun bounds (limit, priority) => bounds.set limit priority) .standard

def result (reading : BoundsReading) : Except BoundsError Bounds :=
  match reading.malformed with
  | some limit => .error (.badValue limit)
  | none => reading.bounds.checked

end BoundsReading

end PriorityDonation
