/-!
# Log levels

Levels run from `panic`, the gravest, to `trace`. A level is at most another when it is at least
as grave, so a logger that admits a level admits everything below it.
-/

namespace PriorityDonation

inductive Level
  | panic
  | fatal
  | error
  | warn
  | info
  | debug
  | trace
deriving DecidableEq, Repr

namespace Level

def rank : Level → Nat
  | panic => 0
  | fatal => 1
  | error => 2
  | warn => 3
  | info => 4
  | debug => 5
  | trace => 6

instance : LE Level := ⟨fun a b => a.rank ≤ b.rank⟩

instance (a b : Level) : Decidable (a ≤ b) := inferInstanceAs (Decidable (a.rank ≤ b.rank))

def name : Level → String
  | panic => "PANIC"
  | fatal => "FATAL"
  | error => "ERROR"
  | warn => "WARN"
  | info => "INFO"
  | debug => "DEBUG"
  | trace => "TRACE"

/-- The words that name a level, in lower case. -/
def spellings : List (List Char × Level) :=
  [("panic".toList, panic), ("fatal".toList, fatal), ("error".toList, error),
    ("warn".toList, warn), ("warning".toList, warn), ("info".toList, info),
    ("debug".toList, debug), ("trace".toList, trace)]

/-- The level a word names; the case of ASCII letters does not matter. -/
def ofWord? (word : List Char) : Option Level :=
  spellings.lookup (word.map Char.toLower)

theorem ofWord?_name (level : Level) : ofWord? level.name.toList = some level := by
  cases level <;> decide

end Level

end PriorityDonation
