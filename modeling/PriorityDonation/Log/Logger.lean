import PriorityDonation.Log.Line

/-!
# The logger

A logger numbers every record at or below its threshold and hands the finished line to its sink. A
record that passes while no sink is installed is counted as dropped.

A sink may itself log while a line is being delivered to it. What it logs goes through the same
logger, to the same sink, before the delivery ends. `depth` bounds how far such answers nest: at
depth zero a sink only listens.
-/

namespace PriorityDonation

/-- The listener to which finished lines go, and the records it logs in answer to a line. -/
structure Sink where
  answer : Level → String → List Record := fun _ _ => []
  depth : Nat := 0

/-- One line handed to a sink. -/
structure Delivery where
  level : Level
  line : String
deriving DecidableEq, Repr

structure Logger where
  threshold : Level := .info
  sink : Option Sink := none
  emitted : Nat := 0
  dropped : Nat := 0

namespace Sink

/-- A sink that only listens. -/
def listener : Sink := {}

/-- A sink that follows each line with a warning of its size in bytes, except lines that speak of
such a warning already. -/
def sizeReporter : Sink where
  answer _ line :=
    if line.contains "relogged" then []
    else [⟨.warn, [s!"relogged {line.utf8ByteSize} bytes"]⟩]
  depth := 1

end Sink

namespace Logger

def admits (logger : Logger) (level : Level) : Bool := level ≤ logger.threshold

/-- Numbers a record that passed the threshold. Without a sink it counts as dropped; with one, its
line begins a delivery, and `answers` says how the logger takes what the sink logs meanwhile. -/
def accept (answers : List Record → StateM Logger (List Delivery)) (record : Record) :
    StateM Logger (List Delivery) := fun logger =>
  let sequence := logger.emitted
  let numbered := { logger with emitted := sequence + 1 }
  match logger.sink with
  | none => ([], { numbered with dropped := logger.dropped + 1 })
  | some sink =>
      let line := record.line sequence
      let (nested, after) := answers (sink.answer record.level line) numbered
      (⟨record.level, line⟩ :: nested, after)

/-- Takes a record whose deliveries may nest `depth` deep below its own. Deliveries are listed in
the order in which they begin. -/
def takeWithin (depth : Nat) (record : Record) : StateM Logger (List Delivery) := fun logger =>
  if logger.admits record.level then
    match depth with
    | 0 => accept (fun _ => pure []) record logger
    | depth + 1 =>
        accept (fun records => List.flatten <$> records.mapM (takeWithin depth)) record logger
  else ([], logger)

/-- Logs one record and lists what reaches the sink because of it. -/
def take (record : Record) : StateM Logger (List Delivery) := fun logger =>
  takeWithin (logger.sink.elim 0 Sink.depth) record logger

/-- Logs records in order. -/
def takeAll (records : List Record) : StateM Logger (List Delivery) :=
  List.flatten <$> records.mapM take

end Logger

end PriorityDonation
