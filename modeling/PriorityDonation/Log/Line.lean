import PriorityDonation.Log.Level
import PriorityDonation.Text.Layout

/-!
# Log lines

A record is a level and a message given in pieces. Its line is the sequence number, the level and
the message, written piece by piece into a buffer of 512 bytes. The first piece that does not fit
is cut before the character that would run over, and nothing is written after a cut; otherwise a
short later piece could slip into the bytes left over.
-/

namespace PriorityDonation

structure Record where
  level : Level
  pieces : List String
deriving DecidableEq, Repr

/-- A line under construction; `closed` is set once a piece has been cut. -/
structure Line where
  text : String := ""
  closed : Bool := false

namespace Line

def capacity : Nat := 512

def room (line : Line) : Nat := capacity - line.text.utf8ByteSize

def write (line : Line) (piece : String) : Line :=
  if line.closed then line
  else if piece.utf8ByteSize ≤ line.room then { line with text := line.text ++ piece }
  else
    { text := line.text ++ String.ofList (Text.fitting line.room piece.toList)
      closed := true }

def ofPieces (pieces : List String) : Line := pieces.foldl write {}

end Line

namespace Record

/-- What stands before the message: the sequence number in six columns and the level in five. -/
def heading (level : Level) (sequence : Nat) : List String :=
  ["[", Text.alignRight 6 (toString sequence), "] [", Text.alignLeft 5 level.name, "] "]

def line (record : Record) (sequence : Nat) : String :=
  (Line.ofPieces (heading record.level sequence ++ record.pieces)).text

end Record

end PriorityDonation
