import PriorityDonation.Log.Line

/-!
# The bytes of a line

A line is put together in a buffer of 512 bytes. A piece is copied whole if there is room for it.
Otherwise it is copied up to the last character boundary that the room reaches, and the failure
stops the format that the piece belongs to. The heading and the message are formatted one after the
other, each without a look at how the other ended. What a buffer says is the text that its bytes
decode to, or nothing if they decode to none.
-/

namespace PriorityDonation

namespace Buffer

/-- The last character boundary of a text at or below a byte index. -/
def lastBoundary (s : String) : Nat → Nat
  | 0 => 0
  | cut + 1 => if String.Pos.Raw.isValid s ⟨cut + 1⟩ then cut + 1 else lastBoundary s cut

/-- Copies a piece, or what there is room for, and tells whether the whole piece was copied. -/
def write (bytes : ByteArray) (piece : String) : ByteArray × Bool :=
  let room := Line.capacity - bytes.size
  if piece.utf8ByteSize ≤ room then (bytes ++ piece.toByteArray, true)
  else (bytes ++ piece.toByteArray.extract 0 (lastBoundary piece room), false)

/-- Copies pieces until one of them fails. -/
def format : List String → ByteArray → ByteArray
  | [], bytes => bytes
  | piece :: rest, bytes =>
      match write bytes piece with
      | (bytes, true) => format rest bytes
      | (bytes, false) => bytes

def text (bytes : ByteArray) : String := (String.fromUTF8? bytes).getD ""

end Buffer

/-- The bytes that hold the line of a record. -/
def Record.bytes (record : Record) (sequence : Nat) : ByteArray :=
  Buffer.format record.pieces (Buffer.format (heading record.level sequence) .empty)

end PriorityDonation
