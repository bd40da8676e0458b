import CommandWire.Bytes
import CommandWire.Codec.Error
import CommandWire.Word

/-!
# Cursors

A frame need not be taken apart to be read: a *cursor* is the frame and the position of the next
byte. The arithmetic of a cursor is that of a machine, in words of 64 bits. Where a number does not
fit into a word, or a slice goes past the end of the frame, the machine stops (`Crash`), and there
is no answer and no cursor any more; this is not a failure that a caller could go on after.
-/

namespace CommandWire

/-- The bytes of a frame, not more than a word can count. -/
structure FrameBuffer where
  bytes : Bytes
  countable : bytes.length < UInt64.size

/-- A frame and the position of the next byte in it. -/
structure FrameCursor where
  buffer : FrameBuffer
  position : UInt64

namespace FrameBuffer

def length (buffer : FrameBuffer) : UInt64 := .ofNat buffer.bytes.length

/-- The bytes from one position up to another one. -/
def slice (buffer : FrameBuffer) (start stop : UInt64) : Except Crash Bytes :=
  if stop < start ∨ buffer.length < stop then .error .outOfBounds
  else .ok ((buffer.bytes.take stop.toNat).drop start.toNat)

end FrameBuffer

namespace FrameCursor

/-- At the beginning of the frame. -/
def start (buffer : FrameBuffer) : FrameCursor := ⟨buffer, 0⟩

/-- At the beginning of these bytes, unless they are too many for a frame. -/
def ofBytes? (bytes : Bytes) : Option FrameCursor :=
  if countable : bytes.length < UInt64.size then some (start ⟨bytes, countable⟩) else none

/-- The bytes that are left. -/
def unread (cursor : FrameCursor) : Bytes := cursor.buffer.bytes.drop cursor.position.toNat

/-- How many bytes are left, as the machine counts them. -/
def remaining (cursor : FrameCursor) : Except Crash UInt64 :=
  Crash.sub cursor.buffer.length cursor.position

end FrameCursor

/-- A reading operation: a result, or why there is none, and where the cursor is then. -/
abbrev CursorRead (α : Type) := ExceptT CodecError (StateT FrameCursor (Except Crash)) α

namespace CursorRead

/-- The next bytes, so many of them. -/
def take (field : String) (length : UInt64) : CursorRead Bytes := fun cursor => do
  let remaining ← cursor.remaining
  if remaining < length then
    return (.error (.truncated field length.toNat remaining.toNat), cursor)
  else
    let stop ← Crash.add cursor.position length
    let bytes ← cursor.buffer.slice cursor.position stop
    return (.ok bytes, { cursor with position := stop })

/-- The next byte. -/
def byte (field : String) : CursorRead UInt8 := do
  match ← take field 1 with
  | first :: _ => return first
  | [] => fun _ => .error .outOfBounds

/-- A name with its length in front. -/
def name (field : String) : CursorRead String := do
  let length ← byte field
  let bytes ← take field length.toUInt64
  match if bytes.isAscii then bytes.toText? else none with
  | some name => return name
  | none => throw (.nonAscii field)

/-- A block with its length in front; an empty one is a missing argument. -/
def block (field : String) : CursorRead (Option Bytes) := do
  let length ← byte field
  if length = 0 then return none
  else return some (← take field length.toUInt64)

/-- Nothing may be left. -/
def done : CursorRead Unit := fun cursor => do
  let remaining ← cursor.remaining
  if remaining = 0 then return (.ok (), cursor)
  else return (.error (.trailingBytes remaining.toNat), cursor)

end CursorRead

end CommandWire
