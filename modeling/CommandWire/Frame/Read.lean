import CommandWire.Bytes
import CommandWire.Codec.Error

/-!
# Reading frames

A frame is read from its front. The state of a reading is the bytes that are left; an operation
that asks for more bytes than there are consumes none of them. A name or a block is read in two
steps, so if the second one fails, its length byte is gone.
-/

namespace CommandWire

/-- A reading operation: a result, or why there is none, and the bytes that are left. -/
abbrev FrameRead (α : Type) := ExceptT CodecError (StateM Bytes) α

namespace FrameRead

/-- The next bytes, so many of them. -/
def take (field : String) (length : Nat) : FrameRead Bytes := fun unread =>
  if unread.length < length then (.error (.truncated field length unread.length), unread)
  else (.ok (unread.take length), unread.drop length)

/-- The next byte. -/
def byte (field : String) : FrameRead UInt8
  | [] => (.error (.truncated field 1 0), [])
  | b :: unread => (.ok b, unread)

/-- A name with its length in front. -/
def name (field : String) : FrameRead String := do
  let length ← byte field
  let bytes ← take field length.toNat
  match if bytes.isAscii then bytes.toText? else none with
  | some name => return name
  | none => throw (.nonAscii field)

/-- A block with its length in front; an empty one is a missing argument. -/
def block (field : String) : FrameRead (Option Bytes) := do
  let length ← byte field
  if length = 0 then return none
  else return some (← take field length.toNat)

/-- Nothing may be left. -/
def done (unread : Bytes) : Except CodecError Unit :=
  if unread.isEmpty then .ok () else .error (.trailingBytes unread.length)

end FrameRead

end CommandWire
