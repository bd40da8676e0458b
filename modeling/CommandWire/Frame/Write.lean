import CommandWire.Bytes
import CommandWire.Codec.Error

/-!
# Writing frames

A frame is put together from single bytes, raw bytes, names and blocks. Names and blocks carry
their length in one byte in front; a block of length zero stands for a missing argument, so an
argument that is there must not be empty.

The state of a writing is the bytes so far. Everything is checked before anything is written: an
operation that fails leaves them as they were.
-/

namespace CommandWire

/-- A writing operation: success, or why there is none, and the bytes so far. -/
abbrev FrameWrite (α : Type) := ExceptT CodecError (StateM Bytes) α

namespace FrameWrite

/-- Raw bytes. -/
def raw (bytes : Bytes) : FrameWrite Unit := fun written => (.ok (), written ++ bytes)

def byte (b : UInt8) : FrameWrite Unit := raw [b]

/-- Bytes with their length in front. -/
def measured (bytes : Bytes) : FrameWrite Unit := raw (UInt8.ofNat bytes.length :: bytes)

/-- A name, which must be ASCII and not longer than 255 bytes. -/
def name (field name : String) : FrameWrite Unit :=
  let bytes := Bytes.ofText name
  if !bytes.isAscii then throw (.nonAscii field)
  else if 255 < bytes.length then throw (.nameTooLong field bytes.length)
  else measured bytes

/-- The block of an argument, which must not be empty and not longer than the limit. -/
def block (index : Nat) (payload : Option Bytes) (limit : UInt8) : FrameWrite Unit :=
  match payload with
  | none => byte 0
  | some bytes =>
    if bytes.isEmpty then throw (.emptyArgument index)
    else if limit.toNat < bytes.length then
      throw (.argumentTooLarge index bytes.length limit.toNat)
    else measured bytes

end FrameWrite

end CommandWire
