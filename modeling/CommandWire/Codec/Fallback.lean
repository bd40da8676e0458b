import CommandWire.Codec.Erased
import CommandWire.Json.Read
import CommandWire.Json.Write

/-!
# The fallback codec

Every carriable type has a codec of last resort, which writes JSON. Not every value can be
written so that it can be read again: an infinite double is written as `null`, and deep lists nest
too deeply. So the codec reads back what it has written, and refuses to encode a value whose text
cannot be read.
-/

namespace CommandWire

/-- The text of a value, if it can be read back. -/
def jsonBytes {α : Type} [Carriable α] (value : α) : Except CodecError Bytes :=
  let type := ValueType.of α
  let text := Json.write type.shape (Carriable.toData value)
  match Json.read type.shape text with
  | .ok _ => .ok text
  | .error failure => .error (.fallback type.name .encode failure)

/-- The value of a text. -/
def ofJsonBytes (α : Type) [Carriable α] (bytes : Bytes) : Except CodecError α :=
  let type := ValueType.of α
  match Json.read type.shape bytes with
  | .ok data => .ok (Carriable.ofData data)
  | .error failure => .error (.fallback type.name .decode failure)

def Codec.fallback (α : Type) [Carriable α] : Codec α :=
  ofBytes (DisplayName.fallbackCodec (ValueType.of α).name) jsonBytes (ofJsonBytes α)

namespace ValueType

/-- The fallback codec for a type that is known only at run time. -/
def fallback (type : ValueType) : AnyCodec :=
  let _ := type.carriable
  (Codec.fallback type.Data).erased

end ValueType

end CommandWire
