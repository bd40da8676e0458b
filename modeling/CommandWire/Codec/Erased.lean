import CommandWire.Codec.Basic
import CommandWire.ValueType

/-!
# Codecs without a type

Where codecs for many types stand side by side, a codec works on `AnyValue`. Every typed codec
becomes such an `AnyCodec` (`Codec.erased`): it refuses values of other types and hides the type
of what it decodes.
-/

namespace CommandWire

/-- A codec whose values carry their types. -/
structure AnyCodec where
  /-- The type of the values that it is meant for. -/
  target : ValueType
  /-- The name in logs. -/
  name : String
  id : CodecId
  fixedWidth : Option Nat
  encode : Option AnyValue → Except CodecError (Option Bytes)
  decode : Option Bytes → Except CodecError (Decoded AnyValue)

namespace AnyCodec

/-- The two are the same codec for the same type. -/
def isSame (a b : AnyCodec) : Bool := a.id = b.id ∧ a.target = b.target

end AnyCodec

/-- A decoded value, if it is of the wanted type. -/
def Decoded.narrow (α : Type) [Carriable α] : Decoded AnyValue → Except CodecError (Decoded α)
  | .value any =>
    match any.as? α with
    | some a => .ok (.value a)
    | none => .error (.typeMismatch (ValueType.of α).name)
  | .absent => .ok .absent
  | .skipped => .ok .skipped

/-- The codec for the data of the target type, which is known only at run time. -/
def AnyCodec.typed (codec : AnyCodec) : Codec codec.target.Data :=
  let _ := codec.target.carriable
  { name := codec.name
    fixedWidth := codec.fixedWidth
    encode := fun value => codec.encode (value.map AnyValue.of)
    decode := fun bytes =>
      match codec.decode bytes with
      | .error failure => .error failure
      | .ok decoded => decoded.narrow codec.target.Data }

/-- The codec for values that carry their type. -/
def Codec.erased {α : Type} [Carriable α] (codec : Codec α) : AnyCodec where
  target := .of α
  name := codec.name
  id := codec.id
  fixedWidth := codec.fixedWidth
  encode
    | none => codec.encode none
    | some any =>
      match any.as? α with
      | some value => codec.encode (some value)
      | none => .error (.typeMismatch (ValueType.of α).name)
  decode bytes := (codec.decode bytes).map (·.map AnyValue.of)

end CommandWire
