import CommandWire.Codec.Erased

/-!
# The publish scope

While one command goes out to several receivers, the same value is encoded and the same bytes are
decoded again and again. A publish scope remembers what came out, as long as it is not cleared.

What counts as the same is decided by place and not by content: a value is known by its address
and its type, bytes by the address and the length of the view on them, and both together with the
codec. That is sound because an entry keeps the value or the view that it was made for, and so the
address belongs to nothing else meanwhile.

Failures are not remembered. Every operation also tells which codec it has asked (`Call`).
-/

namespace CommandWire

/-- A value at a place in memory. Copies of the handle have the same address. -/
structure Shared (α : Type) where
  address : Nat
  value : α

/-- The same place, seen as a value of another type. -/
def Shared.map {α β : Type} (f : α → β) (s : Shared α) : Shared β := ⟨s.address, f s.value⟩

/-- A view on bytes at a place in memory. -/
structure View where
  address : Nat
  bytes : Bytes

/-- The part of a view from one position to another. An empty part keeps its position. -/
def View.slice (v : View) (start stop : Nat) : View :=
  ⟨v.address + start, (v.bytes.take stop).drop start⟩

/-- A question put to a codec. -/
inductive Call where
  /-- A value of this type was to be encoded. -/
  | encode (codec : CodecId) (type : ValueType)
  | decode (codec : CodecId)
deriving DecidableEq

/-- The question reaches what is behind the codec. A value of another type is refused before. -/
def Call.reaches (codec : AnyCodec) : Call → Bool
  | encode id type => id = codec.id && type = codec.target
  | decode id => id = codec.id

namespace PublishScope

/-- By what an encoding is found again. -/
structure EncodedKey where
  address : Nat
  type : ValueType
  codec : CodecId
deriving DecidableEq

structure KnownEncoding where
  key : EncodedKey
  /-- The value, kept so that its address stays taken. -/
  pinned : Shared AnyValue
  bytes : Option Bytes

/-- By what a decoded value is found again. -/
structure DecodedKey where
  address : Nat
  length : Nat
  codec : CodecId
deriving DecidableEq

structure KnownValue where
  key : DecodedKey
  /-- The view, kept so that its address stays taken. -/
  pinned : View
  value : Decoded (Shared AnyValue)

end PublishScope

/-- The encodings and the decoded values that are remembered. -/
structure PublishScope where
  encoded : List PublishScope.KnownEncoding
  decoded : List PublishScope.KnownValue

namespace PublishScope

/-- Nothing is remembered. -/
def empty : PublishScope := ⟨[], []⟩

/-- The number of entries of both kinds. -/
def size (s : PublishScope) : Nat := s.encoded.length + s.decoded.length

/-- What an operation leaves behind. -/
structure Outcome (α : Type) where
  result : Except CodecError α
  scope : PublishScope
  calls : List Call

/-! ### Encoding -/

/-- The encoding under a key, or else what the codec answers, which is then remembered. -/
def encodeOnce (s : PublishScope) (key : EncodedKey) (value : Shared AnyValue)
    (compute : Unit → Except CodecError (Option Bytes)) : Outcome (Option Bytes) :=
  match s.encoded.find? (·.key = key) with
  | some entry => ⟨.ok entry.bytes, s, []⟩
  | none =>
    let calls := [.encode key.codec value.value.type]
    match compute () with
    | .error failure => ⟨.error failure, s, calls⟩
    | .ok bytes => ⟨.ok bytes, { s with encoded := ⟨key, value, bytes⟩ :: s.encoded }, calls⟩

/-- Encodes a value whose type the codec may not know. -/
def encodeAny (s : PublishScope) (codec : AnyCodec) (value : Shared AnyValue) :
    Outcome (Option Bytes) :=
  s.encodeOnce ⟨value.address, value.value.type, codec.id⟩ value
    fun _ => codec.encode (some value.value)

/-- Encodes a value. -/
def encode {α : Type} [Carriable α] (s : PublishScope) (codec : Codec α) (value : Shared α) :
    Outcome (Option Bytes) :=
  s.encodeOnce ⟨value.address, .of α, codec.id⟩ (value.map AnyValue.of)
    fun _ => codec.encode (some value.value)

/-! ### Decoding -/

/-- The decoded value under a key, or else what the codec answers, which is then remembered. A new
value is placed at the given address. -/
def decodeOnce (s : PublishScope) (key : DecodedKey) (view : View) (address : Nat)
    (compute : Unit → Except CodecError (Decoded AnyValue)) :
    Outcome (Decoded (Shared AnyValue)) :=
  match s.decoded.find? (·.key = key) with
  | some entry => ⟨.ok entry.value, s, []⟩
  | none =>
    let calls := [.decode key.codec]
    match compute () with
    | .error failure => ⟨.error failure, s, calls⟩
    | .ok decoded =>
      let value := decoded.map (Shared.mk address)
      ⟨.ok value, { s with decoded := ⟨key, view, value⟩ :: s.decoded }, calls⟩

/-- Decodes a view to a value of a type that only the codec knows. -/
def decodeAny (s : PublishScope) (codec : AnyCodec) (view : View) (address : Nat) :
    Outcome (Decoded (Shared AnyValue)) :=
  s.decodeOnce ⟨view.address, view.bytes.length, codec.id⟩ view address
    fun _ => codec.decode (some view.bytes)

/-- A shared value, if it is of the wanted type. -/
def narrow (α : Type) [Carriable α] :
    Decoded (Shared AnyValue) → Except CodecError (Decoded (Shared α))
  | .value any =>
    match any.value.as? α with
    | some value => .ok (.value ⟨any.address, value⟩)
    | none => .error (.typeMismatch (ValueType.of α).name)
  | .absent => .ok .absent
  | .skipped => .ok .skipped

/-- Decodes a view. -/
def decode {α : Type} [Carriable α] (s : PublishScope) (codec : Codec α) (view : View)
    (address : Nat) : Outcome (Decoded (Shared α)) :=
  let decoded :=
    s.decodeOnce ⟨view.address, view.bytes.length, codec.id⟩ view address
      fun _ => (codec.decode (some view.bytes)).map (·.map AnyValue.of)
  { decoded with
    result :=
      match decoded.result with
      | .error failure => .error failure
      | .ok any => narrow α any }

end PublishScope

end CommandWire
