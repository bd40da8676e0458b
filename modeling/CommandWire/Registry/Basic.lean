import CommandWire.Codec.Fallback
import CommandWire.LogEvent

/-!
# The codec registry

A registry knows a codec for some value types and finds one for all: where none is registered, it
makes the fallback codec of the type and keeps it. Registering replaces whatever was there.

The operations are functions from the registry to a result, the registry after it, and the events
to report (`Registry.Outcome`).
-/

namespace CommandWire

namespace Registry

/-- A codec for a value type. The serial tells apart entries that have been made at different
times, even if their codecs are alike. -/
structure Entry where
  type : ValueType
  codec : AnyCodec
  serial : Nat

end Registry

/-- Codecs by value type, at most one for each. -/
structure Registry where
  entries : List Registry.Entry
  /-- The serial of the next entry. -/
  nextSerial : Nat

namespace Registry

/-- The registry without codecs. -/
def empty : Registry := ⟨[], 0⟩

/-- What an operation leaves behind. -/
structure Outcome (α : Type) where
  result : α
  registry : Registry
  log : List LogEvent

/-- The entry for a value type. -/
def find? (r : Registry) (type : ValueType) : Option Entry := r.entries.find? (·.type = type)

/-- There is an entry for the value type, be it a fallback. -/
def contains (r : Registry) (type : ValueType) : Bool := (r.find? type).isSome

/-- The number of entries. -/
def size (r : Registry) : Nat := r.entries.length

/-- The registry with an entry for a type, in the place of the former one if there was one. -/
def set (r : Registry) (type : ValueType) (codec : AnyCodec) : Registry :=
  let entry := ⟨type, codec, r.nextSerial⟩
  { entries :=
      if r.contains type then r.entries.map fun e => if e.type = type then entry else e
      else r.entries ++ [entry]
    nextSerial := r.nextSerial + 1 }

/-! ### Registering -/

/-- What is reported when a codec is registered where another one was, or none. -/
def registrationLog (type : ValueType) (previous : Option AnyCodec) (codec : AnyCodec) :
    List LogEvent :=
  let registered := [.codecRegistered type.name codec.name]
  match previous with
  | none => registered
  | some previous =>
    if previous.isSame codec then registered
    else .codecReplaced type.name previous.name previous.target.name codec.name :: registered

/-- Makes a codec the one for a type. The result is the codec that was there before. -/
def register (r : Registry) (type : ValueType) (codec : AnyCodec) : Outcome (Option AnyCodec) :=
  let previous := (r.find? type).map (·.codec)
  ⟨previous, r.set type codec, registrationLog type previous codec⟩

/-- Makes a typed codec the one for its type. -/
def registerTyped {α : Type} [Carriable α] (r : Registry) (codec : Codec α) :
    Outcome (Option AnyCodec) :=
  r.register (.of α) codec.erased

/-! ### Finding -/

/-- The entry for a type. Where there was none, the fallback is entered. -/
def lookup (r : Registry) (type : ValueType) : Outcome Entry :=
  match r.find? type with
  | some entry => ⟨entry, r, []⟩
  | none =>
    let codec := type.fallback
    ⟨⟨type, codec, r.nextSerial⟩, r.set type codec, [.fallbackCached type.name codec.name]⟩

/-- Encodes a value of any type with the codec for a type. -/
def encode (r : Registry) (type : ValueType) (value : Option AnyValue) :
    Outcome (Except CodecError (Option Bytes)) :=
  let found := r.lookup type
  { found with result := found.result.codec.encode value }

/-- Decodes bytes with the codec for a type. -/
def decode (r : Registry) (type : ValueType) (bytes : Option Bytes) :
    Outcome (Except CodecError (Decoded AnyValue)) :=
  let found := r.lookup type
  { found with result := found.result.codec.decode bytes }

section typed

variable {α : Type} [Carriable α]

/-- Encodes a value with the codec for its type. -/
def encodeTyped (r : Registry) (value : Option α) : Outcome (Except CodecError (Option Bytes)) :=
  r.encode (.of α) (value.map AnyValue.of)

/-- Decodes bytes as a value of a type. -/
def decodeTyped (α : Type) [Carriable α] (r : Registry) (bytes : Option Bytes) :
    Outcome (Except CodecError (Decoded α)) :=
  let decoded := r.decode (.of α) bytes
  { decoded with
    result :=
      match decoded.result with
      | .error failure => .error failure
      | .ok any => any.narrow α }

end typed

/-! ### Installing -/

/-- A way to make a codec, which may or may not know its target type. -/
structure Factory where
  name : String
  target : Option ValueType
  build : Unit → AnyCodec

/-- A factory for a codec. -/
def Factory.ofAnyCodec (codec : AnyCodec) : Factory where
  name := codec.name
  target := some codec.target
  build _ := codec

/-- A factory for a typed codec. -/
def Factory.ofCodec {α : Type} [Carriable α] (codec : Codec α) : Factory :=
  .ofAnyCodec codec.erased

/-- Registers the codecs of the factories, in order, and counts them. A factory without target
type is passed over. -/
def install (r : Registry) : List Factory → Outcome Nat
  | [] => ⟨0, r, []⟩
  | factory :: factories =>
    match factory.target with
    | none =>
      let others := r.install factories
      { others with log := .factorySkipped factory.name :: others.log }
    | some type =>
      let registered := r.register type (factory.build ())
      let others := registered.registry.install factories
      { result := others.result + 1
        registry := others.registry
        log := registered.log ++ others.log }

/-! ### Listing -/

/-- The order of the listing: by type, then by codec. -/
def listedBefore (a b : String × String) : Bool := a.1 < b.1 || (a.1 = b.1 && a.2 ≤ b.2)

/-- The names of all types and codecs, in order. -/
def registered (r : Registry) : List (String × String) :=
  (r.entries.map fun e => (e.type.name, e.codec.name)).mergeSort listedBefore

end Registry

end CommandWire
