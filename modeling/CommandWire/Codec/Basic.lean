import CommandWire.Bytes
import CommandWire.Codec.Error

/-!
# Codecs

A codec for `α` turns values into bytes and bytes into values, where either may be missing. A
codec of fixed width says so, writes exactly that many bytes, and skips bytes of another number.

`Codec` promises nothing about the two functions; what a good codec does is said by predicates on
it.
-/

namespace CommandWire

/-- What becomes of some bytes. -/
inductive Decoded (α : Type) where
  | value (value : α)
  /-- The bytes stand for a missing value. -/
  | absent
  /-- The codec does not apply to the bytes. -/
  | skipped
deriving DecidableEq

namespace Decoded

variable {α β : Type}

/-- Changes the value, if there is one. -/
def map (f : α → β) : Decoded α → Decoded β
  | value a => value (f a)
  | absent => absent
  | skipped => skipped

/-- The value, if there is one. -/
def value? : Decoded α → Option α
  | value a => some a
  | _ => none

def isAbsent : Decoded α → Bool
  | absent => true
  | _ => false

def isSkipped : Decoded α → Bool
  | skipped => true
  | _ => false

@[simp] theorem map_id (d : Decoded α) : d.map id = d := by cases d <;> rfl

@[simp] theorem map_map {γ : Type} (d : Decoded α) (f : α → β) (g : β → γ) :
    (d.map f).map g = d.map (g ∘ f) := by cases d <;> rfl

end Decoded

/-- What a codec is, apart from the values it works on. Two codecs with the same identity are
taken for the same codec. -/
structure CodecId where
  name : String
deriving DecidableEq

/-- A pair of translations between values and bytes. -/
structure Codec (α : Type) where
  /-- The name in messages and logs. -/
  name : String
  /-- The number of bytes of every encoding, if it is always the same. -/
  fixedWidth : Option Nat
  encode : Option α → Except CodecError (Option Bytes)
  decode : Option Bytes → Except CodecError (Decoded α)

namespace Codec

variable {α : Type}

/-- A typed codec is what its name says. -/
def id (codec : Codec α) : CodecId := ⟨codec.name⟩

/-- A codec of fixed width. -/
def ofWidth (name : String) (width : Nat) (toBytes : α → Bytes)
    (ofBytes : Bytes → Except CodecError (Decoded α)) : Codec α where
  name := name
  fixedWidth := some width
  encode value := .ok (value.map toBytes)
  decode
    | none => .ok .absent
    | some bytes => if bytes.length = width then ofBytes bytes else .ok .skipped

/-- A codec that looks at all bytes there are. -/
def ofBytes (name : String) (toBytes : α → Except CodecError Bytes)
    (ofBytes : Bytes → Except CodecError α) : Codec α where
  name := name
  fixedWidth := none
  encode
    | none => .ok none
    | some value => (toBytes value).map some
  decode
    | none => .ok .absent
    | some bytes => (ofBytes bytes).map .value

end Codec

end CommandWire
