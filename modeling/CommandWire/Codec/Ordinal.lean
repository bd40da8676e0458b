import CommandWire.Codec.Basic
import CommandWire.DisplayName

/-!
# Ordinals

A value of a type with finitely many listed variants is encoded as its ordinal, the position in
the list, most significant byte first and signed. The number of variants decides how wide the
ordinal is.

An ordinal outside the list is an error and never a missing value: the bytes are damaged or the
two sides list different variants.
-/

namespace CommandWire

/-- A type whose variants are listed. -/
class Ordinal (α : Type) where
  /-- The name of the type in messages. -/
  name : String
  variants : Array α
  ordinal : α → Nat

/-- How many bytes an ordinal takes. -/
inductive OrdinalWidth where
  | one
  | two
  | four
deriving DecidableEq

namespace OrdinalWidth

/-- The least width that holds the ordinals of so many variants, and a sign. -/
def ofCount (cardinality : Nat) : OrdinalWidth :=
  if cardinality < 128 then one else if cardinality < 32768 then two else four

def bytes : OrdinalWidth → Nat
  | one => 1
  | two => 2
  | four => 4

end OrdinalWidth

namespace Ordinal

variable (α : Type) [Ordinal α]

/-- The width of the ordinals of a type. -/
def width : OrdinalWidth := .ofCount (variants : Array α).size

/-- The signed number that the bytes of an ordinal stand for. -/
def ofBytes (bytes : Bytes) : Int :=
  Bytes.ofResidue (Bytes.bound bytes.length) (Bytes.ofBigEndian bytes)

variable {α}

def toBytes (value : α) : Bytes := Bytes.bigEndian (width α).bytes (ordinal value)

/-- The variant with an ordinal. -/
def ofOrdinal (n : Int) : Except CodecError α :=
  match if n < 0 then none else (variants : Array α)[n.toNat]? with
  | some value => .ok value
  | none => .error (.corruptOrdinal (name α) n (variants : Array α).size)

end Ordinal

def Codec.ordinal (α : Type) [Ordinal α] : Codec α :=
  ofWidth (DisplayName.ordinalCodec (Ordinal.name α)) (Ordinal.width α).bytes Ordinal.toBytes
    fun bytes => (Ordinal.ofOrdinal (Ordinal.ofBytes bytes)).map .value

end CommandWire
