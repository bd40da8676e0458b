import CommandWire.Codec.Basic
import CommandWire.DisplayName
import CommandWire.Double.Basic

/-!
# Primitive values

Truth values, integers and doubles have encodings of fixed width. The byte orders differ: 16 and
32 bits are written most significant byte first, 64 bits least significant first, and a double is
written like the integer with its bits.

A text is encoded as its UTF-8 bytes and nothing else. The empty text has an empty encoding, so its
codec is not one for the arguments of commands, where an empty block means a missing argument; it
serves as a part of other codecs.
-/

namespace CommandWire

/-! ### Truth values -/

/-- The byte that stands for a missing truth value; it is never written. -/
def missingBool : UInt8 := 0xFF

def boolBytes (value : Bool) : Bytes := [if value then 1 else 0]

/-- Only one is true; all other bytes but the one for a missing value are false. -/
def ofBoolBytes (bytes : Bytes) : Decoded Bool :=
  if bytes = [missingBool] then .absent else .value (bytes = [1])

/-! ### Integers -/

def shortBytes (n : Int16) : Bytes := Bytes.bigEndian 2 (Bytes.residue (Bytes.bound 2) n.toInt)

def ofShortBytes (bytes : Bytes) : Int16 :=
  .ofInt (Bytes.ofResidue (Bytes.bound 2) (Bytes.ofBigEndian bytes))

def intBytes (n : Int32) : Bytes := Bytes.bigEndian 4 (Bytes.residue (Bytes.bound 4) n.toInt)

def ofIntBytes (bytes : Bytes) : Int32 :=
  .ofInt (Bytes.ofResidue (Bytes.bound 4) (Bytes.ofBigEndian bytes))

def longBytes (n : Int64) : Bytes := Bytes.littleEndian 8 (Bytes.residue (Bytes.bound 8) n.toInt)

def ofLongBytes (bytes : Bytes) : Int64 :=
  .ofInt (Bytes.ofResidue (Bytes.bound 8) (Bytes.ofLittleEndian bytes))

/-! ### Doubles -/

def doubleBytes (x : Double) : Bytes := Bytes.littleEndian 8 x.bits.toNat

def ofDoubleBytes (bytes : Bytes) : Double := ⟨.ofNat (Bytes.ofLittleEndian bytes)⟩

/-! ### Texts -/

/-- The text of some bytes, which stand in the given field. -/
def textOfBytes (field : String) (bytes : Bytes) : Except CodecError String :=
  match Bytes.toText? bytes with
  | some text => .ok text
  | none => .error (.invalidUtf8 field)

/-! ### Codecs -/

namespace Codec

def bool : Codec Bool :=
  ofWidth (DisplayName.primitiveCodec "BoolCodec") 1 boolBytes fun bytes => .ok (ofBoolBytes bytes)

def short : Codec Int16 :=
  ofWidth (DisplayName.primitiveCodec "ShortCodec") 2 shortBytes
    fun bytes => .ok (.value (ofShortBytes bytes))

def int : Codec Int32 :=
  ofWidth (DisplayName.primitiveCodec "IntCodec") 4 intBytes
    fun bytes => .ok (.value (ofIntBytes bytes))

def long : Codec Int64 :=
  ofWidth (DisplayName.primitiveCodec "LongCodec") 8 longBytes
    fun bytes => .ok (.value (ofLongBytes bytes))

def double : Codec Double :=
  ofWidth (DisplayName.primitiveCodec "DoubleCodec") 8 doubleBytes
    fun bytes => .ok (.value (ofDoubleBytes bytes))

def string : Codec String :=
  ofBytes DisplayName.textCodec (fun text => .ok (Bytes.ofText text)) (textOfBytes "string")

end Codec

end CommandWire
