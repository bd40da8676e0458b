import CommandWire.Codec.Primitive
import CommandWire.Event.Config
import CommandWire.Frame.Read
import CommandWire.Frame.Write
import CommandWire.Method.Basic

/-!
# Variants of frames

A variant says how a frame identifies the method. The first byte of the frame is the variant's
tag. Two variants are built in: by names, which needs no agreement beforehand, and by index, which
is short but needs the same numbering on both sides.
-/

namespace CommandWire

/-- A way to identify methods in frames. -/
structure Variant where
  /-- The first byte of frames of this variant. -/
  tag : UInt8
  name : String
  writeMethod : MethodDirectory → Method → FrameWrite Unit
  readMethod : MethodDirectory → FrameRead Method

namespace Variant

/-! ### By names -/

/-- The names of the types of parameters, in order. -/
def writeParameters : List Parameter → FrameWrite Unit
  | [] => return
  | p :: parameters => do
    FrameWrite.name "parameter type" p.wireType
    writeParameters parameters

/-- So many names of types. -/
def readParameters : (count : Nat) → FrameRead (List String)
  | 0 => return []
  | count + 1 => do
    let name ← FrameRead.name "parameter type"
    return name :: (← readParameters count)

/-- The simple name of the interface, the name of the method, and the number and the names of the
types of its parameters. -/
def writeByName (_ : MethodDirectory) (m : Method) : FrameWrite Unit := do
  FrameWrite.name "interface" m.wireInterface
  FrameWrite.name "method" m.name
  let count := m.parameters.length
  if 255 < count then throw (.tooManyParameters m.text count)
  FrameWrite.byte (.ofNat count)
  writeParameters m.parameters

def readByName (methods : MethodDirectory) : FrameRead Method := do
  let interface ← FrameRead.name "interface"
  let method ← FrameRead.name "method"
  let count ← FrameRead.byte "parameter count"
  let parameters ← readParameters count.toNat
  match methods.bySignature interface method parameters with
  | some m => return m
  | none => throw (.unresolvedMethod (signatureText interface method parameters))

def named : Variant where
  tag := WireVersion.default.tag
  name := WireVersion.default.name
  writeMethod := writeByName
  readMethod := readByName

/-! ### By index -/

/-- The index of the method. -/
def writeByIndex (methods : MethodDirectory) (m : Method) : FrameWrite Unit :=
  match methods.index? m with
  | some index => FrameWrite.raw (shortBytes index)
  | none => throw (.unindexedMethod m.text)

def readByIndex (methods : MethodDirectory) : FrameRead Method := do
  let index := ofShortBytes (← FrameRead.take "method index" 2)
  match methods.byIndex index with
  | some m => return m
  | none => throw (.unresolvedMethod s!"method index {index.toInt}")

def indexed : Variant where
  tag := WireVersion.v1.tag
  name := WireVersion.v1.name
  writeMethod := writeByIndex
  readMethod := readByIndex

end Variant

end CommandWire
