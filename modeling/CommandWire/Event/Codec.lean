import CommandWire.Event.Command
import CommandWire.Event.Variant
import CommandWire.PublishScope
import CommandWire.Registry.Basic

/-!
# Command events as frames

A frame is the tag of a variant, the name of the application, the method as the variant writes it,
and a block for each parameter. An argument is encoded by the codec that the registry has for the
type of its parameter, and decoded by the same.

Encoding and decoding work on a `Workspace`: they may add fallback codecs to the registry and
entries to the publish scope, and they leave a record of what they reported and which codecs they
asked. What they have done up to an error stays done.
-/

namespace CommandWire

/-! ### Workspaces -/

/-- What encoding and decoding change on their way. -/
structure Workspace where
  registry : Registry
  scope : PublishScope
  log : List LogEvent
  calls : List Call

namespace Workspace

/-- A workspace with an empty record. -/
def of (registry : Registry) (scope : PublishScope) : Workspace := ⟨registry, scope, [], []⟩

/-- The codec for a type. -/
def lookup (w : Workspace) (type : ValueType) : AnyCodec × Workspace :=
  let found := w.registry.lookup type
  (found.result.codec, { w with registry := found.registry, log := w.log ++ found.log })

/-- Encodes a value. -/
def encode (codec : AnyCodec) (value : AnyValue) (w : Workspace) :
    Except CodecError (Option Bytes) × Workspace :=
  (codec.encode (some value), { w with calls := w.calls ++ [.encode codec.id value.type] })

/-- Encodes a value, or finds its encoding in the publish scope. -/
def encodeShared (codec : AnyCodec) (value : Shared AnyValue) (w : Workspace) :
    Except CodecError (Option Bytes) × Workspace :=
  let encoded := w.scope.encodeAny codec value
  (encoded.result, { w with scope := encoded.scope, calls := w.calls ++ encoded.calls })

/-- Decodes the bytes of a block. -/
def decode (codec : AnyCodec) (bytes : Bytes) (w : Workspace) :
    Except CodecError (Decoded AnyValue) × Workspace :=
  (codec.decode (some bytes), { w with calls := w.calls ++ [.decode codec.id] })

end Workspace

/-! ### Event codecs -/

/-- How events are written and read: what is known about methods, the variants by tag, and the
settings. -/
structure EventCodec where
  methods : MethodDirectory
  variants : SortedMap UInt8 Variant
  config : EventConfig

namespace EventCodec

/-- The event codec with the two built-in variants and the default settings. -/
def new (methods : MethodDirectory) : EventCodec where
  methods := methods
  variants := .ofList [(Variant.named.tag, .named), (Variant.indexed.tag, .indexed)]
  config := .default

/-- The event codec with other settings, if they are valid. -/
def configure (c : EventCodec) (config : EventConfig) : Except CodecError EventCodec :=
  config.validate.map fun () => { c with config }

/-- The event codec with one more variant, which takes the place of one with the same tag. -/
def addVariant (c : EventCodec) (variant : Variant) : EventCodec :=
  { c with variants := c.variants.insert variant.tag variant }

/-! ### Encoding -/

/-- Appends the blocks of arguments, the first of which is at the given position. -/
def encodeArguments {ν : Type} (c : EventCodec)
    (encode : AnyCodec → ν → Workspace → Except CodecError (Option Bytes) × Workspace) :
    (index : Nat) → List (Parameter × Option ν) → Bytes → Workspace →
      Except CodecError Bytes × Workspace
  | _, [], out, w => (.ok out, w)
  | index, (_, none) :: others, out, w =>
    -- A missing argument needs no codec, so the registry is not asked.
    match (FrameWrite.block index none c.config.maxArgumentLength).run out with
    | (.error failure, _) => (.error failure, w)
    | (.ok (), out) => c.encodeArguments encode (index + 1) others out w
  | index, (parameter, some value) :: others, out, w =>
    let (codec, w) := w.lookup parameter.type
    match encode codec value w with
    | (.error failure, w) => (.error failure, w)
    | (.ok payload, w) =>
      match (FrameWrite.block index payload c.config.maxArgumentLength).run out with
      | (.error failure, _) => (.error failure, w)
      | (.ok (), out) => c.encodeArguments encode (index + 1) others out w

/-- The part of the frame before the blocks. -/
def encodeHead (c : EventCodec) (variant : Variant) (tag : UInt8) (application : String)
    (method : Method) : FrameWrite Unit := do
  FrameWrite.byte tag
  FrameWrite.name "application" application
  variant.writeMethod c.methods method

/-- The frame of an event, given how arguments are encoded. -/
def encodeBy {ν : Type} (c : EventCodec)
    (encode : AnyCodec → ν → Workspace → Except CodecError (Option Bytes) × Workspace)
    (event : CommandEvent ν) (w : Workspace) : Except CodecError Bytes × Workspace :=
  let tag := event.version.getD c.config.version.tag
  let method := event.method
  let expected := method.parameters.length
  let actual := event.arguments.length
  match c.variants.get? tag with
  | none => (.error (.unsupportedVersion tag), w)
  | some variant =>
    if expected ≠ actual then (.error (.argumentCount method.text expected actual), w)
    else
      match (c.encodeHead variant tag event.application method).run [] with
      | (.error failure, _) => (.error failure, w)
      | (.ok (), out) =>
        match c.encodeArguments encode 0 (method.parameters.zip event.arguments) out w with
        | (.error failure, w) => (.error failure, w)
        | (.ok out, w) => (.ok out, w)

/-- The frame of an event. -/
def encode (c : EventCodec) (event : CommandEvent AnyValue) (w : Workspace) :
    Except CodecError Bytes × Workspace :=
  c.encodeBy Workspace.encode event w

/-- The frame of an event, where every shared value is encoded only once by the same codec. -/
def encodeShared (c : EventCodec) (event : CommandEvent (Shared AnyValue)) (w : Workspace) :
    Except CodecError Bytes × Workspace :=
  c.encodeBy Workspace.encodeShared event w

/-! ### Decoding -/

/-- The variant for the tag of a frame, and what is to be reported. -/
def variantFor (c : EventCodec) (tag : UInt8) : Except CodecError Variant × List LogEvent :=
  match c.variants.get? tag with
  | some variant => (.ok variant, [])
  | none =>
    match c.config.unknownVersion with
    | .strict => (.error (.unsupportedVersion tag), [])
    | .lenient =>
      match c.variants.get? WireVersion.default.tag with
      | some variant => (.ok variant, [.unknownVersion tag])
      | none => (.error (.unsupportedVersion tag), [.unknownVersion tag])

/-- What is between the tag and the blocks: the application and the method. -/
def decodeHead (c : EventCodec) (variant : Variant) : FrameRead (String × Method) := do
  let application ← FrameRead.name "application"
  return (application, ← variant.readMethod c.methods)

/-- The argument at a position, in its block, and what is left of the frame. An empty block has no
codec. -/
def decodeArgument (index : Nat) (parameter : Parameter) (unread : Bytes) (w : Workspace) :
    Except CodecError (Option AnyValue × Bytes) × Workspace :=
  match (FrameRead.block "argument").run unread with
  | (.error failure, _) => (.error failure, w)
  | (.ok none, unread) => (.ok (none, unread), w)
  | (.ok (some bytes), unread) =>
    let (codec, w) := w.lookup parameter.type
    match w.decode codec bytes with
    | (.error failure, w) => (.error failure, w)
    | (.ok (.value value), w) => (.ok (some value, unread), w)
    | (.ok .absent, w) => (.ok (none, unread), w)
    | (.ok .skipped, w) => (.error (.notApplicable codec.name s!"argument #{index}"), w)

/-- The arguments for some parameters, the first of which is at the given position, and what is
left of the frame. -/
def decodeArguments : (index : Nat) → List Parameter → Bytes → Workspace →
    Except CodecError (List (Option AnyValue) × Bytes) × Workspace
  | _, [], unread, w => (.ok ([], unread), w)
  | index, parameter :: others, unread, w =>
    match decodeArgument index parameter unread w with
    | (.error failure, w) => (.error failure, w)
    | (.ok (argument, unread), w) =>
      match decodeArguments (index + 1) others unread w with
      | (.error failure, w) => (.error failure, w)
      | (.ok (arguments, unread), w) => (.ok (argument :: arguments, unread), w)

/-- The event of a frame. It names the version whose variant has read it. -/
def decode (c : EventCodec) (frame : Bytes) (w : Workspace) :
    Except CodecError (CommandEvent AnyValue) × Workspace :=
  match (FrameRead.byte "version").run frame with
  | (.error failure, _) => (.error failure, w)
  | (.ok tag, unread) =>
    let (variant, log) := c.variantFor tag
    let w := { w with log := w.log ++ log }
    match variant with
    | .error failure => (.error failure, w)
    | .ok variant =>
      match (c.decodeHead variant).run unread with
      | (.error failure, _) => (.error failure, w)
      | (.ok (application, method), unread) =>
        match decodeArguments 0 method.parameters unread w with
        | (.error failure, w) => (.error failure, w)
        | (.ok (arguments, unread), w) =>
          match FrameRead.done unread with
          | .error failure => (.error failure, w)
          | .ok () => (.ok ⟨application, method, arguments, some variant.tag⟩, w)

end EventCodec

end CommandWire
